import NativePeer.Proofs.Document.Members

/-
This file says what a class element adds to a document and what it leaves as it is.
-/

namespace NativePeer

namespace Document

open Markup

/-- The markup of one element. -/
inductive IsMarkupOf : Tag × Forest → List Event → Prop where
  | selfClosing (tag : Tag) : IsMarkupOf (tag, .nil) [.selfClosing tag]
  | element (tag : Tag) (inside : Forest) :
    IsMarkupOf (tag, inside) (.opening tag :: (inside.events ++ [.closing tag.name]))

namespace Forest

/-- What the reader of a method looks at. -/
def parametersOnly : Forest → Forest
  | nil => nil
  | content rest => rest.parametersOnly
  | selfClosing tag rest =>
    if tag.name = "param" then element tag nil rest.parametersOnly else rest.parametersOnly
  | element tag _ rest =>
    if tag.name = "param" then element tag nil rest.parametersOnly else rest.parametersOnly

/-- What the reader of a class looks at. -/
def membersOnly : Forest → Forest
  | nil => nil
  | content rest => rest.membersOnly
  | selfClosing tag rest =>
    if tag.name = "method" ∨ tag.name = "field" then element tag nil rest.membersOnly
    else rest.membersOnly
  | element tag inside rest =>
    if tag.name = "method" then element tag inside.parametersOnly rest.membersOnly
    else if tag.name = "field" then element tag nil rest.membersOnly
    else rest.membersOnly

theorem parameters_parametersOnly (forest : Forest) (method : Method) :
    forest.parametersOnly.parameters method = forest.parameters method := by
  induction forest generalizing method with
  | nil => rfl
  | content rest inductionHypothesis => exact inductionHypothesis method
  | selfClosing tag rest inductionHypothesis | element tag _ rest _ inductionHypothesis =>
    rw [parametersOnly, parameters]
    split
    · rw [parameters]
      congr 1
      funext longer
      exact inductionHypothesis longer
    · next other =>
      rw [parameterOf_other other, except_ok_bind]
      exact inductionHypothesis method

theorem memberOf_parametersOnly {tag : Tag} (named : tag.name = "method") (inside : Forest)
    (current : ManagedClass) :
    memberOf current tag inside.parametersOnly = memberOf current tag inside := by
  rw [memberOf, memberOf, if_pos named, if_pos named]
  simp only [parameters_parametersOnly]

/-- A field has no content. -/
theorem memberOf_field_inside {tag : Tag} (other : tag.name ≠ "method") (inside : Forest)
    (current : ManagedClass) : memberOf current tag inside = memberOf current tag nil := by
  rw [memberOf, memberOf, if_neg other, if_neg other]

theorem members_membersOnly (forest : Forest) (current : ManagedClass) :
    forest.membersOnly.members current = forest.members current := by
  induction forest generalizing current with
  | nil => rfl
  | content rest inductionHypothesis => exact inductionHypothesis current
  | selfClosing tag rest inductionHypothesis =>
    rw [membersOnly, members]
    split
    · rw [members]
      simp only [inductionHypothesis]
    · next other =>
      have noMethod : tag.name ≠ "method" := fun named => other (.inl named)
      have noField : tag.name ≠ "field" := fun named => other (.inr named)
      rw [memberOf, if_neg noMethod, if_neg noField, except_ok_bind]
      exact inductionHypothesis current
  | element tag inside rest _ inductionHypothesis =>
    rw [membersOnly, members]
    split
    · next isMethod =>
      rw [members, memberOf_parametersOnly isMethod]
      simp only [inductionHypothesis]
    · next noMethod =>
      split
      · rw [members, memberOf_field_inside noMethod inside]
        simp only [inductionHypothesis]
      · next noField =>
        rw [memberOf, if_neg noMethod, if_neg noField, except_ok_bind]
        exact inductionHypothesis current

end Forest

/-- The models differ in one class at most. -/
def SameBut (shared : List ManagedClass) (first second : ManagedClass)
    (model other : ClassModel) : Prop :=
  model = other ∨ ∃ rest, model.classes = shared ++ first :: rest ∧
    other.classes = shared ++ second :: rest

theorem add_alike {shared : List ManagedClass} {first second : ManagedClass}
    (sameName : first.qualifiedName = second.qualifiedName) {model other : ClassModel}
    (models : SameBut shared first second model other) (added : ManagedClass) :
    Alike (SameBut shared first second) (model.add added) (other.add added) := by
  rcases models with rfl | ⟨rest, shape, otherShape⟩
  · exact .refl fun _ => .inl rfl
  · have names : model.names = other.names := by
      simp only [ClassModel.names, shape, otherShape, List.map_append, List.map_cons, sameName]
    by_cases fresh : added.qualifiedName ∉ model.names
    · obtain ⟨longer, accepted, classes⟩ := model.add_of_fresh fresh
      obtain ⟨otherLonger, otherAccepted, otherClasses⟩ :=
        other.add_of_fresh (names ▸ fresh)
      rw [accepted, otherAccepted]
      refine .done (.inr ⟨rest ++ [added], ?_, ?_⟩)
      · rw [classes, shape, List.append_assoc, List.cons_append]
      · rw [otherClasses, otherShape, List.append_assoc, List.cons_append]
    · have taken := Decidable.not_not.mp fresh
      rw [ClassModel.add_of_taken taken, ClassModel.add_of_taken (names ▸ taken)]
      exact .failed _

/-- Two classes of one name are added alike. -/
theorem add_either_alike {first second : ManagedClass}
    (sameName : first.qualifiedName = second.qualifiedName) (model : ClassModel) :
    Alike (SameBut model.classes first second) (model.add first) (model.add second) := by
  by_cases fresh : first.qualifiedName ∉ model.names
  · obtain ⟨longer, accepted, classes⟩ := model.add_of_fresh fresh
    obtain ⟨otherLonger, otherAccepted, otherClasses⟩ :=
      model.add_of_fresh (sameName ▸ fresh)
    rw [accepted, otherAccepted]
    exact .done (.inr ⟨[], classes, otherClasses⟩)
  · have taken := Decidable.not_not.mp fresh
    rw [ClassModel.add_of_taken taken, ClassModel.add_of_taken (sameName ▸ taken), sameName]
    exact .failed _

/-- Two readers that differ in one complete class. -/
def Likeness.but (shared : List ManagedClass) (first second : ManagedClass)
    (sameName : first.qualifiedName = second.qualifiedName) : Likeness :=
  { Likeness.equal with
    models := SameBut shared first second
    runtime := .inl rfl
    add := by
      rintro _ _ added _ models rfl
      exact add_alike sameName models added }

/-- After a class element the reader is where it was before. -/
theorem run_class_markup {element : Tag × Forest} {markup : List Event}
    (isMarkup : IsMarkupOf element markup) (isClass : element.1.name = "class")
    (started : ClassModel) :
    markup.foldlM Reader.step (.outside (some started)) =
      (Forest.addTo (some started) element.1 element.2).map .outside := by
  cases isMarkup with
  | selfClosing tag =>
    change (Forest.selfClosing tag .nil).run _ = _
    rw [Forest.run_selfClosing, Forest.step_selfClosing_class isClass]
    cases Forest.addTo (some started) tag .nil <;> rfl
  | element tag inside =>
    change (Forest.element tag inside .nil).run _ = _
    rw [Forest.run_element, Forest.runElement_class isClass]
    cases Forest.addTo (some started) tag inside <;> rfl

theorem readRest_class {element : Tag × Forest} {markup : List Event}
    (isMarkup : IsMarkupOf element markup) (isClass : element.1.name = "class")
    (started : ClassModel) (after : List Event) :
    (Reader.outside (some started)).readRest (markup ++ after) = (do
      let declared ← Forest.declaredBy element.1 element.2
      let next ← (started.add declared).mapError .duplicate
      (Reader.outside (some next)).readRest after) := by
  rw [Reader.readRest, List.foldlM_append, run_class_markup isMarkup isClass, Forest.addTo]
  cases Forest.declaredBy element.1 element.2 with
  | error error => rfl
  | ok declared =>
    rw [except_ok_bind, except_ok_bind]
    cases (started.add declared).mapError DocumentError.duplicate <;> rfl

/-- A class element in a model and in no other class is read from its direct children and their
parameters. What follows is read as if the element were empty. -/
theorem read_class_element {text : String} {before markup after : List Event}
    {element : Tag × Forest} {opened : List String} {reader : Reader}
    (scanned : scan text.toList = ⟨before ++ (markup ++ after), none⟩)
    (isMarkup : IsMarkupOf element markup) (isClass : element.1.name = "class")
    (nested : openAfter [] before = some opened) (inModel : "model" ∈ opened)
    (classless : "class" ∉ opened)
    (reached : before.foldlM Reader.step (.outside none) = .ok reader) :
    ∃ started, reader = .outside (some started) ∧
      ((∃ declared, IsClassOf element declared) ∨ ∃ error, ClassFault element error) ∧
      (∀ error, ClassFault element error → Document.read text = .error error) ∧
      (∀ declared, IsClassOf element declared →
        Document.read text = ((started.add declared).mapError .duplicate >>= fun next =>
            (Reader.outside (some next)).readRest after) ∧
          Alike (SameBut started.classes declared { declared with fields := [], methods := [] })
            (Document.read text) (readScan ⟨before ++ .selfClosing element.1 :: after, none⟩)) ∧
      ∀ other otherMarkup, IsMarkupOf (element.1, other) otherMarkup →
        other.membersOnly = element.2.membersOnly →
          readScan ⟨before ++ (otherMarkup ++ after), none⟩ = Document.read text := by
  obtain ⟨started, rfl⟩ :=
    eq_outside_of_standsIn (run_standsIn start_standsIn nested reached) inModel classless
  have whole : Document.read text = (do
      let declared ← Forest.declaredBy element.1 element.2
      let next ← (started.add declared).mapError .duplicate
      (Reader.outside (some next)).readRest after) := by
    rw [Document.read, scanned, readScan_append reached, readRest_class isMarkup isClass]
  refine ⟨started, rfl, ?_, ?_, ?_, ?_⟩
  · cases described : Forest.declaredBy element.1 element.2 with
    | error error => exact .inr ⟨error, declaredBy_eq_error.mp described⟩
    | ok declared => exact .inl ⟨declared, declaredBy_eq_ok.mp described⟩
  · intro error fault
    rw [whole, declaredBy_eq_error.mpr fault]
    rfl
  · intro declared described
    rw [whole, declaredBy_eq_ok.mpr described, except_ok_bind]
    refine ⟨rfl, ?_⟩
    -- From here on the two readers differ only in the class that has just ended.
    let empty : ManagedClass := { declared with fields := [], methods := [] }
    have hollow : Forest.declaredBy element.1 .nil = .ok empty := by
      rw [Forest.declaredBy, ← attributesOf, described.header]
      rfl
    have marked := readRest_class (.selfClosing element.1) isClass started after
    rw [hollow, except_ok_bind] at marked
    rw [readScan_append reached, ← List.singleton_append, marked]
    have sameName : declared.qualifiedName = empty.qualifiedName := rfl
    refine ((add_either_alike sameName started).mapError _).bind fun next other models => ?_
    have readers : (Likeness.but started.classes declared empty sameName).Readers
        (.outside (some next)) (.outside (some other)) := .outside models
    exact Likeness.readRest_alike readers after
  · intro other otherMarkup otherIsMarkup same
    rw [whole, readScan_append reached, readRest_class otherIsMarkup isClass, Forest.declaredBy,
      Forest.declaredBy]
    simp only [← Forest.members_membersOnly other, same, Forest.members_membersOnly]

/-- A class with unknown elements that hold fields and parameters themselves. -/
def nestedContent : Forest :=
  .element ⟨"doc", []⟩ (.selfClosing ⟨"field", [.malformed]⟩ .nil)
    (.selfClosing ⟨"field", [.pair "name" "x", .pair "type" "int"]⟩
      (.element ⟨"method", [.pair "name" "f", .pair "returns" "int"]⟩
        (.selfClosing ⟨"param", [.pair "name" "y", .pair "type" "int"]⟩
          (.element ⟨"doc", []⟩ (.selfClosing ⟨"param", []⟩ .nil) .nil)) .nil))

def nestedDocument : String :=
  "<model><class name=\"A\"><doc><field x/></doc><field name=\"x\" type=\"int\"/>" ++
    "<method name=\"f\" returns=\"int\"><param name=\"y\" type=\"int\"/><doc><param/></doc>" ++
    "</method></class><class name=\"B\"/></model>"

theorem read_class_element_nested :
    ∃ (started : ClassModel) (declared : ManagedClass),
      IsClassOf (⟨"class", [.pair "name" "A"]⟩, nestedContent) declared ∧
      declared.fields.map Field.name = ["x"] ∧
      (declared.methods.map fun method => (method.name, method.parameters.map Parameter.name)) =
        [("f", ["y"])] ∧
      Alike (SameBut started.classes declared { declared with fields := [], methods := [] })
        (Document.read nestedDocument)
        (readScan ⟨[.opening ⟨"model", []⟩, .selfClosing ⟨"class", [.pair "name" "A"]⟩,
          .selfClosing ⟨"class", [.pair "name" "B"]⟩, .closing "model"], none⟩) := by
  let tag : Tag := ⟨"class", [.pair "name" "A"]⟩
  let declared : ManagedClass :=
    { ManagedClass.named "A" with
      fields := [⟨"x", .primitive .int, false, false, none⟩]
      methods := [⟨"f", .primitive .int, [⟨"y", .primitive .int⟩], false, false⟩] }
  have scanned : scan nestedDocument.toList = ⟨[.opening ⟨"model", []⟩] ++
      ((.opening tag :: (nestedContent.events ++ [.closing "class"])) ++
        [.selfClosing ⟨"class", [.pair "name" "B"]⟩, .closing "model"]), none⟩ := by
    decide +kernel
  obtain ⟨started, _, _, _, accepted, _⟩ :=
    read_class_element scanned (.element tag nestedContent) rfl rfl (by decide) (by decide) rfl
  have described : IsClassOf (tag, nestedContent) declared :=
    declaredBy_eq_ok.mp (by decide +kernel)
  exact ⟨started, declared, described, rfl, rfl, (accepted declared described).2⟩

end Document

end NativePeer
