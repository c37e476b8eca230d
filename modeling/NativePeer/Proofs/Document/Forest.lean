import NativePeer.Document.Reader
import NativePeer.Proofs.Computation

/-
This file shows that the reader follows the elements of a document.
-/

namespace NativePeer.Document

open Markup

/-- The elements and the content that stand side by side in a well-formed document. -/
inductive Forest where
  | nil
  | content (rest : Forest)
  | selfClosing (tag : Tag) (rest : Forest)
  | element (tag : Tag) (inside rest : Forest)
  deriving DecidableEq

namespace Forest

/-- The markup of the elements in document order. Each element ends with its own name. -/
def events : Forest → List Event
  | nil => []
  | content rest => .content :: rest.events
  | selfClosing tag rest => .selfClosing tag :: rest.events
  | element tag inside rest =>
    .opening tag :: (inside.events ++ .closing tag.name :: rest.events)

/-- The method with the parameters that stand side by side. -/
def parameters : Forest → Method → Except DocumentError Method
  | nil, method => .ok method
  | content rest, method => rest.parameters method
  | selfClosing tag rest, method => do
    let longer ← parameterOf method 0 tag
    rest.parameters longer
  | element tag _ rest, method => do
    let longer ← parameterOf method 0 tag
    rest.parameters longer

/-- The class with one more member, if the element is one. Only a method looks into its element. -/
def memberOf (current : ManagedClass) (tag : Tag) (inside : Forest) :
    Except DocumentError ManagedClass :=
  if tag.name = "method" then do
    let method ← readMethod (Attribute.pairs tag.attributes)
    let complete ← inside.parameters method
    return addMethod current complete
  else if tag.name = "field" then fieldOf current tag
  else .ok current

/-- The class with the members that stand side by side. -/
def members : Forest → ManagedClass → Except DocumentError ManagedClass
  | nil, current => .ok current
  | content rest, current => rest.members current
  | selfClosing tag rest, current => do
    let longer ← memberOf current tag nil
    rest.members longer
  | element tag inside rest, current => do
    let longer ← memberOf current tag inside
    rest.members longer

/-- The class of an element, complete with its members. -/
def declaredBy (tag : Tag) (inside : Forest) : Except DocumentError ManagedClass := do
  let header ← readClass (Attribute.pairs tag.attributes)
  inside.members header

/-- A class is added to the model that was started last. -/
def addTo (start : Option ClassModel) (tag : Tag) (inside : Forest) :
    Except DocumentError (Option ClassModel) :=
  match start with
  | none => .error (.layout .classOutsideModel)
  | some started => do
    let declared ← declaredBy tag inside
    let next ← (started.add declared).mapError .duplicate
    return some next

/-- A model element starts a new model and no other element does. -/
def startedBy (start : Option ClassModel) (tag : Tag) : Option ClassModel :=
  if tag.name = "model" then some .runtime else start

/-- The model after the elements that stand side by side. -/
def model : Forest → Option ClassModel → Except DocumentError (Option ClassModel)
  | nil, start => .ok start
  | content rest, start => rest.model start
  | selfClosing tag rest, start =>
    if tag.name = "class" then do
      let next ← addTo start tag nil
      rest.model next
    else rest.model (startedBy start tag)
  | element tag inside rest, start =>
    if tag.name = "class" then do
      let next ← addTo start tag inside
      rest.model next
    else do
      let next ← inside.model (startedBy start tag)
      rest.model next

/-- What the reader makes of the markup. -/
def run (forest : Forest) (reader : Reader) : Except DocumentError Reader :=
  forest.events.foldlM Reader.step reader

/-- What the reader makes of one element. -/
def runElement (tag : Tag) (inside : Forest) (reader : Reader) : Except DocumentError Reader := do
  let opened ← reader.step (.opening tag)
  let filled ← inside.run opened
  filled.step (.closing tag.name)

section

variable (tag : Tag) (inside rest : Forest) (reader : Reader)

theorem run_content : (content rest).run reader = rest.run reader := by
  cases reader <;> rfl

theorem run_selfClosing :
    (selfClosing tag rest).run reader = reader.step (.selfClosing tag) >>= rest.run := by
  rw [run, events, List.foldlM_cons]
  rfl

theorem run_element :
    (element tag inside rest).run reader = runElement tag inside reader >>= rest.run := by
  rw [run, events, List.foldlM_cons, runElement, bind_assoc]
  congr 1
  funext opened
  rw [List.foldlM_append, bind_assoc]
  rfl

end

variable {started : ClassModel} {current : ManagedClass} {method : Method} {depth : Nat}

/-- Nothing counts inside an element of a method. -/
theorem run_inMethod_succ (forest : Forest) :
    forest.run (.inMethod started current method (depth + 1)) =
      .ok (.inMethod started current method (depth + 1)) := by
  induction forest generalizing depth with
  | nil => rfl
  | content rest inductionHypothesis => rw [run_content, inductionHypothesis]
  | selfClosing tag rest inductionHypothesis =>
    rw [run_selfClosing]
    exact inductionHypothesis
  | element tag inside rest insideHypothesis restHypothesis =>
    have kept : runElement tag inside (.inMethod started current method (depth + 1)) =
        .ok (.inMethod started current method (depth + 1)) := by
      change (inside.run (.inMethod started current method (depth + 1 + 1)) >>= _) = _
      rw [insideHypothesis]
      rfl
    rw [run_element, kept, except_ok_bind, restHypothesis]

theorem runElement_inMethod (tag : Tag) (inside : Forest) :
    runElement tag inside (.inMethod started current method 0) =
      (parameterOf method 0 tag).map (.inMethod started current · 0) := by
  change (parameterOf method 0 tag >>= fun longer =>
    .ok (Reader.inMethod started current longer 1)) >>= _ = _
  cases parameterOf method 0 tag with
  | error error => rfl
  | ok longer =>
    rw [except_ok_bind, except_ok_bind, run_inMethod_succ]
    rfl

/-- Inside a method the reader collects its parameters. -/
theorem run_inMethod (forest : Forest) :
    forest.run (.inMethod started current method 0) =
      (forest.parameters method).map (.inMethod started current · 0) := by
  induction forest generalizing method with
  | nil => rfl
  | content rest inductionHypothesis => rw [run_content, inductionHypothesis, parameters]
  | selfClosing tag rest inductionHypothesis =>
    have stepped : (Reader.inMethod started current method 0).step (.selfClosing tag) =
        (parameterOf method 0 tag).map (.inMethod started current · 0) := by
      change (parameterOf method 0 tag >>= fun longer =>
        .ok (Reader.inMethod started current longer 0)) = _
      cases parameterOf method 0 tag <;> rfl
    rw [run_selfClosing, stepped, parameters]
    cases parameterOf method 0 tag with
    | error error => rfl
    | ok longer => exact inductionHypothesis
  | element tag inside rest _ inductionHypothesis =>
    rw [run_element, runElement_inMethod, parameters]
    cases parameterOf method 0 tag with
    | error error => rfl
    | ok longer => exact inductionHypothesis

/-- Nothing counts inside an element of a class that is no method. -/
theorem run_inClass_succ (forest : Forest) :
    forest.run (.inClass started current (depth + 1)) =
      .ok (.inClass started current (depth + 1)) := by
  induction forest generalizing depth with
  | nil => rfl
  | content rest inductionHypothesis => rw [run_content, inductionHypothesis]
  | selfClosing tag rest inductionHypothesis =>
    rw [run_selfClosing]
    exact inductionHypothesis
  | element tag inside rest insideHypothesis restHypothesis =>
    have kept : runElement tag inside (.inClass started current (depth + 1)) =
        .ok (.inClass started current (depth + 1)) := by
      change (inside.run (.inClass started current (depth + 1 + 1)) >>= _) = _
      rw [insideHypothesis]
      rfl
    rw [run_element, kept, except_ok_bind, restHypothesis]

theorem step_selfClosing_inClass (tag : Tag) :
    (Reader.inClass started current 0).step (.selfClosing tag) =
      (memberOf current tag nil).map (.inClass started · 0) := by
  simp only [Reader.step, stepInClass, true_and, memberOf]
  split
  · cases readMethod (Attribute.pairs tag.attributes) <;> rfl
  · split
    · cases fieldOf current tag <;> rfl
    · rfl

theorem runElement_inClass (tag : Tag) (inside : Forest) :
    runElement tag inside (.inClass started current 0) =
      (memberOf current tag inside).map (.inClass started · 0) := by
  simp only [runElement, Reader.step, stepInClass, true_and, memberOf]
  split
  · cases readMethod (Attribute.pairs tag.attributes) with
    | error error => rfl
    | ok method =>
      change (inside.run (.inMethod started current method 0) >>= _) =
        (inside.parameters method >>= fun complete => .ok (addMethod current complete)).map _
      rw [run_inMethod]
      cases inside.parameters method <;> rfl
  · split
    · cases fieldOf current tag with
      | error error => rfl
      | ok longer =>
        change (inside.run (.inClass started longer (0 + 1)) >>= _) = _
        rw [run_inClass_succ]
        rfl
    · rw [except_ok_bind, run_inClass_succ]
      rfl

/-- Inside a class the reader collects its members. -/
theorem run_inClass (forest : Forest) :
    forest.run (.inClass started current 0) =
      (forest.members current).map (.inClass started · 0) := by
  induction forest generalizing current with
  | nil => rfl
  | content rest inductionHypothesis => rw [run_content, inductionHypothesis, members]
  | selfClosing tag rest inductionHypothesis =>
    rw [run_selfClosing, step_selfClosing_inClass, members]
    cases memberOf current tag nil with
    | error error => rfl
    | ok longer => exact inductionHypothesis
  | element tag inside rest _ inductionHypothesis =>
    rw [run_element, runElement_inClass, members]
    cases memberOf current tag inside with
    | error error => rfl
    | ok longer => exact inductionHypothesis

variable {start : Option ClassModel}

theorem addClass_eq (started : ClassModel) (declared : ManagedClass) :
    addClass started declared =
      ((started.add declared).mapError DocumentError.duplicate).map fun next =>
        .outside (some next) := by
  unfold addClass
  cases started.add declared <;> rfl

theorem step_selfClosing_class {tag : Tag} (isClass : tag.name = "class") :
    (Reader.outside start).step (.selfClosing tag) = (addTo start tag nil).map .outside := by
  have other : tag.name ≠ "model" := by rw [isClass]; decide
  simp only [Reader.step, stepOutside, if_neg other, if_pos isClass, addTo, declaredBy]
  cases start with
  | none => rfl
  | some started =>
    simp only [classOf]
    cases readClass (Attribute.pairs tag.attributes) with
    | error error => rfl
    | ok header =>
      change addClass started header = _
      rw [addClass_eq]
      change _ = ((started.add header).mapError DocumentError.duplicate >>= fun next =>
        .ok (some next)).map _
      cases (started.add header).mapError DocumentError.duplicate <;> rfl

theorem runElement_class {tag : Tag} (isClass : tag.name = "class") (inside : Forest) :
    runElement tag inside (.outside start) = (addTo start tag inside).map .outside := by
  have other : tag.name ≠ "model" := by rw [isClass]; decide
  simp only [runElement, Reader.step, stepOutside, if_neg other, if_pos isClass, addTo, declaredBy]
  cases start with
  | none => rfl
  | some started =>
    simp only [classOf]
    cases readClass (Attribute.pairs tag.attributes) with
    | error error => rfl
    | ok header =>
      change (inside.run (.inClass started header 0) >>= fun filled =>
          filled.step (.closing tag.name)) =
        (inside.members header >>= fun declared =>
          (started.add declared).mapError DocumentError.duplicate >>= fun next =>
            .ok (some next)).map _
      rw [run_inClass]
      cases inside.members header with
      | error error => rfl
      | ok declared =>
        change addClass started declared = _
        rw [addClass_eq, except_ok_bind]
        cases (started.add declared).mapError DocumentError.duplicate <;> rfl

theorem step_outside_of_not_class {tag : Tag} (other : tag.name ≠ "class") :
    (Reader.outside start).step (.selfClosing tag) = .ok (.outside (startedBy start tag)) ∧
      (Reader.outside start).step (.opening tag) = .ok (.outside (startedBy start tag)) := by
  simp only [Reader.step, stepOutside, if_neg other, startedBy]
  split <;> exact ⟨rfl, rfl⟩

/-- Outside of classes the reader collects the model. -/
theorem run_outside (forest : Forest) :
    forest.run (.outside start) = (forest.model start).map .outside := by
  induction forest generalizing start with
  | nil => rfl
  | content rest inductionHypothesis => rw [run_content, inductionHypothesis, model]
  | selfClosing tag rest inductionHypothesis =>
    rw [run_selfClosing, model]
    by_cases isClass : tag.name = "class"
    · rw [step_selfClosing_class isClass, if_pos isClass]
      cases addTo start tag nil with
      | error error => rfl
      | ok next => exact inductionHypothesis
    · rw [(step_outside_of_not_class isClass).1, if_neg isClass, except_ok_bind,
        inductionHypothesis]
  | element tag inside rest insideHypothesis restHypothesis =>
    rw [run_element, model]
    by_cases isClass : tag.name = "class"
    · rw [runElement_class isClass, if_pos isClass]
      cases addTo start tag inside with
      | error error => rfl
      | ok next => exact restHypothesis
    · rw [runElement, (step_outside_of_not_class isClass).2, if_neg isClass, except_ok_bind,
        insideHypothesis]
      cases inside.model (startedBy start tag) with
      | error error => rfl
      | ok next => exact restHypothesis

/-- The model that a well-formed document describes. -/
def read (forest : Forest) : Except DocumentError ClassModel := do
  match ← forest.model none with
  | none => .error (.layout .noModel)
  | some started => .ok started

end Forest

/-- A well-formed document is read element by element. -/
theorem read_eq_of_forest {text : String} {forest : Forest}
    (wellFormed : scan text.toList = ⟨forest.events, none⟩) :
    Document.read text = forest.read := by
  rw [Document.read, readScan, wellFormed]
  change (forest.run (.outside none) >>= Reader.finish) = forest.read
  rw [Forest.run_outside, Forest.read]
  cases forest.model none with
  | error error => rfl
  | ok start => cases start <;> rfl

end NativePeer.Document
