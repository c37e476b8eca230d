import NativePeer.Proofs.Model.Line
import NativePeer.Proofs.Model.Validation
import NativePeer.Proofs.Native.Identifier
import Mathlib.Logic.Relation

/-
This file shows that the check of a model finds exactly the consistent ones, and that an error of
the check tells what is wrong.
-/

namespace NativePeer

/-- A type mentions a class itself or through its elements. -/
inductive ManagedType.Mentions : ManagedType → String → Prop where
  | reference (name : String) : Mentions (.reference name) name
  | element {element : ManagedType} {name : String} (dimension : Nat)
    (inside : Mentions element name) : Mentions (.array element dimension) name

/-- A class mentions another in a field, in a parameter or in a result. -/
inductive ManagedClass.Mentions (declared : ManagedClass) (name : String) : Prop where
  | field (field : Field) (owned : field ∈ declared.fields) (inside : field.type.Mentions name)
  | parameter (method : Method) (owned : method ∈ declared.methods) (parameter : Parameter)
    (given : parameter ∈ method.parameters) (inside : parameter.type.Mentions name)
  | result (method : Method) (owned : method ∈ declared.methods)
    (inside : method.returns.Mentions name)

theorem ManagedType.mentions_iff {used : ManagedType} {name : String} :
    used.Mentions name ↔ used.referencedClass? = some name := by
  constructor
  · intro mentioned
    induction mentioned with
    | reference name => rfl
    | element dimension inside inductionHypothesis => exact inductionHypothesis
  · intro found
    induction used with
    | reference className =>
      cases found
      exact .reference _
    | array element dimension inductionHypothesis =>
      exact .element dimension (inductionHypothesis found)
    | void => cases found
    | primitive => cases found
    | string => cases found

theorem ManagedClass.mentions_iff {declared : ManagedClass} {name : String} :
    declared.Mentions name ↔
      ∃ used ∈ declared.usedTypes, used.referencedClass? = some name := by
  simp only [← ManagedType.mentions_iff, usedTypes, List.mem_append, List.mem_map,
    List.mem_flatMap, List.mem_cons]
  constructor
  · intro mentioned
    cases mentioned with
    | field field owned inside => exact ⟨_, .inl ⟨field, owned, rfl⟩, inside⟩
    | parameter method owned parameter given inside =>
      exact ⟨_, .inr ⟨method, owned, .inr ⟨parameter, given, rfl⟩⟩, inside⟩
    | result method owned inside => exact ⟨_, .inr ⟨method, owned, .inl rfl⟩, inside⟩
  · rintro ⟨_, ⟨field, owned, rfl⟩ | ⟨method, owned, rfl | ⟨parameter, given, rfl⟩⟩, inside⟩
    · exact .field field owned inside
    · exact .result method owned inside
    · exact .parameter method owned parameter given inside

theorem ManagedType.primitive?_eq_some {used : ManagedType} {kind : Primitive} :
    used.primitive? = some kind ↔ used = .primitive kind := by
  cases used <;> simp [primitive?]

namespace ClassModel

/-- A class of the model with the one name has a parent with the other. -/
def Extends (model : ClassModel) (child parent : String) : Prop :=
  ∃ declared ∈ model.classes, declared.qualifiedName = child ∧ declared.parent = some parent

/-- Every parent is in the model, and no class is among its own ancestors. -/
structure IsForest (model : ClassModel) : Prop where
  closed : ∀ child parent, model.Extends child parent → parent ∈ model.names
  acyclic : ∀ name, ¬ Relation.TransGen model.Extends name name

/-- Every class has a root, no type leads out of the model, and namespaces and constants are in
order. -/
structure IsConsistent (model : ClassModel) : Prop where
  rooted : ∀ declared ∈ model.classes, ∃ chain root, model.IsLine declared chain root ∧
    root.parent = none
  known : ∀ declared ∈ model.classes, ∀ name, declared.Mentions name → name ∈ model.names
  homes : ∀ declared ∈ model.classes, ∀ home, declared.home = some home →
    ∀ segment ∈ home.segments, IsIdentifier segment
  constants : ∀ declared ∈ model.classes, ∀ field ∈ declared.fields, ∀ value,
    field.constant = some value →
      field.isStatic = true ∧ field.isFinal = true ∧ field.type = .primitive value.kind

/-- The errors that tell of something wrong with a model. -/
inductive IsViolation (model : ClassModel) : ModelError → Prop where
  | unknownParent (child name : String) (above : model.Extends child name)
    (absent : name ∉ model.names) : IsViolation model (.unknownClass name)
  | unknownType (declared : ManagedClass) (member : declared ∈ model.classes) (name : String)
    (mentioned : declared.Mentions name) (absent : name ∉ model.names) :
    IsViolation model (.unknownClass name)
  | circular (path : List String) (again : String)
    (links : (path ++ [again]).IsChain model.Extends) (earlier : again ∈ path) :
    IsViolation model (.circularInheritance (path ++ [again]))
  | home (declared : ManagedClass) (member : declared ∈ model.classes) (home : Namespace)
    (given : declared.home = some home) (segment : String) (part : segment ∈ home.segments)
    (broken : ¬ IsIdentifier segment) :
    IsViolation model (.invalidNamespace declared.qualifiedName home.dotted)
  | notStaticFinal (declared : ManagedClass) (member : declared ∈ model.classes) (field : Field)
    (owned : field ∈ declared.fields) (value : Constant) (given : field.constant = some value)
    (fault : field.isStatic = false ∨ field.isFinal = false) :
    IsViolation model (.invalidConstant declared.qualifiedName field.name .notStaticFinal)
  | otherKind (declared : ManagedClass) (member : declared ∈ model.classes) (field : Field)
    (owned : field ∈ declared.fields) (value : Constant) (given : field.constant = some value)
    (fault : field.type ≠ .primitive value.kind) :
    IsViolation model
      (.invalidConstant declared.qualifiedName field.name (.otherKind value.kind))

variable {model : ClassModel} {declared last : ManagedClass} {chain : List ManagedClass}

/-- A chain that comes back to one of its names closes a cycle. -/
theorem transGen_of_isChain {relation : String → String → Prop} {names : List String}
    {again : String} (links : (names ++ [again]).IsChain relation) (earlier : again ∈ names) :
    Relation.TransGen relation again again := by
  obtain ⟨before, after, rfl⟩ := List.append_of_mem earlier
  rw [List.append_assoc] at links
  have closing : (again :: (after ++ [again])).IsChain relation := links.right_of_append
  have reached : ∀ name ∈ after ++ [again], Relation.TransGen relation again name := by
    apply closing.tail.induction
    · exact fun _ _ step reached => reached.tail step
    · exact fun filled => .single (closing.rel_head? (List.head_mem_head? filled))
  exact reached again (List.mem_append_right _ (List.mem_singleton.mpr rfl))

namespace IsLine

variable (line : model.IsLine declared chain last)

include line

theorem mem_classes (member : declared ∈ model.classes) :
    ∀ other ∈ chain, other ∈ model.classes :=
  line.induction member fun _ _ found _ => parentOf_mem found

theorem last_mem (member : declared ∈ model.classes) : last ∈ model.classes :=
  line.mem_classes member last (List.mem_of_getLast? line.ends)

/-- The names of a line and the parent of its last class are a chain in the model. -/
theorem isChain_extends (member : declared ∈ model.classes) {name : String}
    (above : last.parent = some name) :
    (chain.map ManagedClass.qualifiedName ++ [name]).IsChain model.Extends := by
  have known := line.mem_classes member
  have linked : chain.IsChain fun child parent =>
      model.Extends child.qualifiedName parent.qualifiedName :=
    line.links.imp_of_mem_imp fun child _ childMember _ found =>
      ⟨child, known child childMember, rfl, (parentOf_eq_some.mp found).2⟩
  rw [List.isChain_append]
  refine ⟨(List.isChain_map _).mpr linked, List.isChain_singleton name, ?_⟩
  intro ending found parent only
  rw [List.getLast?_map, line.ends] at found
  cases found
  cases only
  exact ⟨last, line.last_mem member, rfl, above⟩

end IsLine

/-- A name belongs to one class. -/
theorem eq_of_name_eq {first second : ManagedClass} (firstMember : first ∈ model.classes)
    (secondMember : second ∈ model.classes)
    (same : first.qualifiedName = second.qualifiedName) : first = second :=
  List.inj_on_of_nodup_map model.distinct firstMember secondMember same

theorem extends_iff (member : declared ∈ model.classes) {above : String} :
    model.Extends declared.qualifiedName above ↔ declared.parent = some above := by
  constructor
  · rintro ⟨other, otherMember, same, stands⟩
    rwa [← eq_of_name_eq otherMember member same]
  · exact fun stands => ⟨declared, member, rfl, stands⟩

/-- A name leads to one class, which has one parent. -/
theorem extends_rightUnique (model : ClassModel) : Relator.RightUnique model.Extends := by
  rintro _ first second ⟨declared, member, rfl, above⟩ other
  exact Option.some.inj (above.symm.trans ((extends_iff member).mp other))

/-- The parent of a name on a cycle is on the cycle. -/
theorem onCycle_of_extends {name above : String} (cycle : Relation.TransGen model.Extends name name)
    (step : model.Extends name above) : Relation.TransGen model.Extends above above := by
  obtain ⟨next, first, back⟩ := Relation.TransGen.head'_iff.mp cycle
  obtain rfl := model.extends_rightUnique first step
  exact .tail' back step

theorem not_onCycle_of_root {root : ManagedClass} (member : root ∈ model.classes)
    (parentless : root.parent = none) :
    ¬ Relation.TransGen model.Extends root.qualifiedName root.qualifiedName := by
  intro cycle
  obtain ⟨_, step, _⟩ := Relation.TransGen.head'_iff.mp cycle
  cases parentless.symm.trans ((extends_iff member).mp step)

/-- Every class has a root exactly when the parents are in the model and form no cycle. -/
theorem rooted_iff :
    (∀ declared ∈ model.classes, ∃ chain root, model.IsLine declared chain root ∧
      root.parent = none) ↔ model.IsForest := by
  constructor
  · intro rooted
    constructor
    · rintro _ parent ⟨declared, member, rfl, above⟩
      by_contra absent
      obtain ⟨chain, root, line, parentless⟩ := rooted declared member
      have succeeded := ancestry_eq_iff.mpr ⟨chain, root, line, .root parentless⟩
      have failed := ancestry_eq_iff.mpr
        ⟨[declared], declared, .start model declared, .unknown parent above absent⟩
      cases succeeded.symm.trans failed
    · intro name cycle
      obtain ⟨_, ⟨declared, member, rfl, _⟩, _⟩ := Relation.TransGen.head'_iff.mp cycle
      obtain ⟨chain, root, line, parentless⟩ := rooted declared member
      -- The cycle would go on along the whole line, but a root has no parent.
      have turning : ∀ other ∈ chain, other ∈ model.classes ∧
          Relation.TransGen model.Extends other.qualifiedName other.qualifiedName := by
        refine line.induction ⟨member, cycle⟩ ?_
        rintro child parent found ⟨childMember, childCycle⟩
        obtain ⟨parentMember, above⟩ := parentOf_eq_some.mp found
        exact ⟨parentMember, onCycle_of_extends childCycle ((extends_iff childMember).mpr above)⟩
      obtain ⟨rootMember, rootCycle⟩ := turning root (List.mem_of_getLast? line.ends)
      exact not_onCycle_of_root rootMember parentless rootCycle
  · intro forest declared member
    obtain ⟨chain, last, line, stops⟩ := ancestry_eq_iff.mp (Eq.refl (model.ancestry declared))
    generalize model.ancestry declared = result at stops
    cases stops with
    | root parentless => exact ⟨chain, last, line, parentless⟩
    | unknown name above absent =>
      exact absurd (forest.closed _ name ⟨last, line.last_mem member, rfl, above⟩) absent
    | circular name above known again =>
      exact absurd (transGen_of_isChain (line.isChain_extends member above) again)
        (forest.acyclic name)

/-- The check of a class looks for what makes a model consistent. -/
theorem checked_iff :
    (∀ declared ∈ model.classes, model.Checked declared) ↔ model.IsConsistent := by
  have constant (field : Field) (value : Constant) :
      field.isStaticFinal = true ∧ field.type.primitive? = some value.kind ↔
        field.isStatic = true ∧ field.isFinal = true ∧ field.type = .primitive value.kind := by
    rw [Field.isStaticFinal, Bool.and_eq_true, and_assoc, ManagedType.primitive?_eq_some]
  constructor
  · intro checked
    constructor
    · intro declared member
      obtain ⟨chain, walked⟩ := (checked declared member).rooted
      exact ⟨chain, ancestry_eq_ok.mp walked⟩
    · intro declared member name mentioned
      obtain ⟨used, listed, found⟩ := ManagedClass.mentions_iff.mp mentioned
      exact (checked declared member).known used listed name found
    · exact fun declared member home given =>
        isValid_iff.mp ((checked declared member).home home given)
    · exact fun declared member field owned value given =>
        (constant field value).mp ((checked declared member).constants field owned value given)
  · intro consistent declared member
    constructor
    · obtain ⟨chain, rooted⟩ := consistent.rooted declared member
      exact ⟨chain, ancestry_eq_ok.mpr rooted⟩
    · exact fun used listed name found =>
        consistent.known declared member name (ManagedClass.mentions_iff.mpr ⟨used, listed, found⟩)
    · exact fun home given => isValid_iff.mpr (consistent.homes declared member home given)
    · exact fun field owned value given =>
        (constant field value).mpr (consistent.constants declared member field owned value given)

theorem IsViolation.of_ancestry (member : declared ∈ model.classes) {error : ModelError}
    (failed : model.ancestry declared = .error error) : model.IsViolation error := by
  obtain ⟨chain, last, line, stops⟩ := ancestry_eq_iff.mp failed
  cases stops with
  | unknown name above absent =>
    exact .unknownParent last.qualifiedName name ⟨last, line.last_mem member, rfl, above⟩ absent
  | circular name above known again =>
    exact .circular _ name (line.isChain_extends member above) again

theorem IsViolation.of_checkType (member : declared ∈ model.classes) {used : ManagedType}
    (listed : used ∈ declared.usedTypes) {error : ModelError}
    (failed : model.checkType used = .error error) : model.IsViolation error := by
  unfold checkType at failed
  split at failed
  · cases failed
  · next name found =>
    split at failed
    · cases failed
    · next unknown =>
      cases failed
      exact .unknownType declared member name (ManagedClass.mentions_iff.mpr ⟨used, listed, found⟩)
        (unknown ∘ isSome_get?.mpr)

theorem IsViolation.of_checkNamespace (member : declared ∈ model.classes) {error : ModelError}
    (failed : checkNamespace declared = .error error) : model.IsViolation error := by
  unfold checkNamespace at failed
  split at failed
  · cases failed
  · next home given =>
    split at failed
    · cases failed
    · next broken =>
      cases failed
      rw [isValid_iff] at broken
      obtain ⟨segment, part, wrong⟩ : ∃ segment ∈ home.segments, ¬ IsIdentifier segment := by
        simpa using broken
      exact .home declared member home given segment part wrong

theorem IsViolation.of_checkConstant (member : declared ∈ model.classes) {field : Field}
    (owned : field ∈ declared.fields) {error : ModelError}
    (failed : checkConstant declared field = .error error) : model.IsViolation error := by
  unfold checkConstant at failed
  split at failed
  · cases failed
  · next value given =>
    split at failed
    · next fault =>
      cases failed
      exact .notStaticFinal declared member field owned value given (Bool.and_eq_false_iff.mp fault)
    · split at failed
      · next fault =>
        cases failed
        refine .otherKind declared member field owned value given ?_
        intro same
        rw [same] at fault
        exact fault rfl
      · cases failed

/-- The check of a model finds exactly the consistent ones: every class has a root, which is to say
that the parents are in the model and form no cycle, and all else that a class needs is there. An
error tells of something that is wrong with the model. -/
theorem validate_consistent (model : ClassModel) :
    (model.validate = .ok () ↔ model.IsConsistent) ∧
      ((∀ declared ∈ model.classes, ∃ chain root, model.IsLine declared chain root ∧
        root.parent = none) ↔ model.IsForest) ∧
      ∀ error, model.validate = .error error → model.IsViolation error := by
  refine ⟨validate_eq_ok.trans checked_iff, rooted_iff, ?_⟩
  intro error failed
  obtain ⟨declared, member, refused⟩ := exists_of_forM_eq_error failed
  simp only [checkClass, except_bind_eq_error] at refused
  rcases refused with walked | ⟨_, _, types | ⟨_, _, home | ⟨_, _, constants⟩⟩⟩
  · exact .of_ancestry member walked
  · obtain ⟨used, listed, unknown⟩ := exists_of_forM_eq_error types
    exact .of_checkType member listed unknown
  · exact .of_checkNamespace member home
  · obtain ⟨field, owned, wrong⟩ := exists_of_forM_eq_error constants
    exact .of_checkConstant member owned wrong

end ClassModel

end NativePeer
