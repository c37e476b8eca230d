import NativePeer.Proofs.Generation.Failure
import NativePeer.Proofs.Model.Validation

/-
This file shows which failures are left to the rendering of a consistent model.
-/

namespace NativePeer

variable {model : ClassModel} {configuration : Configuration} {error : GenerationError}

/-- The signatures of a class are among the types that its check looks at. -/
theorem Method.usedTypes_subset {declared : ManagedClass} {method : Method}
    (member : method ∈ declared.methods) : method.usedTypes ⊆ declared.usedTypes := by
  intro type used
  exact List.mem_append_right _ (List.mem_flatMap.mpr ⟨method, member, used⟩)

namespace NativeType

theorem ofClass_ok (valid : model.validate = .ok ()) {className : String}
    (known : className ∈ model.names) : ∃ native, ofClass model className = .ok native := by
  obtain ⟨declared, found⟩ := Option.isSome_iff_exists.mp (ClassModel.isSome_get?.mpr known)
  obtain ⟨throws, comparedThrowable⟩ := ClassModel.isSubclassOf_ok valid className throwableClass
  obtain ⟨describes, comparedClass⟩ := ClassModel.isSubclassOf_ok valid className classClass
  unfold ofClass
  rw [found, comparedThrowable, comparedClass]
  cases throws <;> cases describes <;> exact ⟨_, rfl⟩

theorem ofArray_of_element {element : ManagedType} {dimension : Nat} (positive : dimension ≠ 0)
    (filled : element.isElement = true)
    (known : ∀ name, element.referencedClass? = some name → name ∈ model.names) :
    ∃ native, ofArray model element dimension = .ok native := by
  unfold ofArray
  rw [if_neg positive]
  cases element with
  | void => cases filled
  | array inner more => cases filled
  | primitive kind => exact ⟨_, rfl⟩
  | string => exact ⟨_, rfl⟩
  | reference className =>
    dsimp only
    rw [if_pos (ClassModel.isSome_get?.mpr (known className rfl))]
    exact ⟨_, rfl⟩

/-- In a consistent model every regular type of known classes has a native type. -/
theorem ofType_of_regular (valid : model.validate = .ok ()) {type : ManagedType}
    (known : ∀ name, type.referencedClass? = some name → name ∈ model.names)
    (regular : type.isRegular = true) : ∃ native, ofType model type = .ok native := by
  cases type with
  | void => exact ⟨.void, rfl⟩
  | primitive kind => exact ⟨.primitive kind, rfl⟩
  | string => exact ⟨.string, rfl⟩
  | reference className => exact ofClass_ok valid (known className rfl)
  | array element dimension =>
    simp only [ManagedType.isRegular, Bool.and_eq_true, decide_eq_true_eq] at regular
    exact ofArray_of_element regular.1 regular.2 known

/-- An irregular type is a defect in any model. -/
theorem ofType_of_irregular (model : ClassModel) {type : ManagedType}
    (irregular : type.isRegular = false) : ∃ cause, ofType model type = .error (.defect cause) := by
  cases type with
  | void => cases irregular
  | primitive kind => cases irregular
  | string => cases irregular
  | reference className => cases irregular
  | array element dimension =>
    change ∃ cause, ofArray model element dimension = _
    unfold ofArray
    split
    · exact ⟨_, rfl⟩
    · next positive =>
      simp only [ManagedType.isRegular, positive, ne_eq, not_false_eq_true, decide_true,
        Bool.true_and] at irregular
      cases element with
      | void => exact ⟨_, rfl⟩
      | array inner more => exact ⟨_, rfl⟩
      | primitive kind => cases irregular
      | string => cases irregular
      | reference className => cases irregular

end NativeType

/-- A class of a consistent model lacks a namespace, or its symbols collide, or it has an irregular
type. -/
theorem Peer.Failure.of_validate {declared : ManagedClass} (valid : model.validate = .ok ())
    (member : declared ∈ model.classes)
    (failure : Failure model configuration declared error) :
    (configuration.home = none ∧ declared.home = none ∧
        error = .model (.missingNamespace declared.qualifiedName)) ∨
      error.IsCollision ∨
      (∃ cause, error = .defect cause) ∧ ∃ method ∈ declared.taggedMethods,
        ∃ type ∈ method.usedTypes, type.isRegular = false := by
  have checked := ClassModel.validate_eq_ok.mp valid declared member
  cases failure with
  | homeless noOverride noHome => exact .inl ⟨noOverride, noHome, rfl⟩
  | collision collision => exact .inr (.inl collision)
  | rootless failed =>
    obtain ⟨chain, walked⟩ := checked.rooted
    cases walked.symm.trans failed
  | @untyped method type _ tagged used failed =>
    have inside := Method.usedTypes_subset (List.mem_of_mem_filter tagged) used
    cases regular : type.isRegular with
    | true =>
      obtain ⟨native, found⟩ :=
        NativeType.ofType_of_regular valid (checked.known type inside) regular
      cases found.symm.trans failed
    | false =>
      obtain ⟨cause, found⟩ := NativeType.ofType_of_irregular model regular
      cases found.symm.trans failed
      exact .inr (.inr ⟨⟨cause, rfl⟩, method, tagged, type, used, regular⟩)

/-- A consistent model is rendered, or a tagged class of it lacks a namespace that the
configuration does not supply, or symbols collide, or a tagged method has an irregular type. -/
theorem render_of_validate (valid : model.validate = .ok ()) (configuration : Configuration) :
    (∃ sources, (model.render configuration).result = .ok sources) ∨
      (∃ declared ∈ model.taggedClasses, configuration.home = none ∧ declared.home = none ∧
        (model.render configuration).result =
          .error (.model (.missingNamespace declared.qualifiedName))) ∨
      (∃ scope symbol first second,
        (model.render configuration).result = .error (.collision scope symbol first second)) ∨
      ∃ cause, (model.render configuration).result = .error (.defect cause) ∧
        ∃ declared ∈ model.taggedClasses, ∃ method ∈ declared.taggedMethods,
          ∃ type ∈ method.usedTypes, type.isRegular = false := by
  cases rendered : (model.render configuration).result with
  | ok sources => exact .inl ⟨sources, rfl⟩
  | error error =>
    refine .inr ?_
    rcases ClassModel.render_eq_error rendered with ⟨cause, invalid, _⟩ | collision |
      ⟨declared, member, failure⟩
    · cases valid.symm.trans invalid
    · obtain ⟨scope, symbol, first, second, rfl⟩ := collision
      exact .inr (.inl ⟨scope, symbol, first, second, rfl⟩)
    · rcases failure.of_validate valid (List.mem_of_mem_filter member) with
        ⟨noOverride, noHome, rfl⟩ | ⟨scope, symbol, first, second, rfl⟩ | ⟨⟨cause, rfl⟩, irregular⟩
      · exact .inl ⟨declared, member, noOverride, noHome, rfl⟩
      · exact .inr (.inl ⟨scope, symbol, first, second, rfl⟩)
      · exact .inr (.inr ⟨cause, rfl, declared, member, irregular⟩)

/-- A consistent model with one method whose array type is nested. -/
def nestedCar : ClassModel where
  classes :=
    [{ ManagedClass.named "a.Car" with
      isTagged := true
      home := Namespace.parse? "N"
      methods :=
        [⟨"join", .reference "a.Car", [⟨"others", .array (.reference "a.Car") 2⟩], false, true⟩,
         ⟨"split", .void, [⟨"parts", .array (.array (.primitive .int) 1) 1⟩], false, true⟩] }]
  distinct := by decide

theorem render_of_validate_nested :
    nestedCar.validate = .ok () ∧
      (∃ cause, (nestedCar.render { outputDirectory := "out" }).result = .error (.defect cause)) ∧
      ∃ declared ∈ nestedCar.taggedClasses, ∃ method ∈ declared.taggedMethods,
        ∃ type ∈ method.usedTypes, type.isRegular = false := by
  have valid : nestedCar.validate = .ok () := by decide +kernel
  have failed : (nestedCar.render { outputDirectory := "out" }).result =
      .error (.defect .nestedArray) := by decide +kernel
  refine ⟨valid, ⟨_, failed⟩, ?_⟩
  rcases render_of_validate valid { outputDirectory := "out" } with
    ⟨sources, rendered⟩ | ⟨_, _, _, _, homeless⟩ | ⟨_, _, _, _, collided⟩ | ⟨_, _, irregular⟩
  · cases failed.symm.trans rendered
  · cases failed.symm.trans homeless
  · cases failed.symm.trans collided
  · exact irregular

end NativePeer
