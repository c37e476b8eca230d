import NativePeer.Model.Validation
import NativePeer.Proofs.Computation

/-
This file says what holds of a model that is found to be consistent.
-/

namespace NativePeer.ClassModel

variable {model : ClassModel} {declared : ManagedClass}

theorem isSome_get? {name : String} : (model.get? name).isSome ↔ name ∈ model.names := by
  rw [Option.isSome_iff_ne_none, Ne, get?_eq_none, Decidable.not_not]

/-- The class that a type names has to be in the model. -/
theorem checkType_eq_ok {used : ManagedType} :
    model.checkType used = .ok () ↔
      ∀ name, used.referencedClass? = some name → name ∈ model.names := by
  unfold checkType
  cases used.referencedClass? with
  | none => simp
  | some name => simp [isSome_get?]

theorem checkNamespace_eq_ok :
    checkNamespace declared = .ok () ↔ ∀ home, declared.home = some home → home.isValid = true := by
  unfold checkNamespace
  cases declared.home with
  | none => simp
  | some home => simp

/-- A constant needs a static final field of its own kind. -/
theorem checkConstant_eq_ok {field : Field} :
    checkConstant declared field = .ok () ↔ ∀ value, field.constant = some value →
      field.isStaticFinal = true ∧ field.type.primitive? = some value.kind := by
  unfold checkConstant
  cases field.constant with
  | none => simp
  | some value =>
    cases field.isStaticFinal <;> by_cases same : field.type.primitive? = some value.kind <;>
      simp [same]

/-- What the check of a class asks for. -/
structure Checked (model : ClassModel) (declared : ManagedClass) : Prop where
  rooted : ∃ chain, model.ancestry declared = .ok chain
  known : ∀ used ∈ declared.usedTypes, ∀ name, used.referencedClass? = some name →
    name ∈ model.names
  home : ∀ home, declared.home = some home → home.isValid = true
  constants : ∀ field ∈ declared.fields, ∀ value, field.constant = some value →
    field.isStaticFinal = true ∧ field.type.primitive? = some value.kind

theorem checkClass_eq_ok : model.checkClass declared = .ok () ↔ model.Checked declared := by
  simp only [checkClass, except_bind_eq_ok]
  constructor
  · intro parts
    obtain ⟨chain, walked, ⟨⟩, known, ⟨⟩, home, constants⟩ := parts
    exact ⟨⟨chain, walked⟩, fun used member => checkType_eq_ok.mp (forM_eq_ok.mp known used member),
      checkNamespace_eq_ok.mp home,
      fun field member => checkConstant_eq_ok.mp (forM_eq_ok.mp constants field member)⟩
  · intro checked
    obtain ⟨chain, walked⟩ := checked.rooted
    refine ⟨chain, walked, (), forM_eq_ok.mpr ?_, (), checkNamespace_eq_ok.mpr checked.home,
      forM_eq_ok.mpr ?_⟩
    · exact fun used member => checkType_eq_ok.mpr (checked.known used member)
    · exact fun field member => checkConstant_eq_ok.mpr (checked.constants field member)

/-- A model is consistent exactly when each of its classes is. -/
theorem validate_eq_ok :
    model.validate = .ok () ↔ ∀ declared ∈ model.classes, model.Checked declared := by
  simp only [validate, forM_eq_ok, checkClass_eq_ok]

/-- In a consistent model any two names can be compared. -/
theorem isSubclassOf_ok (valid : model.validate = .ok ()) (name ancestor : String) :
    ∃ answer, model.isSubclassOf name ancestor = .ok answer := by
  unfold isSubclassOf
  split
  · exact ⟨true, rfl⟩
  · cases found : model.get? name with
    | none => exact ⟨false, rfl⟩
    | some declared =>
      obtain ⟨chain, walked⟩ := (validate_eq_ok.mp valid declared (mem_of_get? found)).rooted
      dsimp only
      rw [walked]
      exact ⟨_, rfl⟩

end NativePeer.ClassModel
