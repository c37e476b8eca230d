import NativePeer.Proofs.Peer.Binding
import NativePeer.Proofs.Type

/-
This file says why a tagged class may have no peer.
-/

namespace NativePeer

/-- The types of a signature with the return type first. -/
def Method.usedTypes (method : Method) : List ManagedType :=
  method.returns :: method.parameters.map Parameter.type

/-- Two owners claim one symbol. -/
def GenerationError.IsCollision (error : GenerationError) : Prop :=
  ∃ scope symbol first second, error = .collision scope symbol first second

theorem SymbolTable.isCollision_of_claim {table : SymbolTable} {symbol owner : String}
    {error : GenerationError} (failed : table.claim symbol owner = .error error) :
    error.IsCollision := by
  unfold claim at failed
  split at failed
  · cases failed
  · split at failed
    · cases failed
    · cases failed
      exact ⟨_, _, _, _, rfl⟩

variable {model : ClassModel} {configuration : Configuration} {error : GenerationError}

namespace NativeType

theorem ofClass_eq_error {className : String} (failed : ofClass model className = .error error) :
    ∃ cause, error = .model cause := by
  unfold ofClass at failed
  split at failed
  · cases failed
    exact ⟨_, rfl⟩
  · split at failed <;> cases failed
    · exact ⟨_, rfl⟩
    · exact ⟨_, rfl⟩

theorem ofArray_eq_error {element : ManagedType} {dimension : Nat}
    (failed : ofArray model element dimension = .error error) :
    (∃ cause, error = .model cause) ∨
      ((ManagedType.array element dimension).isRegular = false ∧
        ∃ cause, error = .defect cause) := by
  unfold ofArray at failed
  split at failed
  · next zero =>
    cases failed
    exact .inr ⟨by simp [ManagedType.isRegular, zero], _, rfl⟩
  · cases element with
    | void =>
      cases failed
      exact .inr ⟨by simp [ManagedType.isRegular, ManagedType.isElement], _, rfl⟩
    | array inner more =>
      cases failed
      exact .inr ⟨by simp [ManagedType.isRegular, ManagedType.isElement], _, rfl⟩
    | primitive kind => cases failed
    | string => cases failed
    | reference className =>
      dsimp only at failed
      split at failed <;> cases failed
      exact .inl ⟨_, rfl⟩

/-- Only an array without dimensions or without elements of its own is a defect. -/
theorem ofType_eq_error {type : ManagedType} (failed : ofType model type = .error error) :
    (∃ cause, error = .model cause) ∨
      (type.isRegular = false ∧ ∃ cause, error = .defect cause) := by
  cases type with
  | void => cases failed
  | primitive kind => cases failed
  | string => cases failed
  | reference className => exact .inl (ofClass_eq_error failed)
  | array element dimension => exact ofArray_eq_error failed

end NativeType

namespace Peer

theorem bindParameters_eq_error {table : SymbolTable} {parameters : List Parameter}
    (failed : bindParameters model table parameters = .error error) :
    error.IsCollision ∨
      ∃ type ∈ parameters.map Parameter.type, NativeType.ofType model type = .error error := by
  induction parameters generalizing table with
  | nil => cases failed
  | cons parameter parameters inductionHypothesis =>
    rw [bindParameters, except_bind_eq_error] at failed
    rcases failed with untyped | ⟨type, _, failed⟩
    · exact .inr ⟨parameter.type, by simp, untyped⟩
    · dsimp only at failed
      rcases except_bind_eq_error.mp failed with claimed | ⟨next, _, failed⟩
      · exact .inl (SymbolTable.isCollision_of_claim claimed)
      · rcases except_bind_eq_error.mp failed with rest | ⟨_, _, failed⟩
        · rcases inductionHypothesis rest with collision | ⟨type, member, untyped⟩
          · exact .inl collision
          · exact .inr ⟨type, by simp [List.mem_map.mp member], untyped⟩
        · cases failed

theorem bindMethod_eq_error {className baseName symbol : String} {method : Method}
    (failed : bindMethod model className baseName symbol method = .error error) :
    error.IsCollision ∨
      ∃ type ∈ method.usedTypes, NativeType.ofType model type = .error error := by
  rw [bindMethod, except_bind_eq_error] at failed
  rcases failed with failed | ⟨parameters, _, failed⟩
  · rcases bindParameters_eq_error failed with collision | ⟨type, member, untyped⟩
    · exact .inl collision
    · exact .inr ⟨type, List.mem_cons_of_mem _ member, untyped⟩
  · rcases except_bind_eq_error.mp failed with untyped | ⟨_, _, failed⟩
    · exact .inr ⟨method.returns, List.mem_cons_self, untyped⟩
    · cases failed

theorem bindMethods_eq_error {className baseName : String} {methods rest : List Method}
    {table : SymbolTable}
    (failed : (bindMethods model configuration className baseName methods table rest).result =
      .error error) :
    error.IsCollision ∨
      ∃ method ∈ rest, ∃ type ∈ method.usedTypes, NativeType.ofType model type = .error error := by
  induction rest generalizing table with
  | nil => cases failed
  | cons method rest inductionHypothesis =>
    rw [result_bindMethods_cons] at failed
    dsimp only at failed
    rcases except_bind_eq_error.mp failed with claimed | ⟨next, _, failed⟩
    · exact .inl (SymbolTable.isCollision_of_claim claimed)
    · rcases except_bind_eq_error.mp failed with unbound | ⟨_, _, failed⟩
      · rcases bindMethod_eq_error unbound with collision | untyped
        · exact .inl collision
        · exact .inr ⟨method, List.mem_cons_self, untyped⟩
      · rcases except_bind_eq_error.mp failed with later | ⟨_, _, failed⟩
        · rcases inductionHypothesis later with collision | ⟨other, member, untyped⟩
          · exact .inl collision
          · exact .inr ⟨other, List.mem_cons_of_mem _ member, untyped⟩
        · cases failed

/-- Static final fields are the only ones whose constants are asked for. -/
theorem bindConstants_eq_error {host : Host} {className : String} {table : SymbolTable}
    {fields : List Field}
    (failed : bindConstants host className table fields = .error error) : error.IsCollision := by
  induction fields generalizing table with
  | nil => cases failed
  | cons field fields inductionHypothesis =>
    rw [bindConstants] at failed
    split at failed
    · next staticFinal =>
      rw [MacroDefinition.ofField, if_pos staticFinal] at failed
      rcases except_bind_eq_error.mp failed with impossible | ⟨definition?, _, failed⟩
      · cases impossible
      · cases definition? with
        | none => exact inductionHypothesis failed
        | some definition =>
          rcases except_bind_eq_error.mp failed with claimed | ⟨next, _, failed⟩
          · exact SymbolTable.isCollision_of_claim claimed
          · rcases except_bind_eq_error.mp failed with later | ⟨_, _, failed⟩
            · exact inductionHypothesis later
            · cases failed
    · exact inductionHypothesis failed

theorem constantsOf_eq_error {declared : ManagedClass}
    (failed : constantsOf model configuration declared = .error error) :
    error.IsCollision ∨ ∃ cause, model.ancestry declared = .error cause ∧ error = .model cause := by
  unfold constantsOf at failed
  split at failed
  · unfold ClassModel.flattenFields at failed
    cases walked : model.ancestry declared with
    | error cause =>
      simp only [walked, Except.map] at failed
      cases failed
      exact .inr ⟨cause, rfl, rfl⟩
    | ok chain =>
      simp only [walked, Except.map] at failed
      exact .inl (bindConstants_eq_error failed)
  · cases failed

/-- The ways in which the binding of a tagged class fails. -/
inductive Failure (model : ClassModel) (configuration : Configuration) (declared : ManagedClass) :
    GenerationError → Prop
  | homeless (noOverride : configuration.home = none) (noHome : declared.home = none) :
    Failure model configuration declared (.model (.missingNamespace declared.qualifiedName))
  | untyped {method : Method} {type : ManagedType} {error : GenerationError}
    (member : method ∈ declared.taggedMethods) (used : type ∈ method.usedTypes)
    (failed : NativeType.ofType model type = .error error) :
    Failure model configuration declared error
  | rootless {cause : ModelError} (failed : model.ancestry declared = .error cause) :
    Failure model configuration declared (.model cause)
  | collision {error : GenerationError} (collision : error.IsCollision) :
    Failure model configuration declared error

theorem homeOf_eq_error {declared : ManagedClass}
    (failed : homeOf configuration declared = .error error) :
    Failure model configuration declared error := by
  unfold homeOf at failed
  split at failed
  · cases failed
  · cases failed
  · next noOverride noHome =>
    cases failed
    exact .homeless noOverride noHome

/-- A tagged class without a peer has one of these failures. -/
theorem bind_eq_error {declared : ManagedClass} (tagged : declared.isTagged = true)
    (failed : (bind model configuration declared).result = .error error) :
    Failure model configuration declared error := by
  rw [result_bind, if_pos tagged] at failed
  dsimp only at failed
  rcases except_bind_eq_error.mp failed with homeless | ⟨home, _, failed⟩
  · exact homeOf_eq_error homeless
  · rcases except_bind_eq_error.mp failed with unbound | ⟨methods, _, failed⟩
    · rcases bindMethods_eq_error unbound with collision | ⟨method, member, type, used, untyped⟩
      · exact .collision collision
      · exact .untyped member used untyped
    · rcases except_bind_eq_error.mp failed with unbound | ⟨_, _, failed⟩
      · rcases constantsOf_eq_error unbound with collision | ⟨cause, rootless, rfl⟩
        · exact .collision collision
        · exact .rootless rootless
      · cases failed

end Peer

end NativePeer
