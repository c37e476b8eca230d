import NativePeer.Document.Element
import NativePeer.Proofs.Computation
import NativePeer.Proofs.Type

/-
This file shows that what is read from the attributes of an element is well formed.
-/

namespace NativePeer

/-- A constant is of the type of its field. -/
structure Field.WellFormed (field : Field) : Prop where
  canonical : field.type.IsCanonical
  sameKind : ∀ value, field.constant = some value → field.type.primitive? = some value.kind

structure Parameter.WellFormed (parameter : Parameter) : Prop where
  canonical : parameter.type.IsCanonical
  filled : parameter.type ≠ .void

structure Method.WellFormed (method : Method) : Prop where
  returns : method.returns.IsCanonical
  distinct : (method.parameters.map Parameter.name).Nodup
  parameters : ∀ parameter ∈ method.parameters, parameter.WellFormed

structure ManagedClass.WellFormed (declared : ManagedClass) : Prop where
  named : declared.qualifiedName ≠ ""
  distinct : (declared.fields.map Field.name).Nodup
  fields : ∀ field ∈ declared.fields, field.WellFormed
  methods : ∀ method ∈ declared.methods, method.WellFormed

namespace Document

theorem valid_eq_ok {A : Type} {element key text : String} {value? : Option A} {value : A} :
    valid element key text value? = .ok value ↔ value? = some value := by
  cases value? <;> simp [valid]

theorem required_eq_ok {A : Type} {element key : String} {value? : Option A} {value : A} :
    required element key value? = .ok value ↔ value? = some value := by
  cases value? <;> simp [required]

variable {pairs : List (String × String)}

/-- A class element has a name and no members yet. -/
theorem readClass_wellFormed {declared : ManagedClass} (read : readClass pairs = .ok declared) :
    declared.WellFormed := by
  unfold readClass at read
  simp only [except_bind_eq_ok] at read
  obtain ⟨attributes, _, name, _, rest⟩ := read
  split at rest
  · cases rest
  · next filled =>
    cases rest
    exact ⟨filled, List.nodup_nil, by simp [ManagedClass.named], by simp [ManagedClass.named]⟩

/-- The type of a field attribute is canonical. -/
theorem fieldAttributes_set_type {attributes next : FieldAttributes} {pair : String × String}
    (canonical : ∀ type, attributes.type = some type → type.IsCanonical)
    (set : attributes.set pair = .ok next) : ∀ type, next.type = some type → type.IsCanonical := by
  obtain ⟨key, text⟩ := pair
  unfold FieldAttributes.set at set
  dsimp only at set
  split at set
  · cases set
    exact canonical
  · obtain ⟨type, parsed, same⟩ := except_bind_eq_ok.mp set
    cases same
    rintro _ ⟨⟩
    exact ManagedType.isCanonical_of_parse? (valid_eq_ok.mp parsed)
  · obtain ⟨_, _, same⟩ := except_bind_eq_ok.mp set
    cases same
    exact canonical
  · obtain ⟨_, _, same⟩ := except_bind_eq_ok.mp set
    cases same
    exact canonical
  · cases set
    exact canonical
  · cases set
    exact canonical

/-- A constant is read only for a primitive type. -/
theorem readConstant_kind {type : ManagedType} {text : Option String} {value : Constant}
    (read : readConstant type text = .ok (some value)) : type.primitive? = some value.kind := by
  cases text with
  | none => cases read
  | some text =>
    obtain ⟨found, parsed, same⟩ := except_bind_eq_ok.mp read
    cases same
    obtain ⟨kind, primitive, constant⟩ := Option.bind_eq_some_iff.mp (valid_eq_ok.mp parsed)
    rw [primitive, Constant.kind_of_parse? constant]

theorem readField_wellFormed {field : Field} (read : readField pairs = .ok field) :
    field.WellFormed := by
  unfold readField at read
  simp only [except_bind_eq_ok] at read
  obtain ⟨attributes, folded, name, _, type, typed, constant, constantRead, same⟩ := read
  have canonical := foldlM_invariant
    (fun attributes : FieldAttributes =>
      ∀ type, attributes.type = some type → type.IsCanonical)
    (fun _ _ _ canonical set => fieldAttributes_set_type canonical set) (by simp) folded
  cases same
  refine ⟨canonical type (required_eq_ok.mp typed), ?_⟩
  rintro value rfl
  exact readConstant_kind constantRead

/-- The return type of a method attribute is canonical. -/
theorem methodAttributes_set_returns {attributes next : MethodAttributes}
    {pair : String × String}
    (canonical : ∀ type, attributes.returns = some type → type.IsCanonical)
    (set : attributes.set pair = .ok next) :
    ∀ type, next.returns = some type → type.IsCanonical := by
  obtain ⟨key, text⟩ := pair
  unfold MethodAttributes.set at set
  dsimp only at set
  split at set
  · cases set
    exact canonical
  · obtain ⟨type, parsed, same⟩ := except_bind_eq_ok.mp set
    cases same
    rintro _ ⟨⟩
    exact ManagedType.isCanonical_of_parse? (valid_eq_ok.mp parsed)
  · obtain ⟨_, _, same⟩ := except_bind_eq_ok.mp set
    cases same
    exact canonical
  · obtain ⟨_, _, same⟩ := except_bind_eq_ok.mp set
    cases same
    exact canonical
  · cases set
    exact canonical

theorem readMethod_wellFormed {method : Method} (read : readMethod pairs = .ok method) :
    method.WellFormed := by
  unfold readMethod at read
  simp only [except_bind_eq_ok] at read
  obtain ⟨attributes, folded, name, _, returns, typed, same⟩ := read
  have canonical := foldlM_invariant
    (fun attributes : MethodAttributes =>
      ∀ type, attributes.returns = some type → type.IsCanonical)
    (fun _ _ _ canonical set => methodAttributes_set_returns canonical set) (by simp) folded
  cases same
  exact ⟨canonical returns (required_eq_ok.mp typed), List.nodup_nil, by simp⟩

/-- The type of a parameter attribute is canonical. -/
theorem parameterAttributes_set_type {attributes next : ParameterAttributes}
    {pair : String × String}
    (canonical : ∀ type, attributes.type = some type → type.IsCanonical)
    (set : attributes.set pair = .ok next) : ∀ type, next.type = some type → type.IsCanonical := by
  obtain ⟨key, text⟩ := pair
  unfold ParameterAttributes.set at set
  dsimp only at set
  split at set
  · cases set
    exact canonical
  · obtain ⟨type, parsed, same⟩ := except_bind_eq_ok.mp set
    cases same
    rintro _ ⟨⟩
    exact ManagedType.isCanonical_of_parse? (valid_eq_ok.mp parsed)
  · cases set
    exact canonical

theorem readParameter_wellFormed {parameter : Parameter}
    (read : readParameter pairs = .ok parameter) : parameter.WellFormed := by
  unfold readParameter at read
  simp only [except_bind_eq_ok] at read
  obtain ⟨attributes, folded, name, _, type, typed, rest⟩ := read
  have canonical := foldlM_invariant
    (fun attributes : ParameterAttributes =>
      ∀ type, attributes.type = some type → type.IsCanonical)
    (fun _ _ _ canonical set => parameterAttributes_set_type canonical set) (by simp) folded
  split at rest
  · cases rest
  · next filled =>
    cases rest
    exact ⟨canonical type (required_eq_ok.mp typed), filled⟩

end Document

end NativePeer
