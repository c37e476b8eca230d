import NativePeer.Proofs.Peer.Symbols

/-
This file says what each tagged method of a class is bound to.
-/

namespace NativePeer

theorem map_eq_map_of_forall₂ {A B C : Type} {related : A → B → Prop} {left : A → C} {right : B → C}
    {firsts : List A} {seconds : List B} (pairs : List.Forall₂ related firsts seconds)
    (same : ∀ first second, related first second → left first = right second) :
    firsts.map left = seconds.map right := by
  induction pairs with
  | nil => rfl
  | cons pair _ inductionHypothesis =>
    rw [List.map_cons, List.map_cons, same _ _ pair, inductionHypothesis]

namespace Peer

variable {model : ClassModel} {configuration : Configuration}

/-- What a parameter is bound to. -/
structure BindsParameter (model : ClassModel) (parameter : Parameter) (shown : BoundParameter) :
    Prop where
  type : NativeType.ofType model parameter.type = .ok shown.type
  name : shown.name = SymbolRole.member.mangle parameter.name

/-- What a method is bound to. -/
structure BindsMethod (model : ClassModel) (symbolOf : Method → String) (method : Method)
    (shown : BoundMethod) : Prop where
  method_eq : shown.method = method
  symbol_eq : shown.symbol = symbolOf method
  returns : NativeType.ofType model method.returns = .ok shown.returns
  parameters : List.Forall₂ (BindsParameter model) method.parameters shown.parameters

theorem bindParameters_binds {table : SymbolTable} {parameters : List Parameter}
    {bound : List BoundParameter}
    (succeeded : bindParameters model table parameters = .ok bound) :
    List.Forall₂ (BindsParameter model) parameters bound := by
  induction parameters generalizing table bound with
  | nil =>
    cases succeeded
    exact .nil
  | cons parameter parameters inductionHypothesis =>
    obtain ⟨type, next, others, typed, _, rest, same⟩ := bindParameters_cons_eq_ok.mp succeeded
    rw [same]
    exact .cons ⟨typed, rfl⟩ (inductionHypothesis rest)

theorem bindMethods_binds {className baseName : String} {methods rest : List Method}
    {table : SymbolTable} {bound : List BoundMethod}
    (succeeded : (bindMethods model configuration className baseName methods table rest).result =
      .ok bound) :
    List.Forall₂
      (BindsMethod model fun method =>
        symbolOf (isDisambiguated configuration methods method) method)
      rest bound := by
  induction rest generalizing table bound with
  | nil =>
    cases succeeded
    exact .nil
  | cons method rest inductionHypothesis =>
    simp only [result_bindMethods_cons, except_bind_eq_ok] at succeeded
    obtain ⟨next, _, shown, methodBound, others, restBound, same⟩ := succeeded
    obtain ⟨parameters, returns, parametersBound, typed, shape⟩ := bindMethod_eq_ok.mp methodBound
    cases same
    cases shape
    exact .cons ⟨rfl, rfl, typed, bindParameters_binds parametersBound⟩
      (inductionHypothesis restBound)

/-- The methods of a peer are the tagged methods of its class in their order. -/
theorem bind_binds {declared : ManagedClass} {peer : Peer}
    (bound : (bind model configuration declared).result = .ok peer) :
    peer.className = declared.qualifiedName ∧ peer.baseName = baseNameOf declared ∧
      homeOf configuration declared = .ok peer.home ∧
      constantsOf model configuration declared = .ok peer.constants ∧
      List.Forall₂
        (BindsMethod model fun method =>
          symbolOf (isDisambiguated configuration declared.taggedMethods method) method)
        declared.taggedMethods peer.methods := by
  obtain ⟨_, home, methods, constants, housed, methodsBound, constantsBound, rfl⟩ :=
    bind_eq_ok.mp bound
  exact ⟨rfl, rfl, housed, constantsBound, bindMethods_binds methodsBound⟩

end Peer

end NativePeer
