import NativePeer.Peer.Binding
import NativePeer.Proofs.Computation

/-
This file says what the binding of parameters, methods and classes consists of.
-/

namespace NativePeer.Peer

variable {model : ClassModel} {configuration : Configuration}

theorem bindParameters_cons_eq_ok {table : SymbolTable} {parameter : Parameter}
    {parameters : List Parameter} {bound : List BoundParameter} :
    bindParameters model table (parameter :: parameters) = .ok bound ↔
      ∃ type next others, NativeType.ofType model parameter.type = .ok type ∧
        table.claim (SymbolRole.member.mangle parameter.name) parameter.name = .ok next ∧
        bindParameters model next parameters = .ok others ∧
        bound = ⟨type, SymbolRole.member.mangle parameter.name⟩ :: others := by
  simp only [bindParameters, except_bind_eq_ok, pure, Except.pure, Except.ok.injEq]
  constructor
  · intro parts
    obtain ⟨type, native, next, claimed, others, rest, same⟩ := parts
    exact ⟨type, next, others, native, claimed, rest, same.symm⟩
  · intro parts
    obtain ⟨type, next, others, native, claimed, rest, same⟩ := parts
    exact ⟨type, native, next, claimed, others, rest, same.symm⟩

theorem bindMethod_eq_ok {className baseName symbol : String} {method : Method}
    {bound : BoundMethod} :
    bindMethod model className baseName symbol method = .ok bound ↔
      ∃ parameters returns,
        bindParameters model (bodyTable className baseName method.name) method.parameters =
          .ok parameters ∧
        NativeType.ofType model method.returns = .ok returns ∧
        bound = { method, symbol, returns, parameters } := by
  simp only [bindMethod, except_bind_eq_ok, pure, Except.pure, Except.ok.injEq]
  constructor
  · intro parts
    obtain ⟨parameters, parametersBound, returns, native, same⟩ := parts
    exact ⟨parameters, returns, parametersBound, native, same.symm⟩
  · intro parts
    obtain ⟨parameters, returns, parametersBound, native, same⟩ := parts
    exact ⟨parameters, parametersBound, returns, native, same.symm⟩

variable {className baseName : String} {methods : List Method}

/-- The events of a method do not change what becomes of it. -/
theorem result_bindMethods_cons {table : SymbolTable} {method : Method} {rest : List Method} :
    (bindMethods model configuration className baseName methods table (method :: rest)).result =
      (do
        let disambiguated := isDisambiguated configuration methods method
        let next ← table.claim (symbolOf disambiguated method) (ownerOf disambiguated method)
        let bound ← bindMethod model className baseName (symbolOf disambiguated method) method
        let others ←
          (bindMethods model configuration className baseName methods next rest).result
        return bound :: others) := by
  rw [bindMethods]
  dsimp only
  split <;> simp <;> rfl

theorem result_bind (declared : ManagedClass) :
    (Peer.bind model configuration declared).result =
      if declared.isTagged then do
        let baseName := baseNameOf declared
        let home ← homeOf configuration declared
        let methods ← (bindMethods model configuration declared.qualifiedName baseName
          declared.taggedMethods (memberTable declared.qualifiedName baseName)
          declared.taggedMethods).result
        let constants ← constantsOf model configuration declared
        return { className := declared.qualifiedName, baseName, home, constants, methods }
      else .error (.defect (.untaggedClass declared.qualifiedName)) := by
  rw [Peer.bind]
  dsimp only
  cases declared.isTagged <;> simp <;> rfl

/-- A bound class is tagged, and its parts are bound one after another. -/
theorem bind_eq_ok {declared : ManagedClass} {peer : Peer} :
    (Peer.bind model configuration declared).result = .ok peer ↔
      declared.isTagged = true ∧ ∃ home methods constants,
        homeOf configuration declared = .ok home ∧
        (bindMethods model configuration declared.qualifiedName (baseNameOf declared)
          declared.taggedMethods (memberTable declared.qualifiedName (baseNameOf declared))
          declared.taggedMethods).result = .ok methods ∧
        constantsOf model configuration declared = .ok constants ∧
        peer = { className := declared.qualifiedName, baseName := baseNameOf declared, home,
                 constants, methods } := by
  rw [result_bind]
  cases declared.isTagged with
  | false => simp
  | true =>
    simp only [if_true, except_bind_eq_ok, pure, Except.pure, Except.ok.injEq, true_and]
    constructor
    · intro parts
      obtain ⟨home, homeFound, methods, methodsBound, constants, constantsBound, same⟩ := parts
      exact ⟨home, methods, constants, homeFound, methodsBound, constantsBound, same.symm⟩
    · intro parts
      obtain ⟨home, methods, constants, homeFound, methodsBound, constantsBound, same⟩ := parts
      exact ⟨home, homeFound, methods, methodsBound, constants, constantsBound, same.symm⟩

end NativePeer.Peer
