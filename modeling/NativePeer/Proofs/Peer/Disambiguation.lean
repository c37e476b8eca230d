import Mathlib.Data.List.Nodup
import NativePeer.Proofs.Peer.Constants
import NativePeer.Proofs.Peer.Failure
import NativePeer.Proofs.Peer.Overload
import NativePeer.Proofs.Peer.Symbols

/-
This file shows that the symbols of ordinary classes never collide and tell overloads apart.
-/

namespace NativePeer

open SymbolRole

namespace SymbolTable

variable {table next : SymbolTable} {names : List String} {claims : String → String → Prop}
  {symbol owner : String}

/-- Every symbol of the table is reserved or claimed by its owner. -/
def HoldsOnly (table : SymbolTable) (names : List String) (claims : String → String → Prop) :
    Prop :=
  ∀ symbol owner, table.owner? symbol = some owner → symbol ∈ names ∨ claims symbol owner

theorem holdsOnly_reserved (scope : String) (entries : List (String × String))
    (claims : String → String → Prop) :
    (reserved scope entries).HoldsOnly (entries.map Prod.fst) claims := by
  intro symbol owner present
  obtain ⟨before, after, split, _⟩ := List.lookup_eq_some_iff.mp present
  have listed : (symbol, owner) ∈ entries := by
    change entries = before ++ (symbol, owner) :: after at split
    simp [split]
  exact .inl (List.mem_map_of_mem listed)

/-- A claim adds nothing besides itself. -/
theorem HoldsOnly.claim (holds : table.HoldsOnly names claims)
    (taken : table.claim symbol owner = .ok next) (claimed : claims symbol owner) :
    next.HoldsOnly names claims := by
  unfold SymbolTable.claim at taken
  split at taken
  · cases taken
    intro other first present
    by_cases same : other = symbol
    · have owned : owner = first := by simpa [owner?, same] using present
      exact .inr (same ▸ owned ▸ claimed)
    · have apart : (other == symbol) = false := beq_false_of_ne same
      exact holds other first (by simpa [owner?, List.lookup_cons, apart] using present)
  · split at taken
    · cases taken
      exact holds
    · cases taken

/-- A symbol that is not reserved is refused to no claimant if all who claim it are the same. -/
theorem HoldsOnly.claim_ne_error (holds : table.HoldsOnly names claims) (free : symbol ∉ names)
    (single : ∀ first, claims symbol first → first = owner) {error : GenerationError} :
    table.claim symbol owner ≠ .error error := by
  intro failed
  unfold SymbolTable.claim at failed
  split at failed
  · cases failed
  · next first present =>
    rw [if_pos (single first ((holds symbol first present).resolve_left free))] at failed
    cases failed

end SymbolTable

/-- A name without escapes claims its mangled form. -/
def PlainClaim (symbol owner : String) : Prop :=
  symbol = member.mangle owner ∧ Text.hasEscape owner.toList = false

theorem PlainClaim.eq {name first : String} (plain : Text.hasEscape name.toList = false)
    (claimed : PlainClaim (member.mangle name) first) : first = name :=
  (member_mangle_injective plain claimed.2 claimed.1).symm

variable {model : ClassModel} {configuration : Configuration} {error : GenerationError}

theorem GenerationError.not_isCollision_model (cause : ModelError) :
    ¬ (GenerationError.model cause).IsCollision := by
  rintro ⟨_, _, _, _, same⟩
  cases same

theorem GenerationError.not_isCollision_defect (cause : Defect) :
    ¬ (GenerationError.defect cause).IsCollision := by
  rintro ⟨_, _, _, _, same⟩
  cases same

theorem NativeType.not_isCollision_of_ofType {type : ManagedType}
    (failed : ofType model type = .error error) : ¬ error.IsCollision := by
  rcases ofType_eq_error failed with ⟨cause, rfl⟩ | ⟨_, cause, rfl⟩
  · exact GenerationError.not_isCollision_model cause
  · exact GenerationError.not_isCollision_defect cause

namespace Peer

theorem holdsOnly_memberTable (className baseName : String) (claims : String → String → Prop) :
    (memberTable className baseName).HoldsOnly (baseName :: inheritedMembers) claims := by
  have reserved := SymbolTable.holdsOnly_reserved className
    ((baseName, baseName ++ " constructor") ::
      inheritedMembers.map fun member => (member, peerSuffix ++ "::" ++ member)) claims
  rwa [List.map_cons, List.map_map, Function.comp_def, List.map_id'] at reserved

theorem holdsOnly_bodyTable (className baseName methodName : String)
    (claims : String → String → Prop) :
    (bodyTable className baseName methodName).HoldsOnly (inheritedMembers ++ bodyVariables)
      claims := by
  have reserved := SymbolTable.holdsOnly_reserved (className ++ "." ++ methodName)
    ((inheritedMembers ++ bodyVariables).map fun name =>
      (name, baseName ++ " body '" ++ name ++ "'")) claims
  rwa [List.map_map, Function.comp_def, List.map_id'] at reserved

theorem bindParameters_not_isCollision {table : SymbolTable} {names : List String}
    {parameters : List Parameter} (holds : table.HoldsOnly names PlainClaim)
    (plain : ∀ parameter ∈ parameters, Text.hasEscape parameter.name.toList = false)
    (free : ∀ parameter ∈ parameters, member.mangle parameter.name ∉ names)
    (failed : bindParameters model table parameters = .error error) : ¬ error.IsCollision := by
  induction parameters generalizing table with
  | nil => cases failed
  | cons parameter parameters inductionHypothesis =>
    rw [List.forall_mem_cons] at plain free
    rw [bindParameters, except_bind_eq_error] at failed
    rcases failed with untyped | ⟨type, _, failed⟩
    · exact NativeType.not_isCollision_of_ofType untyped
    · dsimp only at failed
      rcases except_bind_eq_error.mp failed with claimed | ⟨next, taken, failed⟩
      · exact absurd claimed (holds.claim_ne_error free.1 fun _ => PlainClaim.eq plain.1)
      · rcases except_bind_eq_error.mp failed with rest | ⟨_, _, failed⟩
        · exact inductionHypothesis (holds.claim taken ⟨rfl, plain.1⟩) plain.2 free.2 rest
        · cases failed

theorem bindConstants_not_isCollision {host : Host} {className : String} {table : SymbolTable}
    {fields : List Field} (holds : table.HoldsOnly [] PlainClaim)
    (plain : ∀ field ∈ fields, field.isConstant = true → Text.hasEscape field.name.toList = false)
    (failed : bindConstants host className table fields = .error error) :
    ¬ error.IsCollision := by
  induction fields generalizing table with
  | nil => cases failed
  | cons field fields inductionHypothesis =>
    rw [List.forall_mem_cons] at plain
    rw [bindConstants] at failed
    split at failed
    · next staticFinal =>
      rw [MacroDefinition.ofField, if_pos staticFinal] at failed
      rcases except_bind_eq_error.mp failed with impossible | ⟨definition?, found, failed⟩
      · cases impossible
      · cases constant : field.constant with
        | none =>
          rw [constant] at found
          cases found
          exact inductionHypothesis holds plain.2 failed
        | some value =>
          rw [constant] at found
          cases found
          have shown := plain.1 (by simp [Field.isConstant, staticFinal, constant])
          rcases except_bind_eq_error.mp failed with claimed | ⟨next, taken, failed⟩
          · exact absurd claimed
              (holds.claim_ne_error List.not_mem_nil fun _ => PlainClaim.eq shown)
          · rcases except_bind_eq_error.mp failed with later | ⟨_, _, failed⟩
            · exact inductionHypothesis (holds.claim taken ⟨rfl, shown⟩) plain.2 later
            · cases failed
    · exact inductionHypothesis holds plain.2 failed

end Peer

/-- A class whose names need no care: its tagged methods are ordinary and differ in their names or
in the types of their parameters, and its constants have names without escapes. -/
structure ManagedClass.IsOrdinary (model : ClassModel) (declared : ManagedClass) : Prop where
  methods : ∀ method ∈ declared.taggedMethods, method.IsOrdinary (Peer.baseNameOf declared)
  distinct : (declared.taggedMethods.map fun method =>
    (method.name, method.parameters.map Parameter.type)).Nodup
  constants : ∀ fields, model.flattenFields declared = .ok fields → ∀ field ∈ fields,
    field.isConstant = true → Text.hasEscape field.name.toList = false

namespace Peer

/-- A method claims the symbol that tells what the configuration asks for. -/
def MethodClaim (configuration : Configuration) (methods : List Method) (symbol owner : String) :
    Prop :=
  ∃ method ∈ methods, symbol = symbolOf (isDisambiguated configuration methods method) method ∧
    owner = ownerOf (isDisambiguated configuration methods method) method

variable {baseName className : String} {methods : List Method}

theorem MethodClaim.eq {owner : String} {method : Method} (member : method ∈ methods)
    (ordinary : ∀ method ∈ methods, method.IsOrdinary baseName)
    (claimed : MethodClaim configuration methods
      (symbolOf (isDisambiguated configuration methods method) method) owner) :
    owner = ownerOf (isDisambiguated configuration methods method) method := by
  obtain ⟨first, firstMember, sameSymbol, owned⟩ := claimed
  obtain ⟨sameName, sameWay, sameTypes⟩ :=
    (ordinary method member).read_symbolOf (ordinary first firstMember) sameSymbol
  rw [owned, ← sameWay]
  cases shown : isDisambiguated configuration methods method with
  | false => exact sameName.symm
  | true =>
    have sameDescriptor : first.parametersDescriptor = method.parametersDescriptor := by
      rw [← String.toList_inj, Method.toList_parametersDescriptor,
        Method.toList_parametersDescriptor, sameTypes shown]
    simp only [ownerOf, if_true, sameName, sameDescriptor]

theorem bindMethod_not_isCollision {symbol : String} {method : Method}
    (ordinary : method.IsOrdinary baseName)
    (failed : bindMethod model className baseName symbol method = .error error) :
    ¬ error.IsCollision := by
  rw [bindMethod, except_bind_eq_error] at failed
  rcases failed with failed | ⟨parameters, _, failed⟩
  · refine bindParameters_not_isCollision (holdsOnly_bodyTable _ _ _ _) ordinary.plainParameters ?_
      failed
    intro parameter inside listed
    have kept : ∀ name ∈ inheritedMembers ++ bodyVariables,
        Text.hasEscape name.toList = false ∧ member.mangle name = name := by decide
    exact ordinary.freeParameters parameter inside
      (mem_of_mangle_mem kept (ordinary.plainParameters parameter inside) listed)
  · rcases except_bind_eq_error.mp failed with untyped | ⟨_, _, failed⟩
    · exact NativeType.not_isCollision_of_ofType untyped
    · cases failed

theorem bindMethods_not_isCollision {declared : ManagedClass} {rest : List Method}
    {table : SymbolTable}
    (ordinary : ∀ method ∈ methods, method.IsOrdinary (baseNameOf declared))
    (within : ∀ method ∈ rest, method ∈ methods)
    (holds : table.HoldsOnly (baseNameOf declared :: inheritedMembers)
      (MethodClaim configuration methods))
    (failed : (bindMethods model configuration className (baseNameOf declared) methods table
      rest).result = .error error) : ¬ error.IsCollision := by
  induction rest generalizing table with
  | nil => cases failed
  | cons method rest inductionHypothesis =>
    rw [List.forall_mem_cons] at within
    have plain := ordinary method within.1
    rw [result_bindMethods_cons] at failed
    dsimp only at failed
    rcases except_bind_eq_error.mp failed with claimed | ⟨next, taken, failed⟩
    · exact absurd claimed (holds.claim_ne_error (plain.symbolOf_not_reserved _)
        fun _ => MethodClaim.eq within.1 ordinary)
    · rcases except_bind_eq_error.mp failed with unbound | ⟨_, _, failed⟩
      · exact bindMethod_not_isCollision plain unbound
      · rcases except_bind_eq_error.mp failed with later | ⟨_, _, failed⟩
        · exact inductionHypothesis within.2
            (holds.claim taken ⟨method, within.1, rfl, rfl⟩) later
        · cases failed

theorem constantsOf_not_isCollision {declared : ManagedClass} (ordinary : declared.IsOrdinary model)
    (failed : constantsOf model configuration declared = .error error) : ¬ error.IsCollision := by
  unfold constantsOf at failed
  split at failed
  · split at failed
    · cases failed
      exact GenerationError.not_isCollision_model _
    · next fields flattened =>
      have holds := SymbolTable.holdsOnly_reserved declared.qualifiedName [] PlainClaim
      exact bindConstants_not_isCollision holds (ordinary.constants fields flattened) failed
  · cases failed

/-- No symbol of an ordinary class has two owners. -/
theorem bind_not_isCollision {declared : ManagedClass} (ordinary : declared.IsOrdinary model)
    (failed : (bind model configuration declared).result = .error error) :
    ¬ error.IsCollision := by
  rw [result_bind] at failed
  split at failed
  · dsimp only at failed
    rcases except_bind_eq_error.mp failed with homeless | ⟨home, _, failed⟩
    · unfold homeOf at homeless
      split at homeless <;> cases homeless
      exact GenerationError.not_isCollision_model _
    · rcases except_bind_eq_error.mp failed with unbound | ⟨methods, _, failed⟩
      · exact bindMethods_not_isCollision ordinary.methods (fun _ member => member)
          (holdsOnly_memberTable _ _ _) unbound
      · rcases except_bind_eq_error.mp failed with unbound | ⟨_, _, failed⟩
        · exact constantsOf_not_isCollision ordinary unbound
        · cases failed
  · cases failed
    exact GenerationError.not_isCollision_defect _

/-- The symbols of a peer are those that the configuration asks for. -/
theorem bind_symbols {declared : ManagedClass} {peer : Peer}
    (bound : (bind model configuration declared).result = .ok peer) :
    peer.methods.map BoundMethod.method = declared.taggedMethods ∧
      ∀ shown ∈ peer.methods, shown.symbol =
        symbolOf (isDisambiguated configuration declared.taggedMethods shown.method)
          shown.method := by
  obtain ⟨_, home, methods, constants, _, methodsBound, _, shape⟩ := bind_eq_ok.mp bound
  obtain ⟨final, _, pairs⟩ := bindMethods_owner methodsBound
  rw [shape]
  constructor
  · have sameMethods := pairs.imp fun method shown bound => bound.method_eq.symm
    exact (List.forall₂_eq_eq_eq ▸ List.forall₂_map_right_iff.mpr sameMethods).symm
  · intro shown member
    obtain ⟨method, _, bound⟩ := exists_of_forall₂_of_mem pairs member
    rw [bound.symbol_eq, bound.method_eq]

/-- Where overloads are told apart, no two tagged methods of an ordinary class have one symbol. -/
theorem nodup_symbols {declared : ManagedClass} (ordinary : declared.IsOrdinary model)
    (enabled : configuration.disambiguatesOverloads = true) :
    (declared.taggedMethods.map fun method =>
      symbolOf (isDisambiguated configuration declared.taggedMethods method) method).Nodup := by
  refine List.Nodup.map_on ?_ ordinary.distinct.of_map
  intro first firstMember second secondMember same
  obtain ⟨sameName, _, sameTypes⟩ := (ordinary.methods first firstMember).read_symbolOf
    (ordinary.methods second secondMember) same
  cases overloaded : isOverloaded declared.taggedMethods first.name with
  | false => exact eq_of_not_isOverloaded overloaded firstMember secondMember sameName
  | true =>
    have shown := sameTypes (by simp [isDisambiguated, enabled, overloaded])
    exact List.inj_on_of_nodup_map ordinary.distinct firstMember secondMember
      (Prod.ext sameName shown)

end Peer

/-- An ordinary class is never refused for a collision. Its peer keeps methods of different names
apart and, where overloads are told apart, all of its methods. -/
theorem render_of_ordinary {declared : ManagedClass} (ordinary : declared.IsOrdinary model)
    (configuration : Configuration) :
    (∀ error, (PeerSource.render model configuration declared).result = .error error →
        ¬ error.IsCollision) ∧
      ∀ source, (PeerSource.render model configuration declared).result = .ok source →
        ∃ peer : Peer, (Peer.bind model configuration declared).result = .ok peer ∧
          source = .ofPeer configuration peer ∧
          peer.methods.map BoundMethod.method = declared.taggedMethods ∧
          (∀ first ∈ peer.methods, ∀ second ∈ peer.methods,
            first.method.name ≠ second.method.name → first.symbol ≠ second.symbol) ∧
          (configuration.disambiguatesOverloads = true →
            (peer.methods.map BoundMethod.symbol).Nodup) := by
  constructor
  · intro error failed
    rw [PeerSource.render, Logged.result_bind] at failed
    rcases except_bind_eq_error.mp failed with unbound | ⟨_, _, failed⟩
    · exact Peer.bind_not_isCollision ordinary unbound
    · cases failed
  · intro source succeeded
    obtain ⟨peer, bound, written⟩ := PeerSource.render_eq_ok.mp succeeded
    obtain ⟨complete, symbols⟩ := Peer.bind_symbols bound
    refine ⟨peer, bound, written, complete, ?_, ?_⟩
    · intro first firstMember second secondMember different same
      have inside {shown : BoundMethod} (member : shown ∈ peer.methods) :
          shown.method ∈ declared.taggedMethods := by
        rw [← complete]
        exact List.mem_map_of_mem member
      rw [symbols first firstMember, symbols second secondMember] at same
      exact different ((ordinary.methods _ (inside firstMember)).read_symbolOf
        (ordinary.methods _ (inside secondMember)) same).1
    · intro enabled
      have shown := Peer.nodup_symbols ordinary enabled
      rw [← complete, List.map_map] at shown
      rw [List.map_congr_left symbols, ← complete]
      exact shown

/-- This class has overloads whose names and suffixes nearly meet, such as `run__` with `_3I` and
`run_` with `__I`. -/
def hardRunner : ManagedClass :=
  { ManagedClass.named "a.Runner" with
    isTagged := true
    home := Namespace.parse? "N"
    fields := [⟨"LOW_0", .primitive .int, true, true, some (.int 3)⟩]
    methods :=
      [⟨"run", .void, [⟨"counts", .array (.primitive .int) 1⟩], false, true⟩,
       ⟨"run", .void, [], false, true⟩,
       ⟨"run_", .void, [⟨"count", .primitive .int⟩], false, true⟩,
       ⟨"run_", .void, [⟨"other", .reference objectClass⟩], false, true⟩] }

theorem render_of_ordinary_runner :
    hardRunner.IsOrdinary .runtime ∧ ∃ source,
      (PeerSource.render .runtime tellingApart hardRunner).result = .ok source ∧
      ∃ peer : Peer, source = .ofPeer tellingApart peer ∧
        peer.methods.map BoundMethod.method = hardRunner.taggedMethods ∧
        (peer.methods.map BoundMethod.symbol).Nodup := by
  have ordinary : hardRunner.IsOrdinary .runtime := by
    refine ⟨by decide, by decide, ?_⟩
    have flattened : ClassModel.runtime.flattenFields hardRunner = .ok hardRunner.fields := by
      decide +kernel
    intro fields found
    cases flattened.symm.trans found
    decide
  have rendered :
      (PeerSource.render .runtime tellingApart hardRunner).result.toOption.isSome = true := by
    decide +kernel
  obtain ⟨source, succeeded⟩ : ∃ source,
      (PeerSource.render .runtime tellingApart hardRunner).result = .ok source := by
    cases result : (PeerSource.render .runtime tellingApart hardRunner).result with
    | error error => simp [result, Except.toOption] at rendered
    | ok source => exact ⟨source, rfl⟩
  obtain ⟨peer, _, written, complete, _, distinct⟩ :=
    (render_of_ordinary ordinary tellingApart).2 source succeeded
  exact ⟨ordinary, source, succeeded, peer, written, complete, distinct rfl⟩

end NativePeer
