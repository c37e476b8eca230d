import Mathlib.Data.List.Forall2
import NativePeer.Proofs.Generation.Rendering
import NativePeer.Proofs.Native.Mangling

/-
This file shows that the symbols of a peer keep its managed names apart.
-/

namespace NativePeer

/-- Every value on the right has its partner on the left. -/
theorem exists_of_forall₂_of_mem {A B : Type} {related : A → B → Prop} {firsts : List A}
    {seconds : List B} (pairs : List.Forall₂ related firsts seconds) {second : B}
    (member : second ∈ seconds) : ∃ first ∈ firsts, related first second := by
  induction pairs with
  | nil => cases member
  | cons pair _ inductionHypothesis =>
    rcases List.mem_cons.mp member with same | later
    · exact ⟨_, List.mem_cons_self, same ▸ pair⟩
    · obtain ⟨first, inside, found⟩ := inductionHypothesis later
      exact ⟨first, List.mem_cons_of_mem _ inside, found⟩

namespace SymbolTable

/-- A later table knows every owner of an earlier one. -/
def Extends (table next : SymbolTable) : Prop :=
  ∀ symbol owner, table.owner? symbol = some owner → next.owner? symbol = some owner

theorem Extends.refl (table : SymbolTable) : table.Extends table :=
  fun _ _ present => present

theorem Extends.trans {first second third : SymbolTable} (earlier : first.Extends second)
    (later : second.Extends third) : first.Extends third :=
  fun symbol owner present => later symbol owner (earlier symbol owner present)

theorem extends_claim {table next : SymbolTable} {symbol owner : String}
    (claimed : table.claim symbol owner = .ok next) : table.Extends next :=
  fun _ _ present => owner?_claim_of_some claimed present

/-- A reserved symbol has a longer owner if every reservation is longer than its symbol. -/
theorem exists_longer_owner {scope symbol : String} {entries : List (String × String)}
    (longer : ∀ entry ∈ entries, entry.1.length < entry.2.length)
    (listed : symbol ∈ entries.map Prod.fst) :
    ∃ owner, (reserved scope entries).owner? symbol = some owner ∧
      symbol.length < owner.length := by
  have known : (entries.lookup symbol).isSome := by
    obtain ⟨entry, member, same⟩ := List.mem_map.mp listed
    exact List.lookup_isSome_iff.mpr ⟨entry, member, by simp [same]⟩
  obtain ⟨owner, present⟩ := Option.isSome_iff_exists.mp known
  obtain ⟨before, after, split, _⟩ := List.lookup_eq_some_iff.mp present
  exact ⟨owner, present, longer (symbol, owner) (by simp [split])⟩

end SymbolTable

namespace Peer

variable {model : ClassModel} {configuration : Configuration}

theorem exists_owner?_memberTable (className : String) {baseName symbol : String}
    (listed : symbol ∈ baseName :: inheritedMembers) :
    ∃ owner, (memberTable className baseName).owner? symbol = some owner ∧
      symbol.length < owner.length := by
  apply SymbolTable.exists_longer_owner
  · intro entry member
    rcases List.mem_cons.mp member with same | inherited
    · have suffix : " constructor".length = 12 := by decide
      simp only [same, String.length_append]
      omega
    · obtain ⟨name, _, same⟩ := List.mem_map.mp inherited
      have scope : "::".length = 2 := by decide
      simp only [← same, String.length_append]
      omega
  · simpa [Function.comp_def] using listed

theorem exists_owner?_bodyTable (className baseName methodName : String) {symbol : String}
    (listed : symbol ∈ inheritedMembers ++ bodyVariables) :
    ∃ owner, (bodyTable className baseName methodName).owner? symbol = some owner ∧
      symbol.length < owner.length := by
  apply SymbolTable.exists_longer_owner
  · intro entry member
    obtain ⟨name, _, same⟩ := List.mem_map.mp member
    have quote : "'".length = 1 := by decide
    simp only [← same, String.length_append]
    omega
  · simpa [Function.comp_def] using listed

/-- The owner of a symbol is no longer than the symbol. -/
theorem length_ownerOf_le (disambiguated : Bool) (method : Method) :
    (ownerOf disambiguated method).length ≤ (symbolOf disambiguated method).length := by
  have plain := SymbolRole.member.length_le_length_mangle method.name
  have suffix := SymbolRole.descriptor.length_le_length_mangle method.parametersDescriptor
  have brackets : "(".length = 1 ∧ ")".length = 1 ∧ "__".length = 2 := by decide
  cases disambiguated
  · exact plain
  · simp only [ownerOf, symbolOf, if_true, String.length_append]
    omega

/-- The suffix of a disambiguated symbol does not read like a longer name with a bracket. -/
theorem symbolOf_ne_of_longer {first second : Method} {rest : List Char}
    (longer : second.name.toList = first.name.toList ++ '(' :: rest) (disambiguated : Bool) :
    symbolOf true first ≠ symbolOf disambiguated second := by
  intro same
  have spelled : SymbolRole.member.mangleLetter '(' = ['_', '0', '0', '0', '2', '8'] := by decide
  have letters := congrArg String.toList same
  cases disambiguated <;>
    simp [symbolOf, longer, spelled, List.flatMap_append, List.flatMap_cons] at letters

/-- Two texts that share a bracketed whole split it at one bracket, or one name goes on past the
bracket of the other. -/
theorem bracket_split {first second firstRest secondRest : List Char}
    (same : first ++ '(' :: firstRest = second ++ '(' :: secondRest) :
    (first = second ∧ firstRest = secondRest) ∨
      (∃ rest, second = first ++ '(' :: rest) ∨ ∃ rest, first = second ++ '(' :: rest := by
  rcases List.append_eq_append_iff.mp same with ⟨middle, longer, cut⟩ | ⟨middle, longer, cut⟩
  · cases middle with
    | nil => simp_all
    | cons letter rest =>
      cases cut
      exact Or.inr (Or.inl ⟨rest, longer⟩)
  · cases middle with
    | nil => simp_all
    | cons letter rest =>
      cases cut
      exact Or.inr (Or.inr ⟨rest, longer⟩)

/-- A symbol and its owner together determine the method name and the parameters in it. -/
theorem name_eq_of_symbolOf_eq {first second : Method}
    {firstDisambiguated secondDisambiguated : Bool}
    (sameSymbol : symbolOf firstDisambiguated first = symbolOf secondDisambiguated second)
    (sameOwner : ownerOf firstDisambiguated first = ownerOf secondDisambiguated second) :
    first.name = second.name ∧ (firstDisambiguated = secondDisambiguated) ∧
      (firstDisambiguated → first.parametersDescriptor = second.parametersDescriptor) := by
  have letters := congrArg String.toList sameOwner
  cases firstDisambiguated <;> cases secondDisambiguated
  · exact ⟨sameOwner, rfl, by simp⟩
  · have longer : first.name.toList = second.name.toList ++
        '(' :: (second.parametersDescriptor.toList ++ [')']) := by
      simpa [ownerOf] using letters
    exact absurd sameSymbol.symm (symbolOf_ne_of_longer longer false)
  · have longer : second.name.toList = first.name.toList ++
        '(' :: (first.parametersDescriptor.toList ++ [')']) := by
      simpa [ownerOf] using letters.symm
    exact absurd sameSymbol (symbolOf_ne_of_longer longer false)
  · have whole : first.name.toList ++ '(' :: (first.parametersDescriptor.toList ++ [')']) =
        second.name.toList ++ '(' :: (second.parametersDescriptor.toList ++ [')']) := by
      simpa [ownerOf] using letters
    rcases bracket_split whole with ⟨sameName, sameRest⟩ | ⟨rest, longer⟩ | ⟨rest, longer⟩
    · exact ⟨String.toList_injective sameName, rfl,
        fun _ => String.toList_injective (List.append_cancel_right sameRest)⟩
    · exact absurd sameSymbol (symbolOf_ne_of_longer longer true)
    · exact absurd sameSymbol.symm (symbolOf_ne_of_longer longer true)

/-- Each parameter owns the name that it is emitted with. -/
theorem bindParameters_owner {table : SymbolTable} {parameters : List Parameter}
    {bound : List BoundParameter}
    (succeeded : bindParameters model table parameters = .ok bound) :
    ∃ final, table.Extends final ∧ List.Forall₂
      (fun parameter shown => final.owner? shown.name = some parameter.name ∧
        shown.name = SymbolRole.member.mangle parameter.name) parameters bound := by
  induction parameters generalizing table bound with
  | nil =>
    cases succeeded
    exact ⟨table, .refl table, .nil⟩
  | cons parameter parameters inductionHypothesis =>
    obtain ⟨type, next, others, _, claimed, rest, same⟩ :=
      bindParameters_cons_eq_ok.mp succeeded
    obtain ⟨final, extended, owners⟩ := inductionHypothesis rest
    rw [same]
    refine ⟨final, (SymbolTable.extends_claim claimed).trans extended, .cons ⟨?_, rfl⟩ owners⟩
    exact extended _ _ (SymbolTable.owner?_claim claimed)

variable {className baseName : String} {methods : List Method}

/-- What the table of a class and the binding of its methods say about an emitted method. -/
structure Bound (model : ClassModel) (configuration : Configuration) (className baseName : String)
    (methods : List Method) (table : SymbolTable) (method : Method) (shown : BoundMethod) :
    Prop where
  method_eq : shown.method = method
  symbol_eq : shown.symbol = symbolOf (isDisambiguated configuration methods method) method
  owner : table.owner? shown.symbol =
    some (ownerOf (isDisambiguated configuration methods method) method)
  parameters : bindParameters model (bodyTable className baseName method.name) method.parameters =
    .ok shown.parameters

/-- Each method owns the symbol that it is emitted with. -/
theorem bindMethods_owner {table : SymbolTable} {rest : List Method} {bound : List BoundMethod}
    (succeeded : (bindMethods model configuration className baseName methods table rest).result =
      .ok bound) :
    ∃ final, table.Extends final ∧ List.Forall₂
      (Bound model configuration className baseName methods final) rest bound := by
  induction rest generalizing table bound with
  | nil =>
    cases succeeded
    exact ⟨table, .refl table, .nil⟩
  | cons method rest inductionHypothesis =>
    simp only [result_bindMethods_cons, except_bind_eq_ok] at succeeded
    obtain ⟨next, claimed, shown, methodBound, others, restBound, same⟩ := succeeded
    obtain ⟨final, extended, owners⟩ := inductionHypothesis restBound
    obtain ⟨parameters, returns, parametersBound, _, shape⟩ := bindMethod_eq_ok.mp methodBound
    cases same
    cases shape
    refine ⟨final, (SymbolTable.extends_claim claimed).trans extended, .cons ?_ owners⟩
    exact ⟨rfl, rfl, extended _ _ (SymbolTable.owner?_claim claimed), parametersBound⟩

/-- A name that is not overloaded belongs to one method. -/
theorem eq_of_not_isOverloaded {first second : Method}
    (plain : isOverloaded methods first.name = false)
    (firstMember : first ∈ methods) (secondMember : second ∈ methods)
    (sameName : first.name = second.name) : first = second := by
  have single : (methods.filter fun method => method.name = first.name).length ≤ 1 := by
    simpa [isOverloaded, List.countP_eq_length_filter] using plain
  have firstKept : first ∈ methods.filter fun method => method.name = first.name := by
    simp [firstMember]
  have secondKept : second ∈ methods.filter fun method => method.name = first.name := by
    simp [secondMember, sameName]
  obtain ⟨only, shape⟩ : ∃ only, (methods.filter fun method => method.name = first.name) = [only] :=
    List.length_eq_one_iff.mp (Nat.le_antisymm single (List.length_pos_of_mem firstKept))
  rw [shape, List.mem_singleton] at firstKept secondKept
  rw [firstKept, secondKept]

/-- No emitted symbol hides an inherited member or the constructor. -/
theorem Bound.symbol_not_reserved {table : SymbolTable} {method : Method} {shown : BoundMethod}
    (bound : Bound model configuration className baseName methods table method shown)
    (reserved : (memberTable className baseName).Extends table) :
    shown.symbol ∉ baseName :: inheritedMembers := by
  intro listed
  obtain ⟨owner, present, longer⟩ := exists_owner?_memberTable className listed
  have same := (reserved _ _ present).symm.trans bound.owner
  have shorter := length_ownerOf_le (isDisambiguated configuration methods method) method
  rw [← Option.some.inj same, ← bound.symbol_eq] at shorter
  omega

/-- Two methods share a symbol only with their names and, where overloads are told apart, with
their parameters. -/
theorem Bound.name_eq_of_symbol_eq {table : SymbolTable} {first second : Method}
    {firstShown secondShown : BoundMethod}
    (firstBound : Bound model configuration className baseName methods table first firstShown)
    (secondBound : Bound model configuration className baseName methods table second secondShown)
    (firstMember : first ∈ methods) (secondMember : second ∈ methods)
    (same : firstShown.symbol = secondShown.symbol) :
    first.name = second.name ∧ (configuration.disambiguatesOverloads →
      first.parametersDescriptor = second.parametersDescriptor) := by
  have sameOwner := firstBound.owner.symm.trans (same ▸ secondBound.owner)
  have sameSymbol := firstBound.symbol_eq.symm.trans (same.trans secondBound.symbol_eq)
  obtain ⟨sameName, _, sameParameters⟩ :=
    name_eq_of_symbolOf_eq sameSymbol (Option.some.inj sameOwner)
  refine ⟨sameName, fun enabled => ?_⟩
  cases overloaded : isOverloaded methods first.name with
  | true => exact sameParameters (by simp [isDisambiguated, enabled, overloaded])
  | false => rw [eq_of_not_isOverloaded overloaded firstMember secondMember sameName]

/-- No emitted parameter hides what a method body uses, and parameters share a name only with
their managed names. -/
theorem bindParameters_sound {methodName : String} {parameters : List Parameter}
    {bound : List BoundParameter}
    (succeeded : bindParameters model (bodyTable className baseName methodName) parameters =
      .ok bound) :
    bound.length = parameters.length ∧
      (∀ shown ∈ bound, shown.name ∉ inheritedMembers ++ bodyVariables) ∧
      ∀ first ∈ parameters.zip bound, ∀ second ∈ parameters.zip bound,
        first.2.name = second.2.name → first.1.name = second.1.name := by
  obtain ⟨final, extended, owners⟩ := bindParameters_owner succeeded
  obtain ⟨sameLength, paired⟩ := List.forall₂_iff_zip.mp owners
  refine ⟨sameLength.symm, ?_, ?_⟩
  · intro shown member listed
    obtain ⟨parameter, _, owned, written⟩ := exists_of_forall₂_of_mem owners member
    obtain ⟨owner, present, longer⟩ := exists_owner?_bodyTable className baseName methodName listed
    have same := (extended _ _ present).symm.trans owned
    have shorter := SymbolRole.member.length_le_length_mangle parameter.name
    rw [← written, ← Option.some.inj same] at shorter
    omega
  · intro first firstMember second secondMember same
    have firstOwner := (paired firstMember).1
    have secondOwner := (paired secondMember).1
    rw [same] at firstOwner
    exact Option.some.inj (firstOwner.symm.trans secondOwner)

end Peer

/-- The symbols of a generated peer hide nothing that it inherits or uses, and none stands for two
managed names. -/
theorem render_symbols_sound {model : ClassModel} {configuration : Configuration}
    {declared : ManagedClass} {source : PeerSource}
    (succeeded : (PeerSource.render model configuration declared).result = .ok source) :
    ∃ peer : Peer, (Peer.bind model configuration declared).result = .ok peer ∧
      source = .ofPeer configuration peer ∧
      peer.methods.map BoundMethod.method = declared.taggedMethods ∧
      (∀ shown ∈ peer.methods, shown.symbol ∉ Peer.baseNameOf declared :: inheritedMembers) ∧
      (∀ first ∈ peer.methods, ∀ second ∈ peer.methods, first.symbol = second.symbol →
        first.method.name = second.method.name ∧ (configuration.disambiguatesOverloads →
          first.method.parametersDescriptor = second.method.parametersDescriptor)) ∧
      ∀ shown ∈ peer.methods, shown.parameters.length = shown.method.parameters.length ∧
        (∀ parameter ∈ shown.parameters,
          parameter.name ∉ inheritedMembers ++ bodyVariables) ∧
        ∀ first ∈ shown.method.parameters.zip shown.parameters,
          ∀ second ∈ shown.method.parameters.zip shown.parameters,
            first.2.name = second.2.name → first.1.name = second.1.name := by
  obtain ⟨peer, peerBound, written⟩ := PeerSource.render_eq_ok.mp succeeded
  refine ⟨peer, peerBound, written, ?_⟩
  obtain ⟨_, home, methods, constants, _, methodsBound, _, shape⟩ := Peer.bind_eq_ok.mp peerBound
  obtain ⟨final, reserved, pairs⟩ := Peer.bindMethods_owner methodsBound
  have partner {shown : BoundMethod} (member : shown ∈ methods) :=
    exists_of_forall₂_of_mem pairs member
  rw [shape]
  refine ⟨?_, ?_, ?_, ?_⟩
  · have sameMethods := pairs.imp fun method shown bound => bound.method_eq.symm
    exact (List.forall₂_eq_eq_eq ▸ List.forall₂_map_right_iff.mpr sameMethods).symm
  · intro shown member
    obtain ⟨method, _, bound⟩ := partner member
    exact bound.symbol_not_reserved reserved
  · intro first firstMember second secondMember sameSymbol
    obtain ⟨firstMethod, firstInside, firstBound⟩ := partner firstMember
    obtain ⟨secondMethod, secondInside, secondBound⟩ := partner secondMember
    rw [firstBound.method_eq, secondBound.method_eq]
    exact firstBound.name_eq_of_symbol_eq secondBound firstInside secondInside sameSymbol
  · intro shown member
    obtain ⟨method, _, bound⟩ := partner member
    rw [bound.method_eq]
    exact Peer.bindParameters_sound bound.parameters

/-- This class overloads one method and has names that need escapes. -/
def overloadedCar : ManagedClass :=
  { ManagedClass.named "a.Car" with
    isTagged := true
    home := Namespace.parse? "N"
    methods :=
      [⟨"drive", .void, [⟨"to", .string⟩], false, true⟩,
       ⟨"drive", .void, [⟨"a$b", .primitive .int⟩, ⟨"a.b", .string⟩], true, true⟩,
       ⟨"drive_", .primitive .int, [], false, true⟩] }

/-- This configuration tells overloads apart. -/
def tellingApart : Configuration := { outputDirectory := "out", disambiguatesOverloads := true }

theorem render_symbols_sound_overloads :
    ∃ source, (PeerSource.render .runtime tellingApart overloadedCar).result = .ok source ∧
      ∃ peer : Peer, source = .ofPeer tellingApart peer ∧
        peer.methods.map BoundMethod.method = overloadedCar.taggedMethods ∧
        ∀ shown ∈ peer.methods, shown.symbol ∉ "CarManagedPeer" :: inheritedMembers := by
  have rendered : ∃ source,
      (PeerSource.render .runtime tellingApart overloadedCar).result = .ok source := ⟨_, rfl⟩
  obtain ⟨source, succeeded⟩ := rendered
  obtain ⟨peer, _, written, complete, free, _⟩ := render_symbols_sound succeeded
  have baseName : Peer.baseNameOf overloadedCar = "CarManagedPeer" := by decide
  exact ⟨source, succeeded, peer, written, complete, baseName ▸ free⟩

end NativePeer
