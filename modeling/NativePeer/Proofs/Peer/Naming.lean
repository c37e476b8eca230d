import NativePeer.Proofs.Generation.Rendering
import NativePeer.Proofs.Native.Keyword
import NativePeer.Proofs.Peer.Lines

/-
This file shows that all names of a peer are native identifiers, and which of them are keywords.
-/

namespace NativePeer

open Text

namespace Peer

/-- The names that the two files of a peer give. -/
def names (peer : Peer) : List String :=
  peer.baseName :: peer.home.segments ++
    peer.methods.flatMap fun shown => shown.symbol :: shown.parameters.map BoundParameter.name

variable {model : ClassModel} {configuration : Configuration} {declared : ManagedClass}
  {peer : Peer}

/-- The names of a peer are those of its class, mangled. -/
theorem names_of_bind (bound : (Peer.bind model configuration declared).result = .ok peer) :
    peer.names = baseNameOf declared :: peer.home.segments ++
      declared.taggedMethods.flatMap fun method =>
        symbolOf (isDisambiguated configuration declared.taggedMethods method) method ::
          method.parameters.map fun parameter => SymbolRole.member.mangle parameter.name := by
  obtain ⟨_, base, _, _, methods⟩ := bind_binds bound
  have same : (declared.taggedMethods.map fun method =>
        symbolOf (isDisambiguated configuration declared.taggedMethods method) method ::
          method.parameters.map fun parameter => SymbolRole.member.mangle parameter.name) =
      peer.methods.map fun shown => shown.symbol :: shown.parameters.map BoundParameter.name := by
    apply map_eq_map_of_forall₂ methods
    intro method shown binds
    rw [binds.symbol_eq, map_eq_map_of_forall₂ binds.parameters fun _ _ pair => pair.name.symm]
  rw [names, base, List.flatMap_def, List.flatMap_def, same]

/-- A peer is named by no keyword, since it has a capital. -/
theorem baseNameOf_not_mem_nativeKeywords : baseNameOf declared ∉ nativeKeywords := by
  intro listed
  have capital : 'M' ∈ (baseNameOf declared).toList := by
    rw [baseNameOf, String.toList_append]
    exact List.mem_append_right _ (by decide)
  exact ((plain_of_mem_nativeKeywords listed).letters 'M' capital).2.2 rfl

/-- The symbol of a method that tells its parameters is no keyword, and any other symbol is one if
the name is. -/
theorem symbolOf_mem_nativeKeywords {disambiguated : Bool} {method : Method} :
    symbolOf disambiguated method ∈ nativeKeywords ↔
      disambiguated = false ∧ method.name ∈ nativeKeywords := by
  cases disambiguated with
  | false => simp [symbolOf, SymbolRole.member_mangle_mem_nativeKeywords]
  | true =>
    refine iff_of_false (fun listed => ?_) (by simp)
    have few := (plain_of_mem_nativeKeywords listed).underscores
    have joint : "__".toList.count '_' = 2 := by decide
    rw [symbolOf, if_pos rfl, String.toList_append, String.toList_append, List.count_append,
      List.count_append, joint] at few
    omega

theorem isIdentifier_symbolOf (disambiguated : Bool) {method : Method}
    (managed : IsManagedName method.name) : IsIdentifier (symbolOf disambiguated method) := by
  have plain := SymbolRole.member.isIdentifier_mangle managed
  unfold symbolOf
  split
  · exact (plain.append (by decide)).append (SymbolRole.descriptor.within_mangle _)
  · exact plain

end Peer

/-- A class whose names are names of the managed language and whose peer has a valid namespace. -/
structure ManagedClass.IsNamed (configuration : Configuration) (declared : ManagedClass) :
    Prop where
  simpleName : IsManagedName declared.simpleName
  methods : ∀ method ∈ declared.taggedMethods, IsManagedName method.name
  parameters : ∀ method ∈ declared.taggedMethods, ∀ parameter ∈ method.parameters,
    IsManagedName parameter.name
  home : ∀ home, Peer.homeOf configuration declared = .ok home →
    ∀ segment ∈ home.segments, IsIdentifier segment

namespace PeerSource

variable {model : ClassModel} {configuration : Configuration} {declared : ManagedClass}

/-- All names of a peer are identifiers, and the name of the peer is no keyword. None of the others
is one exactly when no segment of the namespace is, no method whose symbol tells its name alone is
named like one, and no parameter is. -/
theorem render_names {source : PeerSource} (named : declared.IsNamed configuration)
    (rendered : (render model configuration declared).result = .ok source) :
    ∃ peer, (Peer.bind model configuration declared).result = .ok peer ∧
      source = .ofPeer configuration peer ∧
      (∀ name ∈ peer.names, IsIdentifier name) ∧
      peer.baseName ∉ nativeKeywords ∧
      ((∀ name ∈ peer.names, name ∉ nativeKeywords) ↔
        (∀ home, Peer.homeOf configuration declared = .ok home →
          ∀ segment ∈ home.segments, segment ∉ nativeKeywords) ∧
          ∀ method ∈ declared.taggedMethods,
            (Peer.isDisambiguated configuration declared.taggedMethods method = false →
              method.name ∉ nativeOnlyKeywords) ∧
            ∀ parameter ∈ method.parameters, parameter.name ∉ nativeOnlyKeywords) := by
  obtain ⟨peer, bound, written⟩ := render_eq_ok.mp rendered
  obtain ⟨_, base, housed, _, _⟩ := Peer.bind_binds bound
  refine ⟨peer, bound, written, ?_, ?_, ?_⟩
  · rw [Peer.names_of_bind bound]
    simp only [List.cons_append, List.forall_mem_cons, List.forall_mem_append,
      List.forall_mem_flatMap, List.forall_mem_map]
    refine ⟨?_, named.home peer.home housed, fun method member => ⟨?_, ?_⟩⟩
    · exact (SymbolRole.className.isIdentifier_mangle named.simpleName).append (by decide)
    · exact Peer.isIdentifier_symbolOf _ (named.methods method member)
    · exact fun parameter given =>
        SymbolRole.member.isIdentifier_mangle (named.parameters method member parameter given)
  · exact base ▸ Peer.baseNameOf_not_mem_nativeKeywords
  · have nativeOnly {name : String} (managed : IsManagedName name) :
        name ∈ nativeOnlyKeywords ↔ name ∈ nativeKeywords := by
      simp [nativeOnlyKeywords, managed.free]
    rw [Peer.names_of_bind bound, housed]
    simp only [Except.ok.injEq, forall_eq', List.cons_append, List.forall_mem_cons,
      List.forall_mem_append, List.forall_mem_flatMap, List.forall_mem_map,
      Peer.symbolOf_mem_nativeKeywords, SymbolRole.member_mangle_mem_nativeKeywords,
      Peer.baseNameOf_not_mem_nativeKeywords, not_and, not_false_eq_true, true_and]
    apply and_congr_right'
    apply forall₂_congr
    intro method member
    rw [nativeOnly (named.methods method member)]
    apply and_congr_right'
    apply forall₂_congr
    intro parameter given
    rw [nativeOnly (named.parameters method member parameter given)]

/-- This class has names that only the managed language takes as they are. -/
def deletingCar : ManagedClass :=
  { ManagedClass.named "a.Car" with
    isTagged := true
    home := Namespace.parse? "JNI.Cars"
    methods :=
      [⟨"delete", .void, [⟨"größe", .primitive .int⟩, ⟨"$register", .string⟩], false, true⟩,
       ⟨"drive", .void, [⟨"register", .string⟩], false, true⟩] }

theorem render_names_delete :
    deletingCar.IsNamed tellingApart ∧ ∃ source,
      (render .runtime tellingApart deletingCar).result = .ok source ∧
      ∃ peer : Peer, source = .ofPeer tellingApart peer ∧
        (∀ name ∈ peer.names, IsIdentifier name) ∧
        ¬ ∀ name ∈ peer.names, name ∉ nativeKeywords := by
  have named : deletingCar.IsNamed tellingApart := by
    refine ⟨by decide +kernel, by decide +kernel, by decide +kernel, ?_⟩
    intro home housed
    cases housed
    decide +kernel
  obtain ⟨source, rendered⟩ : ∃ source,
      (render .runtime tellingApart deletingCar).result = .ok source := ⟨_, rfl⟩
  obtain ⟨peer, _, written, identifiers, _, keywords⟩ := render_names named rendered
  refine ⟨named, source, rendered, peer, written, identifiers, fun free => ?_⟩
  have method := ((keywords.mp free).2 _ List.mem_cons_self).1 (by decide +kernel)
  exact absurd method (by decide +kernel)

end PeerSource

end NativePeer
