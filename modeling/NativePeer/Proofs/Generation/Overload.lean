import NativePeer.Generation.Run
import NativePeer.Proofs.Peer.Disambiguation

/-
This file says when the methods of a rendered document have symbols of their own.
-/

namespace NativePeer

variable {configuration : Configuration}

namespace Peer

variable {model : ClassModel} {declared : ManagedClass} {peer : Peer}

/-- The name and the parameters of a method, as its managed class tells it from the others. -/
def signatureOf (method : Method) : String × String :=
  (method.name, method.parametersDescriptor)

/-- Where overloads are told apart, methods share a symbol only with their signature. -/
theorem signatureOf_eq_of_symbol_eq (enabled : configuration.disambiguatesOverloads = true)
    (bound : (bind model configuration declared).result = .ok peer) {first second : BoundMethod}
    (firstMember : first ∈ peer.methods) (secondMember : second ∈ peer.methods)
    (same : first.symbol = second.symbol) :
    signatureOf first.method = signatureOf second.method := by
  obtain ⟨_, home, methods, constants, _, methodsBound, _, shape⟩ := bind_eq_ok.mp bound
  obtain ⟨final, _, pairs⟩ := bindMethods_owner methodsBound
  rw [shape] at firstMember secondMember
  obtain ⟨firstMethod, firstInside, firstBound⟩ := exists_of_forall₂_of_mem pairs firstMember
  obtain ⟨secondMethod, secondInside, secondBound⟩ := exists_of_forall₂_of_mem pairs secondMember
  obtain ⟨sameName, sameParameters⟩ :=
    firstBound.name_eq_of_symbol_eq secondBound firstInside secondInside same
  rw [firstBound.method_eq, secondBound.method_eq]
  exact Prod.ext sameName (sameParameters enabled)

/-- The signature of a method determines its symbol. -/
theorem symbolOf_eq_of_signatureOf_eq {methods : List Method} {first second : Method}
    (same : signatureOf first = signatureOf second) :
    symbolOf (isDisambiguated configuration methods first) first =
      symbolOf (isDisambiguated configuration methods second) second := by
  obtain ⟨sameName, sameParameters⟩ := Prod.ext_iff.mp same
  change first.name = second.name at sameName
  change first.parametersDescriptor = second.parametersDescriptor at sameParameters
  rw [symbolOf, symbolOf, isDisambiguated, isDisambiguated, sameName, sameParameters]

/-- A method that is tagged twice has one symbol twice, and nothing else gives two methods one
symbol. -/
theorem nodup_symbols_iff (enabled : configuration.disambiguatesOverloads = true)
    (bound : (bind model configuration declared).result = .ok peer) :
    (peer.methods.map BoundMethod.symbol).Nodup ↔
      (declared.taggedMethods.map signatureOf).Nodup := by
  obtain ⟨complete, symbols⟩ := bind_symbols bound
  rw [← complete, List.map_map]
  constructor
  · intro distinct
    refine List.Nodup.map_on ?_ distinct.of_map
    intro first firstMember second secondMember same
    apply List.inj_on_of_nodup_map distinct firstMember secondMember
    rw [symbols first firstMember, symbols second secondMember]
    exact symbolOf_eq_of_signatureOf_eq same
  · intro distinct
    refine List.Nodup.map_on ?_ distinct.of_map
    intro first firstMember second secondMember same
    exact List.inj_on_of_nodup_map distinct firstMember secondMember
      (signatureOf_eq_of_symbol_eq enabled bound firstMember secondMember same)

end Peer

theorem renderText_eq_ok {text : String} {sources : List PeerSource} :
    (renderText configuration text).result = .ok sources ↔
      ∃ model, Document.read text = .ok model ∧
        (model.render configuration).result = .ok sources := by
  rw [renderText, Logged.result_bind, Logged.result_ofExcept, except_bind_eq_ok]
  simp only [mapError_eq_ok]

/-- With overloads told apart, the methods of a peer have symbols of their own exactly if the
document repeats no tagged method of its class. -/
theorem renderText_nodup_symbols_iff {text : String} {sources : List PeerSource}
    (enabled : configuration.disambiguatesOverloads = true)
    (rendered : (renderText configuration text).result = .ok sources) :
    ∃ model, Document.read text = .ok model ∧
      List.Forall₂ (fun declared source => ∃ peer : Peer,
          (Peer.bind model configuration declared).result = .ok peer ∧
          source = .ofPeer configuration peer ∧
          peer.methods.map BoundMethod.method = declared.taggedMethods ∧
          ((peer.methods.map BoundMethod.symbol).Nodup ↔
            (declared.taggedMethods.map Peer.signatureOf).Nodup))
        model.taggedClasses sources := by
  obtain ⟨model, read, written⟩ := renderText_eq_ok.mp rendered
  obtain ⟨_, peers⟩ := ClassModel.render_eq_ok.mp written
  obtain ⟨pairs, _⟩ := PeerSource.renderFrom_eq_ok peers
  refine ⟨model, read, pairs.imp fun declared source succeeded => ?_⟩
  obtain ⟨peer, bound, shape⟩ := PeerSource.render_eq_ok.mp succeeded
  exact ⟨peer, bound, shape, (Peer.bind_symbols bound).1, Peer.nodup_symbols_iff enabled bound⟩

/-- This document tags one method twice. -/
def repeatingDocument : String :=
  "<model><class name=\"a.Car\" namespace=\"N\">" ++
    "<method name=\"run\" returns=\"void\" tagged=\"true\"/>" ++
    "<method name=\"run\" returns=\"void\" tagged=\"true\"/>" ++
  "</class></model>"

theorem renderText_nodup_symbols_iff_repeating :
    ∃ sources, (renderText tellingApart repeatingDocument).result = .ok sources ∧
      ∃ model, Document.read repeatingDocument = .ok model ∧
        ∃ declared ∈ model.taggedClasses, ∃ source ∈ sources, ∃ peer : Peer,
          source = .ofPeer tellingApart peer ∧
          peer.methods.map BoundMethod.method = declared.taggedMethods ∧
          ¬ (peer.methods.map BoundMethod.symbol).Nodup := by
  have shown : (Document.read repeatingDocument).toOption.map (fun model =>
      (model.taggedClasses.map fun declared => declared.taggedMethods.map Peer.signatureOf,
        (model.render tellingApart).result.toOption.isSome)) =
        some ([[("run", ""), ("run", "")]], true) := by
    decide +kernel
  cases read : Document.read repeatingDocument with
  | error error => simp [read, Except.toOption] at shown
  | ok model =>
    simp only [read, Except.toOption, Option.map_some, Option.some.injEq, Prod.mk.injEq] at shown
    obtain ⟨methods, succeeded⟩ := shown
    obtain ⟨sources, written⟩ : ∃ sources, (model.render tellingApart).result = .ok sources := by
      cases result : (model.render tellingApart).result with
      | error error => simp [result] at succeeded
      | ok sources => exact ⟨sources, rfl⟩
    have rendered := renderText_eq_ok.mpr ⟨model, read, written⟩
    obtain ⟨other, sameRead, pairs⟩ := renderText_nodup_symbols_iff rfl rendered
    cases read.symm.trans sameRead
    obtain ⟨declared, shape, tagged⟩ := List.map_eq_singleton_iff.mp methods
    rw [shape, List.forall₂_cons_left_iff] at pairs
    obtain ⟨source, others, ⟨peer, _, written, complete, distinct⟩, _, same⟩ := pairs
    refine ⟨sources, rendered, model, rfl, declared, by simp [shape], source, by simp [same], peer,
      written, complete, ?_⟩
    rw [distinct, tagged]
    decide

end NativePeer
