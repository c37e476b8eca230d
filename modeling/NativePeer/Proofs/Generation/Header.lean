import NativePeer.Proofs.Generation.Order
import NativePeer.Proofs.Peer.Declaration

/-
This file shows that no name in a model spoils a header.
-/

namespace NativePeer

open Text

variable {model : ClassModel} {configuration : Configuration}

/-- The namespace of a peer is given or has been checked. -/
theorem ClassModel.Checked.valid_home {declared : ManagedClass} {home : Namespace}
    (given : ∀ home, configuration.home = some home → home.isValid = true)
    (checked : model.Checked declared) (housed : Peer.homeOf configuration declared = .ok home) :
    home.isValid = true := by
  unfold Peer.homeOf at housed
  split at housed
  · next override =>
    cases housed
    exact given _ override
  · next own =>
    cases housed
    exact checked.home _ own
  · cases housed

/-- Whatever classes, fields, methods and parameters are called, the header of a peer decodes to its
text, and the text has its lines, its letters and its scopes. A file of the other host would decode
to the text as well. -/
theorem ClassModel.render_intact {sources : List PeerSource}
    (given : ∀ home, configuration.home = some home → home.isValid = true)
    (rendered : (model.render configuration).result = .ok sources) :
    ∀ source ∈ sources, ∃ declared ∈ model.taggedClasses, ∃ peer,
      (Peer.bind model configuration declared).result = .ok peer ∧
      PeerSource.decode configuration.host source.header = unlines peer.declaration ∧
      (∀ host, PeerSource.decode host (PeerSource.encode host peer.declaration) =
        unlines peer.declaration) ∧
      IsIntactHeader configuration.host peer.home
        (PeerSource.decode configuration.host source.header) := by
  obtain ⟨valid, pairs, _⟩ := render_eq_ok_iff.mp rendered
  intro source member
  obtain ⟨declared, listed, succeeded⟩ := exists_of_forall₂_of_mem pairs member
  obtain ⟨peer, bound, rfl⟩ := PeerSource.render_eq_ok.mp succeeded
  obtain ⟨_, _, housed, _, _⟩ := Peer.bind_binds bound
  have checked := validate_eq_ok.mp valid declared (List.mem_of_mem_filter listed)
  have home := checked.valid_home given housed
  have decoded : PeerSource.decode configuration.host
      (PeerSource.ofPeer configuration peer).header = unlines peer.declaration :=
    Peer.decode_declaration bound home configuration.host
  rw [decoded]
  exact ⟨declared, listed, peer, bound, rfl, Peer.decode_declaration bound home,
    Peer.isIntactHeader_of_bind bound home⟩

/-- The names in this class break lines, strings, comments and scopes. -/
def hostileModel : ClassModel where
  classes := ClassModel.runtime.classes ++
    [{ ManagedClass.named "a.\x7d\"B\n" with
        isTagged := true
        home := Namespace.parse? "N.M"
        fields := [⟨"x */\r\n#undef y", .primitive .char, true, true, some (.char 0x7D)⟩]
        methods := [⟨"\x7b\u2028", .void, [⟨"é;\n", .string⟩], false, true⟩] }]
  distinct := by decide

theorem ClassModel.render_intact_hostile :
    ∃ sources, (hostileModel.render PeerSource.emitting).result = .ok sources ∧ sources.length = 1 ∧
      ∀ source ∈ sources, ∃ home : Namespace,
        IsIntactHeader .unix home (PeerSource.decode .unix source.header) := by
  have shown : ((hostileModel.render PeerSource.emitting).result.toOption.map List.length) =
      some 1 := by decide +kernel
  obtain ⟨sources, found, single⟩ := Option.map_eq_some_iff.mp shown
  have rendered := toOption_eq_some.mp found
  refine ⟨sources, rendered, single, fun source member => ?_⟩
  obtain ⟨_, _, peer, _, _, _, intact⟩ :=
    ClassModel.render_intact (fun _ given => by cases given) rendered source member
  exact ⟨peer.home, intact⟩

end NativePeer
