import NativePeer.Generation.Run
import NativePeer.Proofs.Document.Reader
import NativePeer.Proofs.Generation.Run
import NativePeer.Proofs.Peer.Failure

/-
This file says how the generation of a model fails.
-/

namespace NativePeer

variable {model : ClassModel} {configuration : Configuration} {error : GenerationError}

namespace PeerSource

theorem render_eq_error {declared : ManagedClass} :
    (render model configuration declared).result = .error error ↔
      (Peer.bind model configuration declared).result = .error error := by
  simp only [render, Logged.result_bind, except_bind_eq_error, Logged.result_pure, reduceCtorEq,
    and_false, exists_false, or_false]

/-- A run over tagged classes fails at one of them or at a base name that comes again. -/
theorem renderFrom_eq_error {taken : List (String × String)} {classes : List ManagedClass}
    (tagged : ∀ declared ∈ classes, declared.isTagged = true)
    (failed : (renderFrom model configuration taken classes).result = .error error) :
    error.IsCollision ∨ ∃ declared ∈ classes, Peer.Failure model configuration declared error := by
  induction classes generalizing taken with
  | nil => cases failed
  | cons declared rest inductionHypothesis =>
    rw [result_renderFrom_cons] at failed
    rcases except_bind_eq_error.mp failed with unrendered | ⟨source, _, failed⟩
    · have failure := Peer.bind_eq_error (tagged declared List.mem_cons_self)
        (render_eq_error.mp unrendered)
      exact .inr ⟨declared, List.mem_cons_self, failure⟩
    · cases free : taken.lookup source.baseName with
      | some first =>
        rw [free] at failed
        cases failed
        exact .inl ⟨_, _, _, _, rfl⟩
      | none =>
        rw [free] at failed
        rcases except_bind_eq_error.mp failed with later | ⟨_, _, failed⟩
        · have restTagged : ∀ other ∈ rest, other.isTagged = true :=
            fun other member => tagged other (List.mem_cons_of_mem _ member)
          rcases inductionHypothesis restTagged later with collision | ⟨other, member, failure⟩
          · exact .inl collision
          · exact .inr ⟨other, List.mem_cons_of_mem _ member, failure⟩
        · cases failed

end PeerSource

/-- A model is not consistent, or one of its tagged classes fails, or two of them collide. -/
theorem ClassModel.render_eq_error
    (failed : (model.render configuration).result = .error error) :
    (∃ cause, model.validate = .error cause ∧ error = .model cause) ∨ error.IsCollision ∨
      ∃ declared ∈ model.taggedClasses, Peer.Failure model configuration declared error := by
  rw [ClassModel.render, Logged.result_bind, Logged.result_ofExcept, except_bind_eq_error,
    mapError_eq_error] at failed
  rcases failed with ⟨cause, invalid, rfl⟩ | ⟨_, _, failed⟩
  · exact .inl ⟨cause, invalid, rfl⟩
  · have tagged : ∀ declared ∈ model.taggedClasses, declared.isTagged = true :=
      fun declared member => (List.mem_filter.mp member).2
    exact .inr (PeerSource.renderFrom_eq_error tagged failed)

theorem GenerationError.IsCollision.not_internal (collision : error.IsCollision) :
    error.isInternal = false := by
  obtain ⟨_, _, _, _, rfl⟩ := collision
  rfl

/-- A well-formed class has no type that is a defect. -/
theorem Peer.Failure.not_internal {declared : ManagedClass} (wellFormed : declared.WellFormed)
    (failure : Failure model configuration declared error) : error.isInternal = false := by
  cases failure with
  | homeless => rfl
  | @untyped method type _ member used failed =>
    have methodWellFormed := wellFormed.methods method (List.mem_of_mem_filter member)
    have regular : type.isRegular = true := by
      rcases List.mem_cons.mp used with same | inside
      · rw [same]
        exact methodWellFormed.returns.regular
      · obtain ⟨parameter, listed, rfl⟩ := List.mem_map.mp inside
        exact (methodWellFormed.parameters parameter listed).canonical.regular
    rcases NativeType.ofType_eq_error failed with ⟨cause, rfl⟩ | ⟨irregular, _⟩
    · rfl
    · exact absurd (regular.symm.trans irregular) (by decide)
  | rootless => rfl
  | collision collision => exact collision.not_internal

theorem ClassModel.WellFormed.render_not_internal (wellFormed : model.WellFormed)
    (failed : (model.render configuration).result = .error error) : error.isInternal = false := by
  rcases ClassModel.render_eq_error failed with ⟨cause, _, rfl⟩ | collision |
    ⟨declared, member, failure⟩
  · rfl
  · exact collision.not_internal
  · exact failure.not_internal (wellFormed.classes declared (List.mem_of_mem_filter member))

theorem Document.decode_wellFormed {content : Text.Bytes}
    (decoded : Document.decode content = .ok model) : model.WellFormed := by
  unfold Document.decode at decoded
  split at decoded
  · cases decoded
  · exact Document.read_wellFormed decoded

/-- The rendering of a text fails at the document or at its model. -/
theorem renderText_not_internal {text : String}
    (failed : (renderText configuration text).result = .error error) :
    error.isInternal = false := by
  rw [renderText, Logged.result_bind, Logged.result_ofExcept, except_bind_eq_error,
    mapError_eq_error] at failed
  rcases failed with ⟨cause, _, rfl⟩ | ⟨model, read, failed⟩
  · rfl
  · exact (Document.read_wellFormed (mapError_eq_ok.mp read)).render_not_internal failed

variable {session after : Session}

/-- A generation fails before the first artifact or at a file. -/
theorem perform_generate_eq_error
    (failed : session.perform (model.generate configuration) = (.error error, after)) :
    (model.render configuration).result = .error error ∨
      ∃ path cause, error = .file path cause := by
  rw [ClassModel.generate, Session.perform_bind_eq_error, perform_run] at failed
  rcases failed with unrendered | ⟨sources, between, _, failed⟩
  · exact .inl (congrArg Prod.fst unrendered)
  · rcases Session.perform_bind_eq_error.mp failed with unwritten | ⟨_, _, _, failed⟩
    · obtain ⟨_, artifact, _, _, _, _, _, failed⟩ := Session.perform_mapM_eq_error.mp unwritten
      obtain ⟨cause, same⟩ := Artifact.perform_write_eq_error failed
      exact .inr ⟨_, cause, same⟩
    · cases failed

theorem perform_generateFile_not_internal {path : String}
    (failed : session.perform (generateFile configuration path) = (.error error, after)) :
    error.isInternal = false := by
  simp only [generateFile, Session.perform_bind_eq_error, Session.perform_adapt,
    perform_readModel, Prod.mk.injEq, mapError_eq_error, mapError_eq_ok, except_bind_eq_ok]
    at failed
  rcases failed with ⟨⟨cause, _, rfl⟩, _⟩ | ⟨model, between, ⟨⟨content, _, decoded⟩, _⟩, failed⟩
  · rfl
  · rcases perform_generate_eq_error failed with unrendered | ⟨file, cause, rfl⟩
    · exact (Document.decode_wellFormed decoded).render_not_internal unrendered
    · rfl

end NativePeer
