import NativePeer.Proofs.CommandLine.Documents
import NativePeer.Proofs.Generation.Failure

/-
This file shows that no document makes the program report a defect of its own.
-/

namespace NativePeer

/-- Whether a result is a failure that is the fault of the generator. -/
def isDefect {A : Type} : Except GenerationError A → Bool
  | .ok _ => false
  | .error error => error.isInternal

theorem isDefect_eq_false {A : Type} {result : Except GenerationError A}
    (external : ∀ error, result = .error error → error.isInternal = false) :
    isDefect result = false := by
  cases result with
  | ok value => rfl
  | error error => exact external error rfl

namespace CommandLine

variable {options : Options} {host : Host} {error : GenerationError} {session after : Session}

theorem configuration_eq_error (failed : options.configuration host = .error error) :
    ∃ cause, error = .model cause := by
  rw [Options.configuration, except_bind_eq_error] at failed
  rcases failed with homeless | ⟨_, _, failed⟩
  · unfold homeOf at homeless
    split at homeless
    · cases homeless
    · split at homeless <;> cases homeless
      exact ⟨_, rfl⟩
  · cases failed

theorem perform_generateModel_not_internal {configuration : Configuration} {path : String}
    (failed : session.perform (generateModel configuration path) = (.error error, after)) :
    error.isInternal = false := by
  rw [generateModel, Session.perform_bind, Session.perform_report] at failed
  exact perform_generateFile_not_internal failed

theorem perform_ensureDirectory_ok (path : String) (session : Session) :
    ∃ result after, session.perform (E := GenerationError) (ensureDirectory path) =
      (.ok result, after) := by
  unfold ensureDirectory
  rw [Session.perform_bind, Session.perform_makeDirectory]
  cases (session.change (session.tree.makeDirectory path)).1 with
  | ok made => exact ⟨_, _, rfl⟩
  | error error =>
    dsimp only
    rw [Session.perform_bind, Session.perform_status]
    dsimp only
    split <;> exact ⟨_, _, rfl⟩

theorem perform_ensureWithin_ok (path : String) (parents : List String) (session : Session) :
    ∃ result after, session.perform (E := GenerationError) (ensureWithin path parents) =
      (.ok result, after) := by
  induction parents generalizing path session with
  | nil => exact perform_ensureDirectory_ok path session
  | cons parent parents inductionHypothesis =>
    obtain ⟨made, between, performed⟩ := perform_ensureDirectory_ok path session
    rw [ensureWithin, Session.perform_bind, performed]
    dsimp only
    split
    · obtain ⟨outer, last, outerPerformed⟩ := inductionHypothesis parent between
      rw [Session.perform_bind, outerPerformed]
      cases outer with
      | error error => exact ⟨_, _, rfl⟩
      | ok => exact perform_ensureDirectory_ok path last
    · exact ⟨_, _, rfl⟩

/-- The making of directories answers with what the system says and never breaks off. -/
theorem perform_createDirectories_ok (path : String) (session : Session) :
    ∃ result after, session.perform (E := GenerationError) (createDirectories path) =
      (.ok result, after) := by
  unfold createDirectories
  split
  · exact ⟨_, _, rfl⟩
  · exact perform_ensureWithin_ok path _ session

/-- A run fails at its options, at the output directory or at one of its documents. -/
theorem perform_generateAll_not_internal
    (failed : session.perform (generateAll options host) = (.error error, after)) :
    error.isInternal = false := by
  simp only [generateAll, Session.perform_bind_eq_error, Session.perform_mk_pure, Prod.mk.injEq]
    at failed
  rcases failed with ⟨unconfigured, _⟩ | ⟨configuration, start, _, failed⟩
  · obtain ⟨cause, rfl⟩ := configuration_eq_error unconfigured
    rfl
  · obtain ⟨made, between, performed⟩ :=
      perform_createDirectories_ok configuration.outputDirectory start
    rcases failed with impossible | ⟨result, middle, created, failed⟩
    · cases performed.symm.trans impossible
    · cases result with
      | error cause =>
        cases failed
        rfl
      | ok =>
        obtain ⟨_, path, _, _, middle, _, _, failed⟩ := Session.perform_mapM_eq_error.mp failed
        rcases Session.perform_bind_eq_error.mp failed with failed | ⟨_, _, _, failed⟩
        · exact perform_generateModel_not_internal failed
        · cases failed

theorem status_run_ne (arguments : List String) (host : Host) (session : Session) :
    ((run arguments host : StateM Session Ending).run session).1.status ≠ 11 := by
  unfold run
  cases Invocation.ofArguments arguments with
  | help => exact (by decide : (0 : Nat) ≠ 11)
  | version => exact (by decide : (0 : Nat) ≠ 11)
  | misuse => exact (by decide : misuseStatus ≠ 11)
  | generate options =>
    dsimp only
    rw [run_runOptions]
    rcases failed : session.perform (generateAll options host) with ⟨error | reports, after⟩
    · have external := perform_generateAll_not_internal failed
      simp [GenerationError.exitStatus, external]
    · simp

end CommandLine

/-- Whatever a document says, rendering, generation and the program never end with a failure that
is the fault of the generator. -/
theorem documents_reach_no_defect (configuration : Configuration) (text path : String)
    (arguments : List String) (host : Host) (session : Session) :
    isDefect (renderText configuration text).result = false ∧
      isDefect (session.perform (generateFile configuration path)).1 = false ∧
      ((CommandLine.run arguments host : StateM Session CommandLine.Ending).run session).1.status
        ≠ 11 := by
  refine ⟨?_, ?_, ?_⟩
  · exact isDefect_eq_false fun error failed => renderText_not_internal failed
  · refine isDefect_eq_false fun error failed => ?_
    exact perform_generateFile_not_internal (Prod.ext failed rfl)
  · exact CommandLine.status_run_ne arguments host session

end NativePeer
