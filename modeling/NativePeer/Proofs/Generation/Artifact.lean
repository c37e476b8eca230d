import Mathlib.Data.List.Forall2
import NativePeer.Generation.Artifact
import NativePeer.Proofs.Computation
import NativePeer.Proofs.Files.Filling

/-
This file says what the writing of artifacts does to the files.
-/

namespace NativePeer

open Text

/-- What is decided about a file of a tree. -/
def FileTree.outcome (tree : FileTree) (force : Bool) (path : String) (content : Bytes) :
    Except GenerationError Outcome :=
  if force then .ok .forced
  else match tree.status path with
    | .error .notFound => .ok .created
    | .error error => .error (.file path error)
    | .ok status =>
      if status.size ≠ content.length then .ok .overwritten
      else match tree.read path with
        | .error error => .error (.file path error)
        | .ok existing => .ok (if existing = content then .unchanged else .overwritten)

namespace FileTree

variable {tree : FileTree} {force : Bool} {path : String} {content : Bytes}

/-- Only a file that has the content counts as unchanged. -/
theorem read_of_outcome (unchanged : tree.outcome force path content = .ok .unchanged) :
    tree.read path = .ok content := by
  unfold outcome at unchanged
  split at unchanged
  · cases unchanged
  · split at unchanged
    · cases unchanged
    · cases unchanged
    · split at unchanged
      · cases unchanged
      · split at unchanged
        · cases unchanged
        · next existing present =>
          by_cases same : existing = content
          · rw [present, same]
          · simp [same] at unchanged

theorem outcome_of_read (present : tree.read path = .ok content) :
    tree.outcome false path content = .ok .unchanged := by
  simp [outcome, status_of_read present, present, Status.size]

/-- Nothing goes wrong with a path that may be written. -/
theorem outcome_of_writable {directory name : String} (writable : tree.Writable directory name)
    (force : Bool) (content : Bytes) :
    ∃ outcome, tree.outcome force (Path.join directory name) content = .ok outcome := by
  cases force with
  | true => exact ⟨.forced, rfl⟩
  | false =>
    rcases status_of_writable writable with absent | ⟨existing, present⟩
    · exact ⟨.created, by simp [outcome, absent]⟩
    · have size := status_of_read present
      by_cases sameSize : existing.length = content.length
      · refine ⟨if existing = content then .unchanged else .overwritten, ?_⟩
        simp [outcome, size, sameSize, present, Status.size]
      · exact ⟨.overwritten, by simp [outcome, size, sameSize, Status.size]⟩

/-- A decision fails only with what the system says about the file. -/
theorem outcome_eq_error {error : GenerationError}
    (failed : tree.outcome force path content = .error error) :
    ∃ cause, error = .file path cause := by
  unfold outcome at failed
  split at failed
  · cases failed
  · split at failed
    · cases failed
    · cases failed
      exact ⟨_, rfl⟩
    · split at failed
      · cases failed
      · split at failed <;> cases failed
        exact ⟨_, rfl⟩

end FileTree

variable {session after : Session} {path : String} {content : Bytes}

/-- A decision looks at the files and changes nothing. -/
theorem perform_decideOutcome (session : Session) (force : Bool) (path : String)
    (content : Bytes) :
    session.perform (decideOutcome force path content) =
      (session.tree.outcome force path content, session) := by
  unfold decideOutcome FileTree.outcome
  cases force with
  | true => rfl
  | false =>
    simp only [Bool.false_eq_true, if_false, Session.perform_bind, Session.perform_status]
    cases session.tree.status path with
    | error error => cases error <;> rfl
    | ok status =>
      dsimp only
      split
      · rfl
      · simp only [Session.perform_bind, Session.perform_readFile]
        cases session.tree.read path <;> rfl

/-- A content is written exactly if the decision asks for it. -/
theorem perform_writeDecided (session : Session) (outcome : Outcome) (path : String)
    (content : Bytes) :
    session.perform (if outcome.isWritten then do
        match ← Surroundings.writeFile path content with
        | .error error => throw (.file path error)
        | .ok _ => return outcome
      else return outcome : ExceptT GenerationError (StateM Session) Outcome) =
      if outcome.isWritten then
        match session.tree.write path content with
        | .error error => (.error (.file path error), session)
        | .ok tree => (.ok outcome, { session with tree })
      else (.ok outcome, session) := by
  split
  · rw [Session.perform_bind, Session.perform_writeFile]
    cases session.tree.write path content <;> rfl
  · rfl

/-- A content is reported if this is asked for and then written if it has to be. -/
theorem perform_writeContent (session : Session) (force verbose : Bool) (path : String)
    (content : Bytes) :
    session.perform (writeContent force verbose path content) =
      match session.tree.outcome force path content with
      | .error error => (.error error, session)
      | .ok outcome =>
        let reported := if verbose then session.report (.artifact outcome path) else session
        if outcome.isWritten then
          match session.tree.write path content with
          | .error error => (.error (.file path error), reported)
          | .ok tree => (.ok outcome, { reported with tree })
        else (.ok outcome, reported) := by
  rw [writeContent, Session.perform_bind, perform_decideOutcome]
  cases session.tree.outcome force path content with
  | error error => rfl
  | ok outcome =>
    cases verbose with
    | false => exact perform_writeDecided session outcome path content
    | true =>
      exact perform_writeDecided (session.report (.artifact outcome path)) outcome path content

/-- A content is either written or already there. -/
theorem perform_writeContent_eq_ok {force verbose : Bool} {outcome : Outcome}
    (succeeded : session.perform (writeContent force verbose path content) = (.ok outcome, after)) :
    session.tree.write path content = .ok after.tree ∨
      (after.tree = session.tree ∧ session.tree.read path = .ok content) := by
  rw [perform_writeContent] at succeeded
  cases decided : session.tree.outcome force path content with
  | error error => simp [decided] at succeeded
  | ok found =>
    cases wanted : found.isWritten with
    | true =>
      cases written : session.tree.write path content with
      | error error => simp [decided, wanted, written] at succeeded
      | ok tree =>
        simp only [decided, wanted, written, if_true, Prod.mk.injEq] at succeeded
        exact .inl (by rw [← succeeded.2])
    | false =>
      have unchanged : found = .unchanged := by cases found <;> simp_all [Outcome.isWritten]
      simp only [decided, wanted, Bool.false_eq_true, if_false, Prod.mk.injEq] at succeeded
      refine .inr ⟨?_, FileTree.read_of_outcome (unchanged ▸ decided)⟩
      rw [← succeeded.2]
      cases verbose <;> rfl

/-- A file that is left unchanged has the content already. -/
theorem read_of_perform_unchanged {force verbose : Bool}
    (performed : session.perform (writeContent force verbose path content) =
      (.ok .unchanged, after)) : session.tree.read path = .ok content := by
  rw [perform_writeContent] at performed
  cases decided : session.tree.outcome force path content with
  | error error => simp [decided] at performed
  | ok found =>
    have unchanged : found = .unchanged := by
      simp only [decided] at performed
      split at performed
      · split at performed
        · cases performed
        · exact Except.ok.inj (Prod.mk.inj performed).1
      · exact Except.ok.inj (Prod.mk.inj performed).1
    exact FileTree.read_of_outcome (unchanged ▸ decided)

theorem perform_writeContent_of_read (verbose : Bool)
    (present : session.tree.read path = .ok content) :
    ∃ after, session.perform (writeContent false verbose path content) = (.ok .unchanged, after) ∧
      after.tree = session.tree := by
  rw [perform_writeContent, FileTree.outcome_of_read present]
  refine ⟨if verbose then session.report (.artifact .unchanged path) else session, rfl, ?_⟩
  cases verbose <;> rfl

theorem perform_writeContent_of_writable {directory name : String}
    (writable : session.tree.Writable directory name) (force verbose : Bool) (content : Bytes) :
    ∃ outcome after, session.perform
      (writeContent force verbose (Path.join directory name) content) = (.ok outcome, after) := by
  obtain ⟨outcome, decided⟩ := FileTree.outcome_of_writable writable force content
  obtain ⟨next, written⟩ := FileTree.write_of_writable writable content
  rw [perform_writeContent, decided, written]
  cases wanted : outcome.isWritten <;> exact ⟨outcome, _, by simp only [wanted]; rfl⟩

/-- Nothing but the files makes a writing fail. -/
theorem perform_writeContent_eq_error {force verbose : Bool} {error : GenerationError}
    (failed : session.perform (writeContent force verbose path content) = (.error error, after)) :
    ∃ cause, error = .file path cause := by
  rw [perform_writeContent] at failed
  cases decided : session.tree.outcome force path content with
  | error cause =>
    simp only [decided, Prod.mk.injEq, Except.error.injEq] at failed
    exact FileTree.outcome_eq_error (failed.1 ▸ decided)
  | ok found =>
    simp only [decided] at failed
    split at failed
    · split at failed <;> cases failed
      exact ⟨_, rfl⟩
    · cases failed

namespace Artifact

/-- An artifact is a file of a directory. -/
structure IsFile (directory : String) (artifact : Artifact) (file : String × Bytes) : Prop where
  plain : Path.IsName file.1
  path_eq : artifact.path = Path.join directory file.1
  content_eq : artifact.content = file.2

/-- The record of an artifact that has its content already. -/
def unchangedRecord (artifact : Artifact) : ArtifactRecord where
  className := artifact.className
  path := artifact.path
  outcome := .unchanged

variable {configuration : Configuration} {directory : String}

/-- A written artifact is recorded and fills its directory with one file. -/
theorem perform_write_eq_ok {artifact : Artifact} {file : String × Bytes} {record : ArtifactRecord}
    (isFile : artifact.IsFile directory file)
    (succeeded : session.perform (artifact.write configuration) = (.ok record, after)) :
    record.className = artifact.className ∧ record.path = artifact.path ∧
      FileTree.Filled directory [file] session.tree after.tree := by
  rw [write, Session.perform_bind_eq_ok] at succeeded
  obtain ⟨outcome, between, performed, recorded⟩ := succeeded
  simp only [Session.perform_pure, Prod.mk.injEq, Except.ok.injEq] at recorded
  obtain ⟨sameRecord, sameSession⟩ := recorded
  subst sameRecord sameSession
  refine ⟨rfl, rfl, ?_⟩
  rw [isFile.path_eq, isFile.content_eq] at performed
  rcases perform_writeContent_eq_ok performed with written | ⟨sameTree, present⟩
  · exact .of_write isFile.plain written
  · rw [sameTree]
    exact .of_read isFile.plain present

/-- The artifacts of a run are recorded in their order and fill their directory. -/
theorem perform_mapM_write_eq_ok {artifacts : List Artifact} {files : List (String × Bytes)}
    {records : List ArtifactRecord}
    (areFiles : List.Forall₂ (IsFile directory) artifacts files)
    (succeeded : session.perform (artifacts.mapM (write configuration)) = (.ok records, after)) :
    records.map (fun record => (record.className, record.path)) =
        artifacts.map (fun artifact => (artifact.className, artifact.path)) ∧
      FileTree.Filled directory files session.tree after.tree := by
  induction areFiles generalizing session records with
  | nil =>
    cases succeeded
    exact ⟨rfl, .refl directory _⟩
  | cons isFile _ inductionHypothesis =>
    rw [List.mapM_cons, Session.perform_bind_eq_ok] at succeeded
    obtain ⟨record, between, performed, rest⟩ := succeeded
    rw [Session.perform_bind_eq_ok] at rest
    obtain ⟨others, last, othersPerformed, collected⟩ := rest
    simp only [Session.perform_pure, Prod.mk.injEq, Except.ok.injEq] at collected
    obtain ⟨sameRecords, sameSession⟩ := collected
    subst sameRecords sameSession
    obtain ⟨sameClass, samePath, filled⟩ := perform_write_eq_ok isFile performed
    obtain ⟨sameOthers, othersFilled⟩ := inductionHypothesis othersPerformed
    exact ⟨by simp [sameClass, samePath, sameOthers], filled.trans othersFilled⟩

theorem perform_write_eq_error {artifact : Artifact} {error : GenerationError}
    (failed : session.perform (artifact.write configuration) = (.error error, after)) :
    ∃ cause, error = .file artifact.path cause := by
  rw [write, Session.perform_bind_eq_error] at failed
  rcases failed with failed | ⟨_, _, _, failed⟩
  · exact perform_writeContent_eq_error failed
  · cases failed

/-- Artifacts whose paths may be written are all written or left alone. -/
theorem perform_mapM_write_of_writable (configuration : Configuration) (session : Session)
    {artifacts : List Artifact} {files : List (String × Bytes)}
    (areFiles : List.Forall₂ (IsFile directory) artifacts files)
    (writable : ∀ file ∈ files, session.tree.Writable directory file.1) :
    ∃ records after,
      session.perform (artifacts.mapM (write configuration)) = (.ok records, after) := by
  induction areFiles generalizing session with
  | nil => exact ⟨[], session, rfl⟩
  | @cons artifact file artifacts files isFile others inductionHypothesis =>
    obtain ⟨outcome, between, performed⟩ := perform_writeContent_of_writable
      (writable file List.mem_cons_self) configuration.force configuration.verbose file.2
    rw [← isFile.path_eq, ← isFile.content_eq] at performed
    have recorded : session.perform (artifact.write configuration) =
        (.ok ⟨artifact.className, artifact.path, outcome⟩, between) := by
      rw [write, Session.perform_bind, performed]
      rfl
    obtain ⟨_, _, filled⟩ := perform_write_eq_ok isFile recorded
    have stillWritable : ∀ other ∈ files, between.tree.Writable directory other.1 :=
      fun other member => filled.writable (writable other (List.mem_cons_of_mem _ member))
    obtain ⟨records, last, othersPerformed⟩ := inductionHypothesis between stillWritable
    refine ⟨⟨artifact.className, artifact.path, outcome⟩ :: records, last, ?_⟩
    rw [List.mapM_cons, Session.perform_bind, recorded]
    simp only [Session.perform_bind, othersPerformed, Session.perform_pure]

/-- Artifacts that have their contents already are left alone unless they are forced. -/
theorem perform_mapM_write_of_read (session : Session) {artifacts : List Artifact}
    (gentle : configuration.force = false)
    (present : ∀ artifact ∈ artifacts, session.tree.read artifact.path = .ok artifact.content) :
    ∃ after, session.perform (artifacts.mapM (write configuration)) =
        (.ok (artifacts.map unchangedRecord), after) ∧ after.tree = session.tree := by
  induction artifacts generalizing session with
  | nil => exact ⟨session, rfl, rfl⟩
  | cons artifact artifacts inductionHypothesis =>
    obtain ⟨between, performed, sameTree⟩ := perform_writeContent_of_read configuration.verbose
      (present artifact List.mem_cons_self)
    have stillPresent : ∀ other ∈ artifacts, between.tree.read other.path = .ok other.content :=
      fun other member => sameTree ▸ present other (List.mem_cons_of_mem _ member)
    obtain ⟨last, othersPerformed, stillSame⟩ := inductionHypothesis between stillPresent
    refine ⟨last, ?_, stillSame.trans sameTree⟩
    simp [write, gentle, Session.perform_bind, performed, othersPerformed, unchangedRecord,
      Except.map]

end Artifact

end NativePeer
