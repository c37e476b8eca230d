import NativePeer.Proofs.Generation.Run

/-
This file shows that a generation leaves the same files whether or not it is forced.
-/

namespace NativePeer

open Text

namespace FileTree

variable {tree : FileTree}

theorem replace_of_lookup {place : List String} {entry : Entry}
    {entries : List (List String × Entry)} (found : entries.lookup place = some entry) :
    replace place entry entries = entries := by
  induction entries with
  | nil => simp at found
  | cons first entries inductionHypothesis =>
    obtain ⟨other, old⟩ := first
    rw [replace]
    by_cases same : other = place
    · subst same
      rw [List.lookup_cons_self, Option.some_inj] at found
      rw [if_pos rfl, found]
    · have apart : (place == other) = false := beq_false_of_ne (Ne.symm same)
      rw [List.lookup_cons, apart] at found
      rw [if_neg same, inductionHypothesis found]

/-- An entry that is set again leaves the tree as it is. -/
theorem set_of_entryAt? {place : List String} {entry : Entry} (inside : place ≠ [])
    (found : tree.entryAt? place = some entry) : tree.set place entry = tree := by
  rw [entryAt?, if_neg inside] at found
  rw [set, replace_of_lookup found]

/-- The status of a path is that of the entry at its place. -/
theorem status_eq (tree : FileTree) (path : String) :
    tree.status path =
      match tree.resolve path with
      | .error error => .error error
      | .ok place =>
        match tree.entryAt? place with
        | none => .error .notFound
        | some entry => .ok (entry.status tree.directorySize) := by
  unfold status locate resolve
  cases stepsOf path with
  | error error => rfl
  | ok steps =>
    dsimp only
    cases tree.follow [] steps with
    | error error => rfl
    | ok place =>
      dsimp only
      cases tree.entryAt? place <;> rfl

section Names

variable {directory name : String} {content : Bytes} (plain : Path.IsName name)

include plain

/-- A file that has its content already may be written once more. -/
theorem write_of_read (present : tree.read (Path.join directory name) = .ok content) :
    tree.write (Path.join directory name) content = .ok tree := by
  obtain ⟨place, resolved, found⟩ := read_eq_ok.mp present
  obtain ⟨_, _, home, reached, same⟩ := (resolve_join_eq_ok plain).mp resolved
  subst same
  apply (write_join_eq_ok plain).mpr
  have free : tree.entryAt? (home ++ [name]) ≠ some .directory := by
    rw [found]
    simp
  exact ⟨home, reached, resolved, free, (set_of_entryAt? (by simp) found).symm⟩

/-- A path without a place is not written for the same reason. -/
theorem write_of_resolve_eq_error {error : FileError}
    (lost : tree.resolve (Path.join directory name) = .error error) :
    tree.write (Path.join directory name) content = .error error := by
  unfold resolve at lost
  unfold write
  rw [target_join plain]
  cases accepted : stepsOf (Path.join directory name) with
  | error cause =>
    rw [accepted] at lost
    exact congrArg Except.error (Except.error.inj lost)
  | ok steps =>
    rw [accepted, stepsOf_eq_ok accepted, Path.steps_join plain] at lost
    dsimp only at lost ⊢
    rw [follow_append_name plain, ← directoryAt_eq] at lost
    cases reached : tree.directoryAt directory with
    | error cause =>
      rw [reached] at lost
      exact congrArg Except.error (Except.error.inj lost)
    | ok home =>
      rw [reached] at lost
      dsimp only at lost ⊢
      by_cases long : nameLimit < name.utf8ByteSize
      · have dots : isDots name = false := by simp [isDots, plain.notHere, plain.notAbove]
        rw [if_pos long] at lost
        simp only [dots, long, Bool.false_eq_true, or_self, if_false, if_true]
        exact congrArg Except.error (Except.error.inj lost)
      · rw [if_neg long] at lost
        cases lost

/-- What cannot be inspected cannot be written for the same reason. -/
theorem write_of_outcome_eq_error {error : GenerationError}
    (failed : tree.outcome false (Path.join directory name) content = .error error) :
    ∃ cause, error = .file (Path.join directory name) cause ∧
      tree.write (Path.join directory name) content = .error cause := by
  unfold outcome at failed
  rw [if_neg Bool.false_ne_true, status_eq] at failed
  cases resolved : tree.resolve (Path.join directory name) with
  | error cause =>
    rw [resolved] at failed
    refine ⟨cause, ?_, write_of_resolve_eq_error plain resolved⟩
    cases cause <;> cases failed <;> rfl
  | ok place =>
    rw [resolved] at failed
    rcases found : tree.entryAt? place with _ | existing | _
    · simp only [found] at failed
      cases failed
    · have present := read_eq_ok.mpr ⟨place, resolved, found⟩
      simp only [found, present] at failed
      split at failed <;> cases failed
    · simp only [found, read_of_directory resolved found] at failed
      split at failed
      · cases failed
      · cases failed
        exact ⟨.isDirectory, rfl, write_join_of_directory plain resolved found⟩

end Names

/-- Every artifact is written in turn whatever is there, up to the first that is refused. -/
def writeAll (tree : FileTree) : List Artifact → FileTree × Option (Artifact × FileError)
  | [] => (tree, none)
  | artifact :: artifacts =>
    match tree.write artifact.path artifact.content with
    | .error cause => (tree, some (artifact, cause))
    | .ok next => writeAll next artifacts

end FileTree

variable {session : Session} {directory : String} {configuration : Configuration}

/-- A content that is refused is refused whatever is decided about it. -/
theorem perform_writeContent_of_refused {name : String} (plain : Path.IsName name)
    (force verbose : Bool) {content : Bytes} {cause : FileError}
    (refused : session.tree.write (Path.join directory name) content = .error cause) :
    ∃ after, session.perform (writeContent force verbose (Path.join directory name) content) =
        (.error (.file (Path.join directory name) cause), after) ∧
      after.tree = session.tree := by
  rw [perform_writeContent]
  cases decided : session.tree.outcome force (Path.join directory name) content with
  | error error =>
    cases force with
    | true => cases decided
    | false =>
      obtain ⟨other, same, otherRefused⟩ := FileTree.write_of_outcome_eq_error plain decided
      cases refused.symm.trans otherRefused
      exact ⟨session, by rw [same], rfl⟩
  | ok outcome =>
    have wanted : outcome.isWritten = true := by
      cases outcome with
      | unchanged =>
        have present := FileTree.read_of_outcome decided
        cases refused.symm.trans (FileTree.write_of_read plain present)
      | created => rfl
      | overwritten => rfl
      | forced => rfl
    rw [refused]
    simp only [wanted, if_true]
    exact ⟨_, rfl, by cases verbose <;> rfl⟩

/-- A content that may be written is there afterwards whatever is decided about it. -/
theorem perform_writeContent_of_written {name : String} (plain : Path.IsName name)
    (force verbose : Bool) {content : Bytes} {tree : FileTree}
    (written : session.tree.write (Path.join directory name) content = .ok tree) :
    ∃ outcome after,
      session.perform (writeContent force verbose (Path.join directory name) content) =
        (.ok outcome, after) ∧ after.tree = tree := by
  rw [perform_writeContent]
  cases decided : session.tree.outcome force (Path.join directory name) content with
  | error error =>
    cases force with
    | true => cases decided
    | false =>
      obtain ⟨cause, _, refused⟩ := FileTree.write_of_outcome_eq_error plain decided
      cases written.symm.trans refused
  | ok outcome =>
    rw [written]
    cases wanted : outcome.isWritten with
    | true =>
      simp only [wanted, if_true]
      exact ⟨outcome, _, rfl, rfl⟩
    | false =>
      have unchanged : outcome = .unchanged := by cases outcome <;> simp_all [Outcome.isWritten]
      have present := FileTree.read_of_outcome (unchanged ▸ decided)
      cases written.symm.trans (FileTree.write_of_read plain present)
      simp only [wanted, Bool.false_eq_true, if_false]
      exact ⟨outcome, _, rfl, by cases verbose <;> rfl⟩

namespace Artifact

/-- A sequence of artifacts leaves what writing all of them leaves, and fails where that fails. -/
theorem perform_mapM_write (configuration : Configuration) {artifacts : List Artifact}
    {files : List (String × Bytes)}
    (areFiles : List.Forall₂ (IsFile directory) artifacts files) (session : Session) :
    match session.tree.writeAll artifacts with
    | (tree, none) => ∃ records after,
        session.perform (artifacts.mapM (write configuration)) = (.ok records, after) ∧
          after.tree = tree
    | (tree, some (artifact, cause)) => ∃ after,
        session.perform (artifacts.mapM (write configuration)) =
            (.error (.file artifact.path cause), after) ∧
          after.tree = tree := by
  induction areFiles generalizing session with
  | nil => exact ⟨[], session, rfl, rfl⟩
  | @cons artifact file artifacts files isFile _ inductionHypothesis =>
    rw [List.mapM_cons, FileTree.writeAll, isFile.path_eq, Session.perform_bind, write,
      Session.perform_bind, isFile.path_eq]
    cases written : session.tree.write (Path.join directory file.1) artifact.content with
    | error cause =>
      obtain ⟨after, performed, same⟩ := perform_writeContent_of_refused isFile.plain
        configuration.force configuration.verbose written
      rw [performed, ← isFile.path_eq]
      exact ⟨after, rfl, same⟩
    | ok tree =>
      obtain ⟨outcome, between, performed, same⟩ := perform_writeContent_of_written isFile.plain
        configuration.force configuration.verbose written
      rw [performed, ← same]
      simp only [Session.perform_pure, Session.perform_bind]
      have others := inductionHypothesis between
      generalize between.tree.writeAll artifacts = rest at others ⊢
      rcases rest with ⟨last, _ | ⟨refused, cause⟩⟩
      · obtain ⟨records, after, othersPerformed, sameTree⟩ := others
        simp only [othersPerformed]
        exact ⟨_, after, rfl, sameTree⟩
      · obtain ⟨after, othersPerformed, sameTree⟩ := others
        simp only [othersPerformed]
        exact ⟨after, rfl, sameTree⟩

end Artifact

variable {model : ClassModel}

/-- A generation leaves what writing all its artifacts leaves, and fails where that fails. -/
theorem perform_generate_of_rendered {sources : List PeerSource}
    (rendered : (model.render configuration).result = .ok sources) (session : Session) :
    match session.tree.writeAll (sources.flatMap (PeerSource.artifacts configuration)) with
    | (tree, none) => ∃ report after,
        session.perform (model.generate configuration) = (.ok report, after) ∧
          after.tree = tree ∧
          report.artifacts.map (fun record => (record.className, record.path)) =
            (sources.flatMap (PeerSource.artifacts configuration)).map
              fun artifact => (artifact.className, artifact.path)
    | (tree, some (artifact, cause)) => ∃ after,
        session.perform (model.generate configuration) =
            (.error (.file artifact.path cause), after) ∧
          after.tree = tree := by
  have areFiles := ClassModel.isFile_artifacts rendered
  have written := Artifact.perform_mapM_write configuration areFiles
    { session with log := session.log ++ (model.render configuration).log }
  rw [ClassModel.generate, Session.perform_bind, perform_run, rendered]
  dsimp only at written ⊢
  rw [Session.perform_bind]
  generalize session.tree.writeAll _ = rest at written ⊢
  rcases rest with ⟨tree, _ | ⟨artifact, cause⟩⟩
  · obtain ⟨records, after, performed, same⟩ := written
    obtain ⟨listed, _⟩ := Artifact.perform_mapM_write_eq_ok areFiles performed
    simp only [performed]
    exact ⟨⟨records⟩, _, rfl, same, listed⟩
  · obtain ⟨after, performed, same⟩ := written
    simp only [performed]
    exact ⟨after, rfl, same⟩

theorem perform_generate_of_unrendered {error : GenerationError}
    (failed : (model.render configuration).result = .error error) (session : Session) :
    session.perform (model.generate configuration) =
      (.error error, { session with log := session.log ++ (model.render configuration).log }) := by
  rw [ClassModel.generate, Session.perform_bind, perform_run, failed]

/-- A generation that is forced and one that is not leave the same files. Both list the same
artifacts, or both fail with one error before the first artifact or at the same one. -/
theorem generate_force_irrelevant (model : ClassModel) (configuration : Configuration)
    (session : Session) :
    ∃ gentle forced gentleAfter forcedAfter,
      session.perform (model.generate { configuration with force := false }) =
          (gentle, gentleAfter) ∧
        session.perform (model.generate { configuration with force := true }) =
          (forced, forcedAfter) ∧
        gentleAfter.tree = forcedAfter.tree ∧
        ((∃ sources report other, (model.render configuration).result = .ok sources ∧
            gentle = .ok report ∧ forced = .ok other ∧
            session.tree.writeAll (sources.flatMap (PeerSource.artifacts configuration)) =
              (gentleAfter.tree, none) ∧
            report.artifacts.map (fun record => (record.className, record.path)) =
              other.artifacts.map fun record => (record.className, record.path)) ∨
          ∃ error, gentle = .error error ∧ forced = .error error ∧
            ((model.render configuration).result = .error error ∧
                gentleAfter.tree = session.tree ∨
              ∃ sources artifact cause, (model.render configuration).result = .ok sources ∧
                session.tree.writeAll (sources.flatMap (PeerSource.artifacts configuration)) =
                  (gentleAfter.tree, some (artifact, cause)) ∧
                error = .file artifact.path cause)) := by
  have sameResult (force : Bool) : (model.render { configuration with force }).result =
      (model.render configuration).result :=
    congrArg Logged.result (ClassModel.render_force model configuration force)
  have sameArtifacts (force : Bool) : PeerSource.artifacts { configuration with force } =
      PeerSource.artifacts configuration := rfl
  cases rendered : (model.render configuration).result with
  | error error =>
    have gentle := perform_generate_of_unrendered ((sameResult false).trans rendered) session
    have forced := perform_generate_of_unrendered ((sameResult true).trans rendered) session
    refine ⟨_, _, _, _, gentle, forced, rfl, .inr ⟨error, rfl, rfl, ?_⟩⟩
    exact .inl ⟨rfl, rfl⟩
  | ok sources =>
    have gentle := perform_generate_of_rendered ((sameResult false).trans rendered) session
    have forced := perform_generate_of_rendered ((sameResult true).trans rendered) session
    rw [sameArtifacts] at gentle forced
    rcases written : session.tree.writeAll
      (sources.flatMap (PeerSource.artifacts configuration)) with ⟨tree, _ | ⟨artifact, cause⟩⟩
    · rw [written] at gentle forced
      obtain ⟨report, gentleAfter, performed, rfl, listed⟩ := gentle
      obtain ⟨other, forcedAfter, otherPerformed, otherTree, otherListed⟩ := forced
      refine ⟨_, _, _, _, performed, otherPerformed, otherTree.symm, .inl ?_⟩
      exact ⟨sources, report, other, rfl, rfl, rfl, written, listed.trans otherListed.symm⟩
    · rw [written] at gentle forced
      obtain ⟨gentleAfter, performed, rfl⟩ := gentle
      obtain ⟨forcedAfter, otherPerformed, otherTree⟩ := forced
      refine ⟨_, _, _, _, performed, otherPerformed, otherTree.symm, .inr ⟨_, rfl, rfl, .inr ?_⟩⟩
      exact ⟨sources, artifact, cause, rfl, written, rfl⟩

end NativePeer
