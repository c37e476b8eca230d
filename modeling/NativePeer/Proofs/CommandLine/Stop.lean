import NativePeer.Proofs.CommandLine.Failure
import NativePeer.Proofs.Generation.Force

/-
This file shows that a run stops at a document that is no good before it touches a file for it.
-/

namespace NativePeer

variable {model : ClassModel} {configuration : Configuration}

theorem ClassModel.render_of_invalid {cause : ModelError}
    (invalid : model.validate = .error cause) :
    (model.render configuration).result = .error (.model cause) := by
  rw [render, Logged.result_bind, Logged.result_ofExcept, except_bind_eq_error]
  exact .inl (mapError_eq_error.mpr ⟨cause, invalid, rfl⟩)

namespace CommandLine

/-- A document cannot be read, parsed, validated or rendered. -/
inductive Unusable (configuration : Configuration) (tree : FileTree) (path : String) :
    GenerationError → Prop
  | unread {cause : FileError} (failed : tree.read path = .error cause) :
    Unusable configuration tree path (.document (.unreadable cause))
  | unparsed {content : Text.Bytes} {cause : DocumentError} (found : tree.read path = .ok content)
      (failed : Document.decode content = .error cause) :
    Unusable configuration tree path (.document cause)
  | invalid {content : Text.Bytes} {model : ClassModel} {cause : ModelError}
      (found : tree.read path = .ok content) (decoded : Document.decode content = .ok model)
      (failed : model.validate = .error cause) :
    Unusable configuration tree path (.model cause)
  | unrendered {content : Text.Bytes} {model : ClassModel} {error : GenerationError}
      (found : tree.read path = .ok content) (decoded : Document.decode content = .ok model)
      (valid : model.validate = .ok ())
      (failed : (model.render configuration).result = .error error) :
    Unusable configuration tree path error

variable {session before start middle after : Session} {path : String} {error : GenerationError}

/-- A document is read as a model, and the model is generated. -/
theorem perform_generateModel (path : String) (session : Session) :
    session.perform (generateModel configuration path) =
      match (session.tree.read path).mapError DocumentError.unreadable >>= Document.decode with
      | .error cause => (.error (.document cause), session.report (.reading path))
      | .ok model => (session.report (.reading path)).perform (model.generate configuration) := by
  rw [generateModel, Session.perform_bind, Session.perform_report]
  dsimp only
  rw [generateFile, Session.perform_bind, Session.perform_adapt, perform_readModel]
  have same : (session.report (.reading path)).tree = session.tree := rfl
  rw [same]
  cases (session.tree.read path).mapError DocumentError.unreadable >>= Document.decode <;> rfl

/-- A model that is not rendered leaves no file behind. -/
theorem perform_generateModel_of_unrendered {content : Text.Bytes}
    (found : session.tree.read path = .ok content)
    (decoded : Document.decode content = .ok model)
    (failed : (model.render configuration).result = .error error) :
    ∃ after, session.perform (generateModel configuration path) = (.error error, after) ∧
      after.tree = session.tree := by
  have readModel : ((session.tree.read path).mapError DocumentError.unreadable >>=
      Document.decode) = .ok model := by
    rw [found]
    exact decoded
  rw [perform_generateModel, readModel]
  exact ⟨_, perform_generate_of_unrendered failed _, rfl⟩

/-- A document that is no good leaves no file behind. -/
theorem Unusable.perform (unusable : Unusable configuration session.tree path error) :
    ∃ after, session.perform (generateModel configuration path) = (.error error, after) ∧
      after.tree = session.tree := by
  cases unusable with
  | unread failed =>
    rw [perform_generateModel, failed]
    exact ⟨_, rfl, rfl⟩
  | @unparsed content cause found failed =>
    have unread : ((session.tree.read path).mapError DocumentError.unreadable >>=
        Document.decode) = .error cause := by
      rw [found]
      exact failed
    rw [perform_generateModel, unread]
    exact ⟨_, rfl, rfl⟩
  | invalid found decoded failed =>
    exact perform_generateModel_of_unrendered found decoded (ClassModel.render_of_invalid failed)
  | unrendered found decoded valid failed =>
    exact perform_generateModel_of_unrendered found decoded failed

variable {options : Options} {host : Host}

/-- Past the output directory a run goes from document to document. -/
theorem perform_generateAll_of_created (options : Options)
    (configured : options.configuration host = .ok configuration)
    (created : before.perform (E := GenerationError)
      (createDirectories configuration.outputDirectory) = (.ok (.ok ()), start)) :
    before.perform (generateAll options host) =
      start.perform (options.models.mapM fun path => do
        return (path, ← generateModel configuration path)) := by
  simp only [generateAll, Session.perform_bind, Session.perform_mk_pure, configured, created]

/-- Past the output directory a run fails at the first document that fails, in the session that
the documents before it have left. -/
theorem perform_generateAll_eq_error
    (configured : options.configuration host = .ok configuration)
    (created : before.perform (E := GenerationError)
      (createDirectories configuration.outputDirectory) = (.ok (.ok ()), start)) :
    before.perform (generateAll options host) = (.error error, after) ↔
      ∃ earlier path later reports middle, options.models = earlier ++ path :: later ∧
        before.perform (generateAll { options with models := earlier } host) =
          (.ok reports, middle) ∧
        middle.perform (generateModel configuration path) = (.error error, after) := by
  have reached (models : List String) :
      before.perform (generateAll { options with models } host) =
        start.perform (models.mapM fun path => do
          return (path, ← generateModel configuration path)) :=
    perform_generateAll_of_created { options with models } configured created
  have failsAlike (middle : Session) (path : String) :
      middle.perform (do return (path, ← generateModel configuration path)) =
          (.error error, after) ↔
        middle.perform (generateModel configuration path) = (.error error, after) := by
    rw [Session.perform_bind_eq_error]
    simp
  rw [perform_generateAll_of_created options configured created, Session.perform_mapM_eq_error]
  simp only [reached, failsAlike]

/-- A run stops at the first document that cannot be read, parsed, validated or rendered. It leaves
the files that a run over the documents before it leaves, which are those with the output directory
alone if there is none before it. It prints nothing and ends with its own status. -/
theorem run_leaves_no_trace {arguments earlier later : List String} {ending : Ending}
    (asked : Invocation.ofArguments arguments = .generate options)
    (configured : options.configuration host = .ok configuration)
    (created : before.perform (E := GenerationError)
      (createDirectories configuration.outputDirectory) = (.ok (.ok ()), start))
    (listed : options.models = earlier ++ path :: later)
    (performed : (runOptions { options with models := earlier } host : StateM Session Ending).run
      before = (ending, middle))
    (succeeded : ending.status = 0)
    (unusable : Unusable configuration middle.tree path error) :
    ∃ after, (run arguments host : StateM Session Ending).run before =
        (⟨15, "", some ("jnipeer: " ++ error.message)⟩, after) ∧
      after.tree = middle.tree ∧ (earlier = [] → after.tree = start.tree) := by
  obtain ⟨reports, handled⟩ := runOptions_succeeds_iff.mp ⟨ending, performed, succeeded⟩
  obtain ⟨after, refused, untouched⟩ := unusable.perform
  have external : error.isInternal = false := perform_generateModel_not_internal refused
  have stopped := (perform_generateAll_eq_error configured created).mpr
    ⟨earlier, path, later, reports, middle, listed, handled, refused⟩
  refine ⟨after.report (.failed error), ?_, untouched, ?_⟩
  · rw [run, asked]
    dsimp only
    rw [run_runOptions, stopped]
    simp only [GenerationError.exitStatus, external, Bool.false_eq_true, if_false]
  · intro first
    subst first
    have none := perform_generateAll_of_created { options with models := [] } configured created
    cases handled.symm.trans none
    exact untouched

/-- The second document is the output directory. -/
theorem run_leaves_no_trace_directory :
    ∃ first middle error last after,
      (runOptions { carOptions with models := ["a.xml"] } .unix : StateM Session Ending).run
          ⟨carFiles, []⟩ = (first, middle) ∧ first.status = 0 ∧
        Unusable carConfiguration middle.tree "out" error ∧
        (run ["-d", "out", "a.xml", "out", "b.xml"] .unix : StateM Session Ending).run
          ⟨carFiles, []⟩ = (last, after) ∧
        last.status = 15 ∧ last.output = "" ∧ after.tree = middle.tree := by
  obtain ⟨reading, middle, generates, path, _⟩ := generates_car
  have created : (Session.mk carFiles []).perform (E := GenerationError)
      (createDirectories "out") = (.ok (.ok ()), ⟨carFiles, []⟩) := by rfl
  have handled : ∃ reports, (Session.mk carFiles []).perform
      (generateAll { carOptions with models := ["a.xml"] } .unix) = (.ok reports, middle) :=
    perform_generateAll_eq_ok.mpr ⟨carConfiguration, _, _, rfl, created, generates,
      congrArg List.singleton path⟩
  obtain ⟨first, performed, succeeded⟩ := runOptions_succeeds_iff.mpr handled
  have kept : middle.tree.entryAt? ["out"] = some .directory := by
    rw [carFiles_kept generates.filled (by simp)]
    rfl
  have unusable : Unusable carConfiguration middle.tree "out"
      (.document (.unreadable .isDirectory)) := by
    apply Unusable.unread
    exact FileTree.read_of_directory rfl kept
  have asked : Invocation.ofArguments ["-d", "out", "a.xml", "out", "b.xml"] =
      .generate { carOptions with models := ["a.xml"] ++ "out" :: ["b.xml"] } := by decide
  obtain ⟨after, stopped, same, _⟩ :=
    run_leaves_no_trace asked rfl created rfl performed succeeded unusable
  exact ⟨first, middle, _, _, after, performed, succeeded, unusable, stopped, rfl, rfl, same⟩

end CommandLine

end NativePeer
