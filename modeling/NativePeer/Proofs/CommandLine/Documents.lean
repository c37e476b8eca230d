import NativePeer.CommandLine.Program
import NativePeer.Proofs.Generation.Run

/-
This file says which artifacts a run over several documents keeps.
-/

namespace NativePeer.CommandLine

/-- A document of a run with the model that was read from it and what was rendered for it. -/
structure Reading where
  path : String
  model : ClassModel
  sources : List PeerSource

/-- The documents are read and generated one after the other. -/
inductive Generates (configuration : Configuration) : Session → List Reading → Session → Prop
  | nil (session : Session) : Generates configuration session [] session
  | cons {before after last : Session} {reading : Reading} {content : Text.Bytes}
      {report : Report} {readings : List Reading}
      (found : before.tree.read reading.path = .ok content)
      (decoded : Document.decode content = .ok reading.model)
      (rendered : (reading.model.render configuration).result = .ok reading.sources)
      (generated : (before.report (.reading reading.path)).perform
        (reading.model.generate configuration) = (.ok report, after))
      (others : Generates configuration after readings last) :
      Generates configuration before (reading :: readings) last

namespace Reading

/-- All files that are rendered for a document. -/
def files (reading : Reading) : List (String × Text.Bytes) :=
  reading.sources.flatMap PeerSource.files

/-- Each file of a document is found in the directory as it was rendered. -/
def IsKept (directory : String) (tree : FileTree) (reading : Reading) : Prop :=
  ∀ source ∈ reading.sources, ∀ file ∈ source.files,
    tree.read (Path.join directory file.1) = .ok file.2

end Reading

/-- Sources of a run that share a base name have the same files. -/
def Agree (readings : List Reading) : Prop :=
  ∀ first ∈ readings, ∀ second ∈ readings, ∀ source ∈ first.sources, ∀ other ∈ second.sources,
    source.baseName = other.baseName → source.header = other.header ∧ source.source = other.source

variable {configuration : Configuration} {before after : Session} {readings : List Reading}

namespace Generates

/-- The documents of a run may be generated in two parts. -/
theorem append {others : List Reading} {last : Session}
    (first : Generates configuration before readings after)
    (second : Generates configuration after others last) :
    Generates configuration before (readings ++ others) last := by
  induction first with
  | nil => exact second
  | cons found decoded rendered generated _ inductionHypothesis =>
    exact .cons found decoded rendered generated (inductionHypothesis second)

/-- No two sources of one document share a base name. -/
theorem nodup_baseName (run : Generates configuration before readings after) :
    ∀ reading ∈ readings, (reading.sources.map PeerSource.baseName).Nodup := by
  induction run with
  | nil => simp
  | cons _ _ rendered _ _ inductionHypothesis =>
    exact List.forall_mem_cons.mpr
      ⟨(ClassModel.names_of_render rendered).2, inductionHypothesis⟩

/-- A run fills the output directory with the files of its documents. -/
theorem filled (run : Generates configuration before readings after) :
    FileTree.Filled configuration.outputDirectory (readings.flatMap Reading.files)
      before.tree after.tree := by
  induction run with
  | nil => exact .refl _ _
  | cons _ _ rendered generated _ inductionHypothesis =>
    obtain ⟨sources, renderedAgain, _, filled⟩ := perform_generate_filled generated
    have same := Except.ok.inj (renderedAgain.symm.trans rendered)
    rw [List.flatMap_cons, Reading.files, ← same]
    exact filled.trans inductionHypothesis

/-- The paths of a run determine its documents and what it leaves. -/
theorem unique (run : Generates configuration before readings after) {others : List Reading}
    {last : Session} (other : Generates configuration before others last)
    (samePaths : readings.map Reading.path = others.map Reading.path) :
    readings = others ∧ after = last := by
  induction run generalizing others with
  | nil =>
    rw [List.map_nil, eq_comm, List.map_eq_nil_iff] at samePaths
    subst samePaths
    cases other
    exact ⟨rfl, rfl⟩
  | @cons before _ _ reading _ _ _ found decoded rendered generated _ inductionHypothesis =>
    cases other with
    | nil => simp at samePaths
    | @cons _ _ _ otherReading _ _ _ otherFound otherDecoded otherRendered otherGenerated rest =>
      obtain ⟨path, model, sources⟩ := reading
      obtain ⟨otherPath, otherModel, otherSources⟩ := otherReading
      rw [List.map_cons, List.map_cons, List.cons.injEq] at samePaths
      obtain ⟨rfl, samePaths⟩ := samePaths
      cases found.symm.trans otherFound
      cases decoded.symm.trans otherDecoded
      cases rendered.symm.trans otherRendered
      cases generated.symm.trans otherGenerated
      obtain ⟨rfl, rfl⟩ := inductionHypothesis rest samePaths
      exact ⟨rfl, rfl⟩

/-- A run keeps all artifacts exactly if sources with one base name are equal. -/
theorem isKept_iff_agree (run : Generates configuration before readings after) :
    (∀ reading ∈ readings, reading.IsKept configuration.outputDirectory after.tree) ↔
      Agree readings := by
  constructor
  · intro kept first firstMember second secondMember source sourceMember other otherMember same
    have header := kept first firstMember source sourceMember
      (source.baseName ++ ".h", source.header) (by simp [PeerSource.files])
    have otherHeader := kept second secondMember other otherMember
      (other.baseName ++ ".h", other.header) (by simp [PeerSource.files])
    have definition := kept first firstMember source sourceMember
      (source.baseName ++ ".cpp", source.source) (by simp [PeerSource.files])
    have otherDefinition := kept second secondMember other otherMember
      (other.baseName ++ ".cpp", other.source) (by simp [PeerSource.files])
    rw [same] at header definition
    exact ⟨Except.ok.inj (header.symm.trans otherHeader),
      Except.ok.inj (definition.symm.trans otherDefinition)⟩
  · intro agree reading member source sourceMember file written
    have listed : file ∈ readings.flatMap Reading.files :=
      List.mem_flatMap.mpr ⟨reading, member, List.mem_flatMap.mpr ⟨source, sourceMember, written⟩⟩
    cases last : FileTree.lastContent? (readings.flatMap Reading.files) file.1 with
    | none => exact absurd rfl (FileTree.lastContent?_eq_none.mp last file listed)
    | some content =>
      obtain ⟨second, secondMember, inside⟩ :=
        List.mem_flatMap.mp (FileTree.mem_of_lastContent? last)
      obtain ⟨other, otherMember, otherWritten⟩ := List.mem_flatMap.mp inside
      obtain ⟨sameBase, header | definition⟩ := PeerSource.shared_name written otherWritten
      · have same := (agree reading member second secondMember source sourceMember other
          otherMember sameBase).1
        rw [run.filled.read last, header.1, header.2, same]
      · have same := (agree reading member second secondMember source sourceMember other
          otherMember sameBase).2
        rw [run.filled.read last, definition.1, definition.2, same]

end Generates

theorem perform_generateModel_eq_ok {path : String} {report : Report} :
    before.perform (generateModel configuration path) = (.ok report, after) ↔
      ∃ content model, before.tree.read path = .ok content ∧
        Document.decode content = .ok model ∧
        (before.report (.reading path)).perform (model.generate configuration) =
          (.ok report, after) := by
  rw [generateModel, Session.perform_bind, Session.perform_report]
  exact perform_generateFile_eq_ok

/-- The documents of a run that succeeds are generated one after the other. -/
theorem perform_mapM_generateModel {paths : List String} :
    (∃ reports, before.perform (paths.mapM fun path => do
        return (path, ← generateModel configuration path)) = (.ok reports, after)) ↔
      ∃ readings, Generates configuration before readings after ∧
        readings.map Reading.path = paths := by
  constructor
  · intro parts
    obtain ⟨reports, performed⟩ := parts
    induction paths generalizing before reports with
    | nil =>
      cases performed
      exact ⟨[], .nil _, rfl⟩
    | cons path paths inductionHypothesis =>
      rw [List.mapM_cons, Session.perform_bind_eq_ok] at performed
      obtain ⟨first, between, handled, rest⟩ := performed
      rw [Session.perform_bind_eq_ok] at handled rest
      obtain ⟨report, middle, generatedModel, collected⟩ := handled
      obtain ⟨others, last, othersPerformed, finished⟩ := rest
      cases collected
      cases finished
      obtain ⟨content, model, found, decoded, generated⟩ :=
        perform_generateModel_eq_ok.mp generatedModel
      obtain ⟨sources, rendered, _⟩ := perform_generate_filled generated
      obtain ⟨readings, run, same⟩ := inductionHypothesis others othersPerformed
      refine ⟨⟨path, model, sources⟩ :: readings, ?_, by rw [List.map_cons, same]⟩
      exact .cons found decoded rendered generated run
  · intro parts
    obtain ⟨readings, run, rfl⟩ := parts
    induction run with
    | nil => exact ⟨[], rfl⟩
    | @cons before after last reading content report readings found decoded rendered generated
        others inductionHypothesis =>
      obtain ⟨reports, performed⟩ := inductionHypothesis
      refine ⟨(reading.path, report) :: reports, ?_⟩
      have handled := perform_generateModel_eq_ok.mpr ⟨content, reading.model, found, decoded,
        generated⟩
      rw [List.map_cons, List.mapM_cons]
      simp only [Session.perform_bind, handled, performed, Session.perform_pure]

variable {options : Options} {host : Host}

/-- A run generates its documents once the configuration and the output directory are there. -/
theorem perform_generateAll_eq_ok :
    (∃ reports, before.perform (generateAll options host) = (.ok reports, after)) ↔
      ∃ configuration start readings, options.configuration host = .ok configuration ∧
        before.perform (E := GenerationError) (createDirectories configuration.outputDirectory) =
          (.ok (.ok ()), start) ∧
        Generates configuration start readings after ∧
        readings.map Reading.path = options.models := by
  simp only [generateAll, Session.perform_bind_eq_ok, Session.perform_mk_pure, Prod.mk.injEq]
  constructor
  · intro parts
    obtain ⟨reports, configuration, _, ⟨configured, rfl⟩, made, start, created, rest⟩ := parts
    cases made with
    | error error => simp at rest
    | ok =>
      obtain ⟨readings, run, same⟩ := perform_mapM_generateModel.mp ⟨reports, rest⟩
      exact ⟨configuration, start, readings, configured, created, run, same⟩
  · intro parts
    obtain ⟨configuration, start, readings, configured, created, run, same⟩ := parts
    obtain ⟨reports, performed⟩ := perform_mapM_generateModel.mpr ⟨readings, run, same⟩
    exact ⟨reports, configuration, before, ⟨configured, rfl⟩, .ok (), start, created, performed⟩

/-- The program ends as its run does. -/
theorem run_runOptions (options : Options) (host : Host) (session : Session) :
    (runOptions options host : StateM Session Ending).run session =
      match session.perform (generateAll options host) with
      | (.ok reports, after) =>
        (⟨0, String.join (reports.map fun (path, result) => summary path result), none⟩, after)
      | (.error error, after) =>
        (⟨error.exitStatus, "", some ("jnipeer: " ++ error.message)⟩,
          after.report (.failed error)) := by
  unfold runOptions
  rw [Session.run_bind_perform]
  rcases session.perform (generateAll options host) with ⟨_ | _, after⟩ <;> rfl

theorem exitStatus_ne_zero (error : GenerationError) : error.exitStatus ≠ 0 := by
  unfold GenerationError.exitStatus
  split <;> decide

/-- A run over given options succeeds exactly if all its documents are generated. -/
theorem runOptions_succeeds_iff :
    (∃ ending, (runOptions options host : StateM Session Ending).run before = (ending, after) ∧
        ending.status = 0) ↔
      ∃ reports, before.perform (generateAll options host) = (.ok reports, after) := by
  rw [run_runOptions]
  rcases before.perform (generateAll options host) with ⟨error | reports, last⟩
  · constructor
    · intro parts
      obtain ⟨ending, same, succeeded⟩ := parts
      cases same
      exact absurd succeeded (exitStatus_ne_zero error)
    · intro parts
      obtain ⟨_, same⟩ := parts
      cases same
  · constructor
    · intro parts
      obtain ⟨ending, same, _⟩ := parts
      cases same
      exact ⟨reports, rfl⟩
    · intro parts
      obtain ⟨_, same⟩ := parts
      cases same
      exact ⟨_, rfl, rfl⟩

/-- The program succeeds exactly if all its documents are generated. -/
theorem run_succeeds_iff {arguments : List String}
    (asked : Invocation.ofArguments arguments = .generate options) :
    (∃ ending, (run arguments host : StateM Session Ending).run before = (ending, after) ∧
        ending.status = 0) ↔
      ∃ reports, before.perform (generateAll options host) = (.ok reports, after) := by
  rw [run, asked]
  exact runOptions_succeeds_iff

/-- A run that succeeds leaves under each name the artifact that was rendered last. No two sources
of one document share a base name. All artifacts are kept exactly if sources of different documents
that share one are equal. -/
theorem run_keeps_artifacts_iff {arguments : List String} {ending : Ending}
    (asked : Invocation.ofArguments arguments = .generate options)
    (performed : (run arguments host : StateM Session Ending).run before = (ending, after))
    (succeeded : ending.status = 0) :
    ∃ configuration start readings, options.configuration host = .ok configuration ∧
      before.perform (E := GenerationError) (createDirectories configuration.outputDirectory) =
        (.ok (.ok ()), start) ∧
      Generates configuration start readings after ∧
      readings.map Reading.path = options.models ∧
      (∀ reading ∈ readings, (reading.sources.map PeerSource.baseName).Nodup) ∧
      (∀ name content,
        FileTree.lastContent? (readings.flatMap Reading.files) name = some content →
          after.tree.read (Path.join configuration.outputDirectory name) = .ok content) ∧
      ((∀ reading ∈ readings, reading.IsKept configuration.outputDirectory after.tree) ↔
        Agree readings) := by
  obtain ⟨reports, generated⟩ := (run_succeeds_iff asked).mp ⟨ending, performed, succeeded⟩
  obtain ⟨configuration, start, readings, configured, created, generates, same⟩ :=
    perform_generateAll_eq_ok.mp ⟨reports, generated⟩
  exact ⟨configuration, start, readings, configured, created, generates, same,
    generates.nodup_baseName, fun _ _ last => generates.filled.read last,
    generates.isKept_iff_agree⟩

/-- A document with one tagged class. -/
def carDocument (name : String) : Text.Bytes :=
  ("<model><class name=\"" ++ name ++ "\" namespace=\"N\"/></model>").toUTF8.toList

/-- The names of the sources of a document. -/
def sourceNames? (configuration : Configuration) (content : Text.Bytes) :
    Option (List (String × String)) := do
  let model ← (Document.decode content).toOption
  let sources ← (model.render configuration).result.toOption
  return sources.map fun source => (source.className, source.baseName)

theorem sourceNames?_eq_some (configuration : Configuration) (content : Text.Bytes)
    (names : List (String × String))
    (found : sourceNames? configuration content = some names) :
    ∃ model sources, Document.decode content = .ok model ∧
      (model.render configuration).result = .ok sources ∧
      sources.map (fun source => (source.className, source.baseName)) = names := by
  unfold sourceNames? at found
  cases decoded : Document.decode content with
  | error error => simp [decoded, Except.toOption] at found
  | ok model =>
    cases rendered : (model.render configuration).result with
    | error error => simp [decoded, rendered, Except.toOption] at found
    | ok sources =>
      refine ⟨model, sources, rfl, rendered, ?_⟩
      simpa [decoded, rendered, Except.toOption] using found

/-- Two documents whose classes share a simple name. -/
def carFiles : FileTree where
  entries :=
    [(["a.xml"], .file (carDocument "a.Car")),
      (["b.xml"], .file (carDocument "b.Car")),
      (["out"], .directory)]

def carOptions : Options where
  directory := "out"
  precompiledHeader := none
  homeText := none
  force := false
  verbose := false
  constants := false
  disambiguatesOverloads := false
  models := ["a.xml", "b.xml"]

def carConfiguration : Configuration := { outputDirectory := "out" }

/-- A single peer of that base name may be written to the output directory. -/
theorem carFiles_writable {sources : List PeerSource} {className : String}
    (names : sources.map (fun source => (source.className, source.baseName)) =
      [(className, "CarManagedPeer")]) :
    ∀ file ∈ sources.flatMap PeerSource.files, carFiles.Writable "out" file.1 := by
  intro file member
  obtain ⟨source, rfl, same⟩ := List.map_eq_singleton_iff.mp names
  have sameBase : source.baseName = "CarManagedPeer" := congrArg Prod.snd same
  simp only [List.flatMap_cons, List.flatMap_nil, List.append_nil, PeerSource.files,
    List.mem_cons, List.not_mem_nil, or_false] at member
  rcases member with rfl | rfl <;>
    simp only [sameBase] <;>
    exact ⟨⟨by decide, by decide, by decide, by decide⟩, ["out"], by decide, by decide, by decide⟩

/-- A run over cars keeps what is not in the output directory. -/
theorem carFiles_kept {files : List (String × Text.Bytes)} {tree : FileTree}
    (filled : FileTree.Filled "out" files carFiles tree) {place : List String}
    (outside : ∀ name, place ≠ ["out", name]) : tree.entryAt? place = carFiles.entryAt? place := by
  apply filled.others
  intro home reached file _ same
  have atOut : carFiles.directoryAt "out" = .ok ["out"] := by decide
  cases atOut.symm.trans reached
  exact outside file.1 same

/-- The first document is generated. -/
theorem generates_car :
    ∃ reading middle, Generates carConfiguration ⟨carFiles, []⟩ [reading] middle ∧
      reading.path = "a.xml" ∧
      reading.sources.map (fun source => (source.className, source.baseName)) =
        [("a.Car", "CarManagedPeer")] := by
  obtain ⟨model, sources, decoded, rendered, names⟩ :=
    sourceNames?_eq_some carConfiguration (carDocument "a.Car") [("a.Car", "CarManagedPeer")]
      (by decide +kernel)
  obtain ⟨report, middle, generated⟩ := perform_generate_of_writable
    ((Session.mk carFiles []).report (.reading "a.xml")) rendered (carFiles_writable names)
  have found : carFiles.read "a.xml" = .ok (carDocument "a.Car") :=
    FileTree.read_eq_ok.mpr ⟨["a.xml"], rfl, rfl⟩
  exact ⟨⟨"a.xml", model, sources⟩, middle, .cons found decoded rendered generated (.nil middle),
    rfl, names⟩

/-- The second document is generated over the files of the first. -/
theorem generates_cars :
    ∃ readings after, Generates carConfiguration ⟨carFiles, []⟩ readings after ∧
      readings.map Reading.path = ["a.xml", "b.xml"] ∧
      readings.map (fun reading => reading.sources.map fun source =>
          (source.className, source.baseName)) =
        [[("a.Car", "CarManagedPeer")], [("b.Car", "CarManagedPeer")]] := by
  obtain ⟨reading, middle, generates, path, firstNames⟩ := generates_car
  obtain ⟨model, sources, decoded, rendered, names⟩ :=
    sourceNames?_eq_some carConfiguration (carDocument "b.Car") [("b.Car", "CarManagedPeer")]
      (by decide +kernel)
  obtain ⟨report, after, generated⟩ := perform_generate_of_writable
    (middle.report (.reading "b.xml")) rendered
    fun file member => generates.filled.writable (carFiles_writable names file member)
  have found : middle.tree.read "b.xml" = .ok (carDocument "b.Car") := by
    refine FileTree.read_eq_ok.mpr ⟨["b.xml"], rfl, ?_⟩
    rw [carFiles_kept generates.filled (by simp)]
    rfl
  refine ⟨[reading, ⟨"b.xml", model, sources⟩], after,
    generates.append (.cons found decoded rendered generated (.nil after)), ?_, ?_⟩
  · simp only [List.map_cons, List.map_nil, path]
  · simp only [List.map_cons, List.map_nil, firstNames, names]

/-- Two classes of different documents share their artifacts in a run that succeeds. -/
theorem run_keeps_artifacts_iff_cars :
    ∃ ending after, (run ["-d", "out", "a.xml", "b.xml"] .unix : StateM Session Ending).run
        ⟨carFiles, []⟩ = (ending, after) ∧ ending.status = 0 ∧
      ∃ readings : List Reading,
        readings.map (fun reading => reading.sources.map fun source =>
            (source.className, source.baseName)) =
          [[("a.Car", "CarManagedPeer")], [("b.Car", "CarManagedPeer")]] ∧
        ((∀ reading ∈ readings, reading.IsKept "out" after.tree) ↔ Agree readings) := by
  obtain ⟨readings, after, generates, paths, names⟩ := generates_cars
  have asked : Invocation.ofArguments ["-d", "out", "a.xml", "b.xml"] =
      .generate carOptions := by decide
  have created : (Session.mk carFiles []).perform (E := GenerationError)
      (createDirectories "out") = (.ok (.ok ()), ⟨carFiles, []⟩) := by rfl
  have generated : ∃ reports,
      (Session.mk carFiles []).perform (generateAll carOptions .unix) = (.ok reports, after) :=
    perform_generateAll_eq_ok.mpr
      ⟨carConfiguration, ⟨carFiles, []⟩, readings, rfl, created, generates, paths⟩
  obtain ⟨ending, performed, succeeded⟩ := (run_succeeds_iff asked).mpr generated
  refine ⟨ending, after, performed, succeeded, readings, names, ?_⟩
  obtain ⟨configuration, start, others, configured, createdAgain, othersGenerate, otherPaths, _, _,
    kept⟩ := run_keeps_artifacts_iff asked performed succeeded
  cases configured
  cases created.symm.trans createdAgain
  obtain ⟨rfl, _⟩ := generates.unique othersGenerate (paths.trans otherPaths.symm)
  exact kept

end NativePeer.CommandLine
