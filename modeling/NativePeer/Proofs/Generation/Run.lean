import Mathlib.Data.List.Nodup
import NativePeer.Generation.Run
import NativePeer.Proofs.Generation.Artifact
import NativePeer.Proofs.Generation.Rendering
import NativePeer.Proofs.Model.Ancestry

/-
This file says what the generation of a model does to the files.
-/

namespace NativePeer

namespace Path

/-- A name that starts with a letter of a symbol is a single step. -/
theorem isName_append {first : Char} {base ending : String} {rest : List Char}
    (shape : base.toList = first :: rest)
    (plain : ∀ letter ∈ base.toList, isSymbolLetter letter = true)
    (unslashed : '/' ∉ ending.toList) : IsName (base ++ ending) := by
  have letters : (base ++ ending).toList = first :: (rest ++ ending.toList) := by simp [shape]
  have symbolFirst : isSymbolLetter first = true := plain first (by simp [shape])
  have undotted : first ≠ '.' := by
    intro same
    rw [same] at symbolFirst
    exact absurd symbolFirst (by decide)
  refine ⟨?_, ?_, ?_, ?_⟩
  · intro member
    rw [String.toList_append, List.mem_append] at member
    rcases member with inside | inside
    · exact absurd (plain _ inside) (by decide)
    · exact unslashed inside
  · intro same
    simp [same] at letters
  · intro same
    rw [same] at letters
    exact undotted (List.cons.inj letters).1.symm
  · intro same
    rw [same] at letters
    exact undotted (List.cons.inj letters).1.symm

/-- The names of one directory have different paths. -/
theorem join_injective (directory : String) : Function.Injective (join directory) := by
  intro first second same
  rw [join_eq, join_eq] at same
  by_cases closed : isClosed directory
  · rw [if_pos closed, if_pos closed] at same
    exact String.append_right_inj _ |>.mp same
  · rw [if_neg closed, if_neg closed] at same
    exact String.append_right_inj _ |>.mp same

end Path

namespace Peer

/-- A base name consists of ASCII letters, digits and underscores. -/
theorem isSymbolLetter_of_mem_baseNameOf {declared : ManagedClass} {letter : Char}
    (member : letter ∈ (baseNameOf declared).toList) : isSymbolLetter letter = true := by
  rw [baseNameOf, String.toList_append, List.mem_append] at member
  rcases member with inside | inside
  · exact SymbolRole.className.isSymbolLetter_of_mem_mangle inside
  · have everyLetter : peerSuffix.toList.all isSymbolLetter = true := by decide
    exact List.all_eq_true.mp everyLetter letter inside

theorem baseNameOf_ne_empty (declared : ManagedClass) : baseNameOf declared ≠ "" := by
  intro same
  simpa [baseNameOf, peerSuffix] using congrArg String.toList same

end Peer

namespace PeerSource

variable {model : ClassModel} {configuration : Configuration}

/-- The two files of a source with their names in the output directory. -/
def files (source : PeerSource) : List (String × Text.Bytes) :=
  [(source.baseName ++ ".h", source.header), (source.baseName ++ ".cpp", source.source)]

/-- A base name with an ending tells the base name and the ending. -/
theorem ending_ne (first second : String) : first ++ ".h" ≠ second ++ ".cpp" := by
  intro same
  have lastLetters := congrArg (fun name => name.toList.getLast?) same
  simp at lastLetters

/-- Two sources with a name in common have their base names in common and use the name for the
same one of their files. -/
theorem shared_name {source other : PeerSource} {name : String} {content otherContent : Text.Bytes}
    (member : (name, content) ∈ source.files) (otherMember : (name, otherContent) ∈ other.files) :
    source.baseName = other.baseName ∧
      (content = source.header ∧ otherContent = other.header ∨
        content = source.source ∧ otherContent = other.source) := by
  simp only [files, List.mem_cons, Prod.mk.injEq, List.not_mem_nil, or_false] at member otherMember
  rcases member with ⟨named, held⟩ | ⟨named, held⟩ <;>
    rcases otherMember with ⟨otherNamed, otherHeld⟩ | ⟨otherNamed, otherHeld⟩
  · exact ⟨(String.append_left_inj _).mp (named.symm.trans otherNamed), .inl ⟨held, otherHeld⟩⟩
  · exact absurd (named.symm.trans otherNamed) (ending_ne _ _)
  · exact absurd (otherNamed.symm.trans named) (ending_ne _ _)
  · exact ⟨(String.append_left_inj _).mp (named.symm.trans otherNamed), .inr ⟨held, otherHeld⟩⟩

/-- Sources with different base names have no file in common. -/
theorem nodup_names {sources : List PeerSource} (distinct : (sources.map baseName).Nodup) :
    ((sources.flatMap files).map Prod.fst).Nodup := by
  induction sources with
  | nil => exact List.nodup_nil
  | cons source sources inductionHypothesis =>
    rw [List.map_cons, List.nodup_cons] at distinct
    rw [List.flatMap_cons, List.map_append, List.nodup_append]
    refine ⟨by simp [files], inductionHypothesis distinct.2, ?_⟩
    intro name inside other outside same
    subst same
    obtain ⟨⟨_, content⟩, member, rfl⟩ := List.mem_map.mp inside
    obtain ⟨⟨_, otherContent⟩, fileMember, rfl⟩ := List.mem_map.mp outside
    obtain ⟨another, anotherMember, written⟩ := List.mem_flatMap.mp fileMember
    have sameBase := (shared_name written member).1
    exact distinct.1 (List.mem_map.mpr ⟨another, anotherMember, sameBase⟩)

theorem isName_of_mem_files {declared : ManagedClass} {source : PeerSource}
    {file : String × Text.Bytes} (named : source.baseName = Peer.baseNameOf declared)
    (member : file ∈ source.files) : Path.IsName file.1 := by
  cases shape : source.baseName.toList with
  | nil =>
    rw [String.toList_eq_nil_iff, named] at shape
    exact absurd shape (Peer.baseNameOf_ne_empty declared)
  | cons first rest =>
    have plain : ∀ letter ∈ source.baseName.toList, isSymbolLetter letter = true := by
      intro letter inside
      rw [named] at inside
      exact Peer.isSymbolLetter_of_mem_baseNameOf inside
    simp only [files, List.mem_cons, List.not_mem_nil, or_false] at member
    rcases member with rfl | rfl
    · exact Path.isName_append shape plain (by decide)
    · exact Path.isName_append shape plain (by decide)

/-- The artifacts of a source are its files. -/
theorem isFile_artifacts {declared : ManagedClass} {source : PeerSource}
    (named : source.baseName = Peer.baseNameOf declared) :
    List.Forall₂ (Artifact.IsFile configuration.outputDirectory) (source.artifacts configuration)
      source.files := by
  refine .cons ⟨?_, rfl, rfl⟩ (.cons ⟨?_, rfl, rfl⟩ .nil)
  · exact isName_of_mem_files named (by simp [files])
  · exact isName_of_mem_files named (by simp [files])

end PeerSource

/-- The events of a computation are added to the log of the session. -/
theorem perform_run {A : Type} (logged : Logged A) (session : Session) :
    session.perform logged.run =
      (logged.result, { session with log := session.log ++ logged.log }) := by
  have reported (events : List LogEvent) (start : Session) :
      start.perform (forM events fun event => Surroundings.report event :
        ExceptT GenerationError (StateM Session) Unit) =
          (.ok (), { start with log := start.log ++ events }) := by
    induction events generalizing start with
    | nil => simp [Session.perform_pure]
    | cons event events inductionHypothesis =>
      rw [List.forM_cons, Session.perform_bind, Session.perform_report]
      simp only [inductionHypothesis, Session.report, List.append_assoc, List.singleton_append]
  rw [Logged.run, List.forM_eq_forM, Session.perform_bind, reported]
  cases logged.result <;> rfl

/-- Reading a model changes nothing. -/
theorem perform_readModel (path : String) (session : Session) :
    session.perform (Document.readModel path) =
      ((session.tree.read path).mapError DocumentError.unreadable >>= Document.decode,
        session) := by
  rw [Document.readModel, Session.perform_bind, Session.perform_readFile]
  cases session.tree.read path <;> rfl

variable {model : ClassModel} {configuration : Configuration} {session after : Session}
  {report : Report}

theorem perform_generateFile_eq_ok {path : String} :
    session.perform (generateFile configuration path) = (.ok report, after) ↔
      ∃ content model, session.tree.read path = .ok content ∧
        Document.decode content = .ok model ∧
        session.perform (model.generate configuration) = (.ok report, after) := by
  simp only [generateFile, Session.perform_bind_eq_ok, Session.perform_adapt, perform_readModel,
    Prod.mk.injEq, mapError_eq_ok, except_bind_eq_ok]
  constructor
  · intro parts
    obtain ⟨model, _, ⟨⟨content, found, decoded⟩, rfl⟩, generated⟩ := parts
    exact ⟨content, model, found, decoded, generated⟩
  · intro parts
    obtain ⟨content, model, found, decoded, generated⟩ := parts
    exact ⟨model, session, ⟨⟨content, found, decoded⟩, rfl⟩, generated⟩

theorem perform_generate_eq_ok :
    session.perform (model.generate configuration) = (.ok report, after) ↔
      ∃ sources last, (model.render configuration).result = .ok sources ∧
        { session with log := session.log ++ (model.render configuration).log }.perform
            ((sources.flatMap (PeerSource.artifacts configuration)).mapM
              (Artifact.write configuration)) = (.ok report.artifacts, last) ∧
        last.report report.event = after := by
  rw [ClassModel.generate, Session.perform_bind_eq_ok]
  simp only [perform_run, Session.perform_bind_eq_ok, Prod.mk.injEq]
  constructor
  · intro parts
    obtain ⟨sources, between, ⟨rendered, rfl⟩, artifacts, last, written, finished⟩ := parts
    simp only [Session.perform_report, Prod.mk.injEq, Session.perform_pure] at finished
    obtain ⟨_, _, ⟨_, rfl⟩, same, rfl⟩ := finished
    cases same
    exact ⟨sources, last, rendered, written, rfl⟩
  · intro parts
    obtain ⟨sources, last, rendered, written, rfl⟩ := parts
    exact ⟨sources, _, ⟨rendered, rfl⟩, report.artifacts, last, written, (), _, rfl, rfl⟩

/-- The artifacts of all sources are their files. -/
theorem ClassModel.isFile_artifacts {sources : List PeerSource}
    (rendered : (model.render configuration).result = .ok sources) :
    List.Forall₂ (Artifact.IsFile configuration.outputDirectory)
      (sources.flatMap (PeerSource.artifacts configuration))
      (sources.flatMap PeerSource.files) := by
  have named : ∀ source ∈ sources,
      ∃ declared ∈ model.taggedClasses, source.baseName = Peer.baseNameOf declared :=
    fun _ => ClassModel.baseName_of_render rendered
  clear rendered
  induction sources with
  | nil => exact .nil
  | cons source sources inductionHypothesis =>
    obtain ⟨declared, _, same⟩ := named source List.mem_cons_self
    rw [List.flatMap_cons, List.flatMap_cons]
    exact List.rel_append (PeerSource.isFile_artifacts same)
      (inductionHypothesis fun other member => named other (List.mem_cons_of_mem _ member))

/-- A generation fills the output directory with the files of the sources. -/
theorem perform_generate_filled
    (succeeded : session.perform (model.generate configuration) = (.ok report, after)) :
    ∃ sources, (model.render configuration).result = .ok sources ∧
      report.artifacts.map (fun record => (record.className, record.path)) =
        (sources.flatMap (PeerSource.artifacts configuration)).map
          (fun artifact => (artifact.className, artifact.path)) ∧
      FileTree.Filled configuration.outputDirectory (sources.flatMap PeerSource.files)
        session.tree after.tree := by
  obtain ⟨sources, last, rendered, written, rfl⟩ := perform_generate_eq_ok.mp succeeded
  obtain ⟨sameRecords, filled⟩ :=
    Artifact.perform_mapM_write_eq_ok (ClassModel.isFile_artifacts rendered) written
  exact ⟨sources, rendered, sameRecords, filled⟩

/-- A generation succeeds if its model is rendered and its files may be written. -/
theorem perform_generate_of_writable (session : Session) {sources : List PeerSource}
    (rendered : (model.render configuration).result = .ok sources)
    (writable : ∀ file ∈ sources.flatMap PeerSource.files,
      session.tree.Writable configuration.outputDirectory file.1) :
    ∃ report after, session.perform (model.generate configuration) = (.ok report, after) := by
  obtain ⟨records, last, performed⟩ := Artifact.perform_mapM_write_of_writable configuration
    { session with log := session.log ++ (model.render configuration).log }
    (ClassModel.isFile_artifacts rendered) writable
  exact ⟨⟨records⟩, _, perform_generate_eq_ok.mpr ⟨sources, last, rendered, performed, rfl⟩⟩

/-- A generation succeeds without any writing where every artifact has its content already. -/
theorem perform_generate_of_read (session : Session) {sources : List PeerSource}
    (gentle : configuration.force = false)
    (rendered : (model.render configuration).result = .ok sources)
    (present : ∀ artifact ∈ sources.flatMap (PeerSource.artifacts configuration),
      session.tree.read artifact.path = .ok artifact.content) :
    ∃ after, session.perform (model.generate configuration) =
        (.ok ⟨(sources.flatMap (PeerSource.artifacts configuration)).map
          Artifact.unchangedRecord⟩, after) ∧
      after.tree = session.tree := by
  obtain ⟨last, performed, sameTree⟩ := Artifact.perform_mapM_write_of_read
    { session with log := session.log ++ (model.render configuration).log } gentle present
  exact ⟨_, perform_generate_eq_ok.mpr ⟨sources, last, rendered, performed, rfl⟩, sameTree⟩

/-- The report lists the two files of each source, they lie in the output directory under names of
their own and hold what was rendered, and every other place has the entry that it had. -/
structure Generated (configuration : Configuration) (sources : List PeerSource) (report : Report)
    (before after : FileTree) : Prop where
  listed : report.artifacts.map (fun record => (record.className, record.path)) =
    sources.flatMap fun source => source.files.map fun file =>
      (source.className, Path.join configuration.outputDirectory file.1)
  confined : ∀ source ∈ sources, ∀ letter ∈ source.baseName.toList, isSymbolLetter letter = true
  distinct : (report.artifacts.map ArtifactRecord.path).Nodup
  inside : ∀ source ∈ sources, ∀ file ∈ source.files, ∃ home,
    before.directoryAt configuration.outputDirectory = .ok home ∧
      after.resolve (Path.join configuration.outputDirectory file.1) = .ok (home ++ [file.1])
  held : ∀ source ∈ sources, ∀ file ∈ source.files,
    after.read (Path.join configuration.outputDirectory file.1) = .ok file.2
  untouched : ∀ place, (∀ record ∈ report.artifacts, after.resolve record.path ≠ .ok place) →
    after.entryAt? place = before.entryAt? place
  counted : report.written + report.unchanged = 2 * sources.length

theorem PeerSource.artifacts_eq (configuration : Configuration) (source : PeerSource) :
    source.artifacts configuration = source.files.map fun file =>
      ⟨source.className, Path.join configuration.outputDirectory file.1, file.2⟩ := rfl

/-- The written and the unchanged artifacts are all artifacts. -/
theorem Report.written_add_unchanged (report : Report) :
    report.written + report.unchanged = report.artifacts.length := by
  have bounded : report.written ≤ report.artifacts.length := List.countP_le_length
  rw [Report.unchanged]
  omega

theorem generated_of_filled {sources : List PeerSource}
    (rendered : (model.render configuration).result = .ok sources)
    (sameRecords : report.artifacts.map (fun record => (record.className, record.path)) =
      (sources.flatMap (PeerSource.artifacts configuration)).map
        (fun artifact => (artifact.className, artifact.path)))
    {before after : FileTree}
    (filled : FileTree.Filled configuration.outputDirectory (sources.flatMap PeerSource.files)
      before after) : Generated configuration sources report before after := by
  have distinctNames :=
    PeerSource.nodup_names (ClassModel.names_of_render rendered).2
  have last {source : PeerSource} (member : source ∈ sources) {file : String × Text.Bytes}
      (written : file ∈ source.files) :
      FileTree.lastContent? (sources.flatMap PeerSource.files) file.1 = some file.2 :=
    FileTree.lastContent?_of_mem distinctNames (List.mem_flatMap.mpr ⟨source, member, written⟩)
  have paths : report.artifacts.map ArtifactRecord.path =
      (sources.flatMap PeerSource.files).map
        fun file => Path.join configuration.outputDirectory file.1 := by
    have second := congrArg (List.map Prod.snd) sameRecords
    simp only [List.map_map, List.map_flatMap, PeerSource.artifacts_eq] at second ⊢
    exact second
  refine
    { listed := ?listed, confined := ?confined, distinct := ?distinct, inside := ?inside,
      held := ?held, untouched := ?untouched, counted := ?counted }
  case listed =>
    rw [sameRecords]
    simp only [List.map_flatMap, PeerSource.artifacts_eq, List.map_map]
    rfl
  case confined =>
    intro source member letter inside
    obtain ⟨declared, _, same⟩ := ClassModel.baseName_of_render rendered member
    rw [same] at inside
    exact Peer.isSymbolLetter_of_mem_baseNameOf inside
  case distinct =>
    have joined := distinctNames.map (Path.join_injective configuration.outputDirectory)
    rw [List.map_map] at joined
    rw [paths]
    exact joined
  case inside =>
    intro source member file written
    obtain ⟨home, reached, resolved, _⟩ := filled.holds file.1 file.2 (last member written)
    exact ⟨home, reached, resolved⟩
  case held =>
    intro source member file written
    exact filled.read (last member written)
  case untouched =>
    intro place elsewhere
    apply filled.others
    intro home reached file member same
    obtain ⟨source, sourceMember, written⟩ := List.mem_flatMap.mp member
    obtain ⟨other, otherReached, resolved, _⟩ :=
      filled.holds file.1 file.2 (last sourceMember written)
    have listed : Path.join configuration.outputDirectory file.1 ∈
        report.artifacts.map ArtifactRecord.path := by
      rw [paths]
      exact List.mem_map.mpr ⟨file, member, rfl⟩
    obtain ⟨record, recorded, samePath⟩ := List.mem_map.mp listed
    apply elsewhere record recorded
    rw [samePath, resolved, same, Except.ok.inj (otherReached.symm.trans reached)]
  case counted =>
    rw [Report.written_add_unchanged, ← List.length_map (f := ArtifactRecord.path), paths]
    simp [List.length_flatMap, PeerSource.files, Nat.mul_comm]

/-- A generation that succeeds changes nothing but the files of the tagged classes, and the next
one without force leaves them all alone. -/
theorem generate_effect {before after : Session}
    (succeeded : before.perform (model.generate configuration) = (.ok report, after)) :
    ∃ sources, (model.render configuration).result = .ok sources ∧
      sources.map (fun source => (source.className, source.baseName)) =
        model.taggedClasses.map
          (fun declared => (declared.qualifiedName, Peer.baseNameOf declared)) ∧
      Generated configuration sources report before.tree after.tree ∧
      ∃ again later,
        after.perform (model.generate { configuration with force := false }) =
          (.ok again, later) ∧
        again.artifacts =
          report.artifacts.map (fun record => { record with outcome := .unchanged }) ∧
        later.tree = after.tree := by
  obtain ⟨sources, rendered, sameRecords, filled⟩ := perform_generate_filled succeeded
  have generated := generated_of_filled rendered sameRecords filled
  have renderedAgain : (model.render { configuration with force := false }).result =
      .ok sources := by rw [ClassModel.render_force, rendered]
  have present : ∀ artifact ∈ sources.flatMap
      (PeerSource.artifacts { configuration with force := false }),
      after.tree.read artifact.path = .ok artifact.content := by
    intro artifact member
    obtain ⟨source, sourceMember, written⟩ := List.mem_flatMap.mp member
    rw [PeerSource.artifacts_eq] at written
    obtain ⟨file, fileMember, rfl⟩ := List.mem_map.mp written
    exact generated.held source sourceMember file fileMember
  obtain ⟨later, performed, sameTree⟩ := perform_generate_of_read after rfl renderedAgain present
  refine ⟨sources, rendered, (ClassModel.names_of_render rendered).1, generated, _, later,
    performed, ?_, sameTree⟩
  have sameUnchanged := congrArg
    (List.map fun named => ArtifactRecord.mk named.1 named.2 .unchanged) sameRecords
  simp only [List.map_map] at sameUnchanged
  exact sameUnchanged.symm

/-- A model with one tagged class. -/
def singleCar : ClassModel where
  classes :=
    [{ ManagedClass.named "a.Car" with
      isTagged := true
      home := Namespace.parse? "N"
      methods := [⟨"drive", .void, [⟨"to", .string⟩], false, true⟩] }]
  distinct := by decide

theorem generate_effect_car :
    ∃ report after, (Session.mk .empty []).perform (singleCar.generate { outputDirectory := "" }) =
        (.ok report, after) ∧
      ∃ sources, Generated { outputDirectory := "" } sources report .empty after.tree := by
  have valid : singleCar.validate = .ok () := by
    rw [ClassModel.validate, singleCar, List.forM_eq_forM, List.forM_cons, ClassModel.checkClass,
      ClassModel.ancestry_of_root rfl]
    rfl
  have succeeded : ∃ report after,
      (Session.mk .empty []).perform (singleCar.generate { outputDirectory := "" }) =
        (.ok report, after) := by
    rw [ClassModel.generate, ClassModel.render, valid]
    exact ⟨_, _, rfl⟩
  obtain ⟨report, after, performed⟩ := succeeded
  obtain ⟨sources, _, _, generated, _⟩ := generate_effect performed
  exact ⟨report, after, performed, sources, generated⟩

end NativePeer
