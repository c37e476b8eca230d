import Mathlib.Data.List.Nodup
import NativePeer.Proofs.Generation.Order
import NativePeer.Proofs.Native.Injectivity
import NativePeer.Proofs.Peer.Constants
import NativePeer.Proofs.Peer.Definition

/-
This file says which macros a translation unit has after the headers of two classes.
-/

namespace NativePeer

open Text

namespace MacroTable

/-- The directives of a file are run on the macros that there are. -/
def runFile (host : Host) (table : MacroTable) (file : Bytes) : Option MacroTable :=
  ((fileLines host file).filterMap Directive.ofLine?).foldlM Directive.run table

/-- The macros of a translation unit that includes some files in their order. -/
def ofFiles? (host : Host) (files : List Bytes) : Option MacroTable :=
  files.foldlM (runFile host) fun _ => none

/-- Definitions that are included later count. -/
def overriding (later earlier : MacroTable) : MacroTable :=
  fun symbol => (later symbol).or (earlier symbol)

/-- No symbol is a macro of both tables. -/
def Apart (first second : MacroTable) : Prop :=
  ∀ symbol, first symbol = none ∨ second symbol = none

theorem Apart.overriding_eq_some {first second : MacroTable} (apart : first.Apart second)
    {symbol body : String} (found : first symbol = some body) :
    second.overriding first symbol = some body := by
  rcases apart symbol with impossible | absent
  · cases found.symm.trans impossible
  · rw [overriding, absent, Option.none_or, found]

end MacroTable

/-- All macros of a class begin with its name. -/
def ManagedClass.macroBeginning (declared : ManagedClass) : String :=
  SymbolRole.className.mangle declared.qualifiedName ++ "_"

/-- The macros of a class begin those of another one, and the name of a constant goes on as they
do. -/
def Overlaps (shorter longer : ManagedClass) (field rival : Field) : Prop :=
  ∃ rest, longer.macroBeginning = shorter.macroBeginning ++ rest ∧
    SymbolRole.member.mangle field.name = rest ++ SymbolRole.member.mangle rival.name

/-- One macro belongs to constants of two classes exactly if their names overlap. -/
theorem symbolOf_eq_iff {first second : ManagedClass} {field rival : Field} :
    MacroDefinition.symbolOf first.qualifiedName field.name =
        MacroDefinition.symbolOf second.qualifiedName rival.name ↔
      Overlaps first second field rival ∨ Overlaps second first rival field := by
  have spelled (declared : ManagedClass) (name : String) :
      MacroDefinition.symbolOf declared.qualifiedName name =
        declared.macroBeginning ++ SymbolRole.member.mangle name := rfl
  rw [spelled, spelled]
  constructor
  · intro same
    have letters := congrArg String.toList same
    rw [String.toList_append, String.toList_append, List.append_eq_append_iff] at letters
    rcases letters with ⟨rest, longer, spelledOut⟩ | ⟨rest, longer, spelledOut⟩
    · refine .inl ⟨String.ofList rest, ?_, ?_⟩
      · exact String.toList_injective (by simpa using longer)
      · exact String.toList_injective (by simpa using spelledOut)
    · refine .inr ⟨String.ofList rest, ?_, ?_⟩
      · exact String.toList_injective (by simpa using longer)
      · exact String.toList_injective (by simpa using spelledOut)
  · intro overlap
    rcases overlap with ⟨rest, longer, spelledOut⟩ | ⟨rest, longer, spelledOut⟩
    · rw [longer, spelledOut, String.append_assoc]
    · rw [longer, spelledOut, String.append_assoc]

section Conventional

/-- The letters of an ordinary qualified name. -/
def isPackageLetter (letter : Char) : Bool :=
  letter.isAlphanum || letter = '.'

theorem mangleLetter_package_prefixFree :
    PrefixFree (isPackageLetter · = true) SymbolRole.className.mangleLetter := by
  intro first second firstPlain secondPlain firstRest secondRest same
  have sameKind := SymbolRole.isAlphanum_eq_of_append_eq same
  cases ordinary : second.isAlphanum with
  | true =>
    rw [SymbolRole.mangleLetter_of_isAlphanum (sameKind.trans ordinary),
      SymbolRole.mangleLetter_of_isAlphanum ordinary] at same
    simpa using same
  | false =>
    rw [ordinary] at sameKind
    simp only [isPackageLetter, sameKind, ordinary, Bool.false_or, decide_eq_true_eq]
      at firstPlain secondPlain
    subst firstPlain secondPlain
    exact ⟨rfl, List.append_cancel_left same⟩

/-- Neither class is named like a package of the other one, and both have ordinary names. -/
structure Unrelated (first second : ManagedClass) : Prop where
  firstPlain : Within (isPackageLetter · = true) first.qualifiedName
  secondPlain : Within (isPackageLetter · = true) second.qualifiedName
  firstOutside : ¬ (first.qualifiedName ++ ".").toList <+: second.qualifiedName.toList
  secondOutside : ¬ (second.qualifiedName ++ ".").toList <+: first.qualifiedName.toList

theorem Unrelated.symm {first second : ManagedClass} (unrelated : Unrelated first second) :
    Unrelated second first :=
  ⟨unrelated.secondPlain, unrelated.firstPlain, unrelated.secondOutside, unrelated.firstOutside⟩

/-- A name with a dot begins another name with a dot if it is that name or a package of it. -/
theorem not_dotted_append {inner outer : String} (different : inner ≠ outer)
    (outside : ¬ (inner ++ ".").toList <+: outer.toList) {more : List Char}
    (longer : outer.toList ++ ['.'] = inner.toList ++ ['.'] ++ more) : False := by
  have begun : inner.toList ++ ['.'] <+: outer.toList ++ ['.'] := ⟨more, longer.symm⟩
  rcases List.prefix_concat_iff.mp begun with same | inside
  · exact different (String.toList_injective (List.append_cancel_right same))
  · exact outside (by rwa [String.toList_append])

/-- The macros of classes with ordinary names overlap only in a package. -/
theorem Unrelated.not_overlaps {shorter longer : ManagedClass}
    (unrelated : Unrelated shorter longer)
    (different : shorter.qualifiedName ≠ longer.qualifiedName) (field rival : Field) :
    ¬ Overlaps shorter longer field rival := by
  intro overlap
  obtain ⟨rest, begun, _⟩ := overlap
  have dotted {name : String} (plain : Within (isPackageLetter · = true) name) :
      ∀ letter ∈ name.toList ++ ['.'], isPackageLetter letter = true :=
    List.forall_mem_append.mpr ⟨plain, List.forall_mem_singleton.mpr rfl⟩
  have spelled (declared : ManagedClass) : declared.macroBeginning.toList =
      (declared.qualifiedName.toList ++ ['.']).flatMap SymbolRole.className.mangleLetter := by
    rw [ManagedClass.macroBeginning, String.toList_append, SymbolRole.toList_mangle,
      List.flatMap_append]
    rfl
  have letters : (longer.qualifiedName.toList ++ ['.']).flatMap SymbolRole.className.mangleLetter
        ++ [] =
      (shorter.qualifiedName.toList ++ ['.']).flatMap SymbolRole.className.mangleLetter ++
        rest.toList := by
    rw [← spelled, ← spelled, begun, String.toList_append, List.append_nil]
  obtain ⟨more, ⟨outer, _⟩ | ⟨inner, _⟩⟩ := mangleLetter_package_prefixFree.split
    (dotted unrelated.secondPlain) (dotted unrelated.firstPlain) letters
  · exact not_dotted_append different unrelated.firstOutside outer
  · exact not_dotted_append different.symm unrelated.secondOutside inner

end Conventional

/-- The header of a class with the constants that it defines as macros. -/
structure Header (model : ClassModel) (configuration : Configuration)
    (declared : ManagedClass) where
  source : PeerSource
  chain : List ManagedClass
  fields : List Field
  table : MacroTable
  rendered : (PeerSource.render model configuration declared).result = .ok source
  walked : model.ancestry declared = .ok chain
  flattened : model.flattenFields declared = .ok fields
  /-- The header has the same effect wherever it is included. -/
  included : ∀ before,
    MacroTable.runFile configuration.host before source.header = some (table.overriding before)
  /-- Each constant has the value that is nearest. -/
  valued : ∀ field ∈ fields, field.isConstant = true → ∃ value,
    constantNamed? chain field.name = some value ∧
    table (MacroDefinition.symbolOf declared.qualifiedName field.name) =
      some (value.literal configuration.host)
  /-- There is no other macro. -/
  owned : ∀ symbol body, table symbol = some body → ∃ field ∈ fields, field.isConstant = true ∧
    symbol = MacroDefinition.symbolOf declared.qualifiedName field.name

namespace Header

variable {model : ClassModel} {configuration : Configuration} {first second : ManagedClass}

theorem exists_of_render {declared : ManagedClass} {source : PeerSource}
    (emits : configuration.emitsConstants = true)
    (rendered : (PeerSource.render model configuration declared).result = .ok source)
    (unbroken : ∀ home, Peer.homeOf configuration declared = .ok home →
      ∀ segment ∈ home.segments, '\n' ∉ segment.toList) :
    ∃ header : Header model configuration declared, header.source = source := by
  obtain ⟨peer, bound, rfl⟩ := PeerSource.render_eq_ok.mp rendered
  obtain ⟨fields, flattened, definitions, apart⟩ := Peer.constants_of_bind emits bound
  obtain ⟨chain, walked, rfl⟩ := ClassModel.flattenFields_eq_ok.mp flattened
  obtain ⟨_, _, housed, _, _⟩ := Peer.bind_binds bound
  have directives := Peer.filterMap_fileLines_declaration (Peer.isSymbolic_of_bind bound)
    (by rw [definitions]; exact fun definition => MacroDefinition.within_of_mem)
    (unbroken peer.home housed) configuration.host
  refine ⟨⟨_, chain, _, peer.constants.foldl MacroDefinition.addTo fun _ => none, rendered, walked,
    flattened, ?_, ?_, ?_⟩, rfl⟩
  · intro before
    have run := MacroDefinition.foldlM_run_directives peer.constants before
    rw [← directives] at run
    refine run.trans (congrArg some (funext fun symbol => ?_))
    rw [MacroTable.overriding, MacroDefinition.foldl_addTo, MacroDefinition.foldl_addTo,
      Option.or_none]
  · intro field listed constant
    obtain ⟨value, nearest⟩ := exists_constantNamed? listed constant
    refine ⟨value, nearest, ?_⟩
    rw [definitions, MacroDefinition.foldl_ofConstant? apart listed constant, getLast?_flatten,
      nearest, Option.map_some]
  · intro symbol body found
    rw [definitions] at found
    exact MacroDefinition.exists_of_foldl found

/-- A table gives each constant of a class its own value. -/
def IsSeenIn (header : Header model configuration first) (table : MacroTable) : Prop :=
  ∀ field ∈ header.fields, field.isConstant = true → ∃ value,
    constantNamed? header.chain field.name = some value ∧
    table (MacroDefinition.symbolOf first.qualifiedName field.name) =
      some (value.literal configuration.host)

variable (header : Header model configuration first) (other : Header model configuration second)

/-- What a translation unit sees that includes one header before another one. -/
structure Precedes : Prop where
  run : MacroTable.ofFiles? configuration.host [header.source.header, other.source.header] =
    some (other.table.overriding header.table)
  later : other.IsSeenIn (other.table.overriding header.table)
  earlier : header.table.Apart other.table → header.IsSeenIn (other.table.overriding header.table)

theorem precedes : header.Precedes other where
  run := by
    have alone : header.table.overriding (fun _ => none) = header.table :=
      funext fun symbol => Option.or_none
    simp [MacroTable.ofFiles?, header.included, other.included, alone]
  later field listed constant := by
    obtain ⟨value, nearest, found⟩ := other.valued field listed constant
    refine ⟨value, nearest, ?_⟩
    rw [MacroTable.overriding, found, Option.some_or]
  earlier apart field listed constant := by
    obtain ⟨value, nearest, found⟩ := header.valued field listed constant
    exact ⟨value, nearest, apart.overriding_eq_some found⟩

/-- A symbol is a macro exactly if it belongs to a constant. -/
theorem table_ne_none_iff {symbol : String} :
    header.table symbol ≠ none ↔ ∃ field ∈ header.fields, field.isConstant = true ∧
      symbol = MacroDefinition.symbolOf first.qualifiedName field.name := by
  constructor
  · intro defined
    obtain ⟨body, found⟩ := Option.ne_none_iff_exists'.mp defined
    exact header.owned symbol body found
  · intro parts
    obtain ⟨field, listed, constant, rfl⟩ := parts
    obtain ⟨value, _, found⟩ := header.valued field listed constant
    rw [found]
    exact Option.some_ne_none _

/-- Two classes have no macro in common exactly if the names of no two constants overlap. -/
theorem apart_iff :
    header.table.Apart other.table ↔
      ∀ field ∈ header.fields, ∀ rival ∈ other.fields, field.isConstant = true →
        rival.isConstant = true →
          ¬ Overlaps first second field rival ∧ ¬ Overlaps second first rival field := by
  constructor
  · intro apart field listed rival rivalListed constant rivalConstant
    rw [← not_or, ← symbolOf_eq_iff]
    intro same
    rcases apart (MacroDefinition.symbolOf first.qualifiedName field.name) with absent | absent
    · exact header.table_ne_none_iff.mpr ⟨field, listed, constant, rfl⟩ absent
    · exact other.table_ne_none_iff.mpr ⟨rival, rivalListed, rivalConstant, same⟩ absent
  · intro separate symbol
    by_contra shared
    rw [not_or] at shared
    obtain ⟨field, listed, constant, owner⟩ := header.table_ne_none_iff.mp shared.1
    obtain ⟨rival, rivalListed, rivalConstant, rivalOwner⟩ := other.table_ne_none_iff.mp shared.2
    have none := separate field listed rival rivalListed constant rivalConstant
    rw [← not_or, ← symbolOf_eq_iff] at none
    exact none (owner.symm.trans rivalOwner)

theorem apart_of_unrelated (unrelated : Unrelated first second)
    (different : first.qualifiedName ≠ second.qualifiedName) :
    header.table.Apart other.table :=
  (header.apart_iff other).mpr fun field _ rival _ _ _ =>
    ⟨unrelated.not_overlaps different field rival,
      unrelated.symm.not_overlaps different.symm rival field⟩

end Header

variable {model : ClassModel} {configuration : Configuration} {sources : List PeerSource}

section Rendered

variable (unbroken : ∀ home, configuration.home = some home →
  ∀ segment ∈ home.segments, '\n' ∉ segment.toList)

include unbroken

/-- The namespace of a class itself has no line feed if the class is in order. -/
theorem ClassModel.Checked.unbroken_home {declared : ManagedClass} {home : Namespace}
    (checked : model.Checked declared) (housed : Peer.homeOf configuration declared = .ok home) :
    ∀ segment ∈ home.segments, '\n' ∉ segment.toList := by
  cases asked : configuration.home with
  | some given =>
    rw [Peer.homeOf, asked] at housed
    cases housed
    exact unbroken home asked
  | none =>
    cases own : declared.home with
    | none => simp [Peer.homeOf, asked, own] at housed
    | some given =>
      rw [Peer.homeOf, asked, own] at housed
      cases housed
      exact fun segment inside =>
        (Namespace.symbolic_of_isValid (checked.home home own) segment inside).not_mem (by decide)

/-- Each tagged class of a model that is rendered has its header. -/
theorem ClassModel.exists_header {declared : ManagedClass}
    (emits : configuration.emitsConstants = true)
    (rendered : (model.render configuration).result = .ok sources)
    (listed : declared ∈ model.taggedClasses) :
    ∃ header : Header model configuration declared, header.source ∈ sources := by
  obtain ⟨valid, pairs, _⟩ := render_eq_ok_iff.mp rendered
  obtain ⟨source, member, sourceRendered⟩ :
      ∃ source ∈ sources, (PeerSource.render model configuration declared).result = .ok source :=
    exists_of_forall₂_of_mem pairs.flip listed
  have checked := validate_eq_ok.mp valid declared (List.mem_of_mem_filter listed)
  obtain ⟨header, same⟩ := Header.exists_of_render emits sourceRendered
    fun _ housed => checked.unbroken_home unbroken housed
  exact ⟨header, same ▸ member⟩

end Rendered

/-- The headers of two classes share a macro exactly if the names of two constants overlap, which
they never do if both classes have ordinary names and neither is named like a package of the
other. The header that is included last is seen as it is, and the other one as well if they share
no macro. -/
theorem render_shared_macros {first second : ManagedClass}
    (emits : configuration.emitsConstants = true)
    (unbroken : ∀ home, configuration.home = some home →
      ∀ segment ∈ home.segments, '\n' ∉ segment.toList)
    (rendered : (model.render configuration).result = .ok sources)
    (firstListed : first ∈ model.taggedClasses) (secondListed : second ∈ model.taggedClasses)
    (different : first ≠ second) :
    ∃ (header : Header model configuration first) (other : Header model configuration second),
      header.source ∈ sources ∧ other.source ∈ sources ∧
      (header.table.Apart other.table ↔
        ∀ field ∈ header.fields, ∀ rival ∈ other.fields, field.isConstant = true →
          rival.isConstant = true →
            ¬ Overlaps first second field rival ∧ ¬ Overlaps second first rival field) ∧
      (Unrelated first second → header.table.Apart other.table) ∧
      header.Precedes other ∧ other.Precedes header := by
  obtain ⟨header, member⟩ := model.exists_header unbroken emits rendered firstListed
  obtain ⟨other, otherMember⟩ := model.exists_header unbroken emits rendered secondListed
  have apartNames : first.qualifiedName ≠ second.qualifiedName := fun same =>
    different (List.inj_on_of_nodup_map model.distinct (List.mem_of_mem_filter firstListed)
      (List.mem_of_mem_filter secondListed) same)
  exact ⟨header, other, member, otherMember, header.apart_iff other,
    fun unrelated => header.apart_of_unrelated other unrelated apartNames,
    header.precedes other, other.precedes header⟩

def fleetCar : ManagedClass := fleet[1]

def fleetBus : ManagedClass := fleet[2]

/-- Two classes inherit one constant and have macros of their own for it. -/
theorem render_shared_macros_fleet :
    fleetCar ∈ fleetModel.taggedClasses ∧ fleetBus ∈ fleetModel.taggedClasses ∧
      ∃ (header : Header fleetModel PeerSource.emitting fleetCar)
        (other : Header fleetModel PeerSource.emitting fleetBus),
        header.table.Apart other.table ∧ header.Precedes other ∧ other.Precedes header := by
  have succeeds : (fleetModel.render PeerSource.emitting).result.toOption.isSome = true := by
    decide +kernel
  obtain ⟨sources, found⟩ := Option.isSome_iff_exists.mp succeeds
  have carListed : fleetCar ∈ fleetModel.taggedClasses := by decide
  have busListed : fleetBus ∈ fleetModel.taggedClasses := by decide
  have homeless : ∀ home, PeerSource.emitting.home = some home →
      ∀ segment ∈ home.segments, '\n' ∉ segment.toList := fun _ given => by cases given
  obtain ⟨header, other, _, _, _, apart, before, after⟩ := render_shared_macros rfl homeless
    (toOption_eq_some.mp found) carListed busListed (by decide)
  have unrelated : Unrelated fleetCar fleetBus :=
    ⟨by decide, by decide, by decide, by decide⟩
  exact ⟨carListed, busListed, header, other, apart unrelated, before, after⟩

/-- What the headers of some classes together replace a symbol by. -/
def PeerSource.replacement? (host : Host) (symbol : String) (sources : List PeerSource) :
    Option String :=
  (MacroTable.ofFiles? host (sources.map PeerSource.header)).bind fun table => table symbol

/-- The name of the second class goes on with what the constant of the first one begins with. -/
def overlappingModel : ClassModel where
  classes := ClassModel.runtime.classes ++
    [{ ManagedClass.named "a.B" with
        isTagged := true
        home := Namespace.parse? "N"
        fields := [⟨"C_x", .primitive .int, true, true, some (.int 1)⟩] },
      { ManagedClass.named "a.B_C" with
        isTagged := true
        home := Namespace.parse? "N"
        fields := [⟨"x", .primitive .int, true, true, some (.int 2)⟩] }]
  distinct := by decide

/-- The two sources of a result that is shown to have two. -/
theorem exists_pair_of_shown {A : Type} {result : Except GenerationError (List PeerSource)}
    {view : List PeerSource → A} {firstName secondName : String} {value : A}
    (shown : (result.toOption.map fun sources => (sources.map PeerSource.className, view sources)) =
      some ([firstName, secondName], value)) :
    ∃ first second, result = .ok [first, second] ∧ first.className = firstName ∧
      second.className = secondName ∧ view [first, second] = value := by
  obtain ⟨sources, found, viewed⟩ := Option.map_eq_some_iff.mp shown
  rw [Prod.mk.injEq, List.map_eq_cons_iff] at viewed
  obtain ⟨⟨first, rest, rfl, firstNamed, named⟩, same⟩ := viewed
  obtain ⟨second, rfl, secondNamed⟩ := List.map_eq_singleton_iff.mp named
  exact ⟨first, second, toOption_eq_some.mp found, firstNamed, secondNamed, same⟩

/-- The constants of two classes have one macro, and the header that is included last decides what
it stands for. A line feed in the namespace gives both classes a macro that is no constant. -/
theorem render_shared_macros_overlapping :
    (∃ first second, (overlappingModel.render PeerSource.emitting).result = .ok [first, second] ∧
        first.className = "a.B" ∧ second.className = "a.B_C" ∧
        PeerSource.replacement? .unix "a_B_C_x" [first] = some "1L" ∧
        PeerSource.replacement? .unix "a_B_C_x" [second] = some "2L" ∧
        PeerSource.replacement? .unix "a_B_C_x" [first, second] = some "2L" ∧
        PeerSource.replacement? .unix "a_B_C_x" [second, first] = some "1L") ∧
      ∃ first second, (overlappingModel.render PeerSource.brokenHome).result =
          .ok [first, second] ∧ first.className = "a.B" ∧ second.className = "a.B_C" ∧
        PeerSource.replacement? .unix "X" [first] = some "1" ∧
        PeerSource.replacement? .unix "X" [second] = some "1" := by
  have shown : ((overlappingModel.render PeerSource.emitting).result.toOption.map fun sources =>
        (sources.map PeerSource.className,
          [sources.take 1, sources.drop 1, sources, sources.reverse].map
            (PeerSource.replacement? .unix "a_B_C_x"))) =
        some (["a.B", "a.B_C"], [some "1L", some "2L", some "2L", some "1L"]) ∧
      ((overlappingModel.render PeerSource.brokenHome).result.toOption.map fun sources =>
        (sources.map PeerSource.className,
          [sources.take 1, sources.drop 1].map (PeerSource.replacement? .unix "X"))) =
        some (["a.B", "a.B_C"], [some "1", some "1"]) := by decide +kernel
  obtain ⟨first, second, rendered, firstNamed, secondNamed, shared⟩ :=
    exists_pair_of_shown shown.1
  obtain ⟨third, fourth, renderedBroken, thirdNamed, fourthNamed, broken⟩ :=
    exists_pair_of_shown shown.2
  simp only [List.take_succ_cons, List.take_zero, List.drop_succ_cons, List.drop_zero,
    List.reverse_cons, List.reverse_nil, List.nil_append, List.singleton_append, List.map_cons,
    List.map_nil, List.cons.injEq, and_true] at shared broken
  exact ⟨⟨first, second, rendered, firstNamed, secondNamed, shared⟩,
    third, fourth, renderedBroken, thirdNamed, fourthNamed, broken⟩

end NativePeer
