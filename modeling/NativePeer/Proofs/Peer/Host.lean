import NativePeer.Proofs.Generation.Rendering
import NativePeer.Proofs.Peer.Declaration

/-
This file compares the peers of one class on the two families of hosts. They differ in the suffixes
of the long constants, and their headers also in the line ends.
-/

namespace NativePeer

open Text

/-- The macro of a constant whose literal has not been written. -/
structure ConstantMacro where
  symbol : String
  value : Constant
  deriving DecidableEq

namespace ConstantMacro

def definition (host : Host) (constant : ConstantMacro) : MacroDefinition :=
  ⟨constant.symbol, constant.value.literal host⟩

def ofField? (className : String) (field : Field) : Option ConstantMacro :=
  if field.isStaticFinal then
    field.constant.map (ConstantMacro.mk (MacroDefinition.symbolOf className field.name))
  else none

/-- The constants of a class and of its ancestors, if they are asked for. -/
def ofClass (model : ClassModel) (configuration : Configuration) (declared : ManagedClass) :
    Except ModelError (List ConstantMacro) :=
  if configuration.emitsConstants then
    (model.flattenFields declared).map (List.filterMap (ofField? declared.qualifiedName))
  else .ok []

theorem ofConstant?_eq (host : Host) (className : String) (field : Field) :
    MacroDefinition.ofConstant? host className field =
      (ofField? className field).map (definition host) := by
  unfold MacroDefinition.ofConstant? ofField?
  split
  · rw [Option.map_map]
    rfl
  · rfl

end ConstantMacro

namespace Configuration

def on (configuration : Configuration) (host : Host) : Configuration :=
  { configuration with host }

end Configuration

namespace Peer

variable {model : ClassModel} {configuration : Configuration}

/-- The host makes a difference to the literals alone. -/
theorem bindConstants_alike (className : String) (table : SymbolTable) (fields : List Field) :
    Alike (fun unix windows =>
        unix = (fields.filterMap (ConstantMacro.ofField? className)).map
          (ConstantMacro.definition .unix) ∧
        windows = (fields.filterMap (ConstantMacro.ofField? className)).map
          (ConstantMacro.definition .windows))
      (bindConstants .unix className table fields)
      (bindConstants .windows className table fields) := by
  induction fields generalizing table with
  | nil => exact .done ⟨rfl, rfl⟩
  | cons field fields inductionHypothesis =>
    rw [bindConstants_cons, bindConstants_cons, ConstantMacro.ofConstant?_eq,
      ConstantMacro.ofConstant?_eq]
    cases shown : ConstantMacro.ofField? className field with
    | none =>
      rw [List.filterMap_cons_none shown]
      exact inductionHypothesis table
    | some constant =>
      rw [List.filterMap_cons_some shown]
      have claimed : Alike Eq (table.claim (SymbolRole.member.mangle field.name) field.name)
          (table.claim (SymbolRole.member.mangle field.name) field.name) := .refl fun _ => rfl
      apply claimed.bind
      rintro next _ rfl
      apply (inductionHypothesis next).bind
      rintro _ _ ⟨rfl, rfl⟩
      exact .done ⟨rfl, rfl⟩

/-- What differs between the peers of one class. -/
structure OnHosts (model : ClassModel) (configuration : Configuration) (declared : ManagedClass)
    (unix windows : Peer) : Prop where
  className : unix.className = declared.qualifiedName
  baseName : unix.baseName = baseNameOf declared
  bare : { unix with constants := [] } = { windows with constants := [] }
  constants : ∃ constants, ConstantMacro.ofClass model configuration declared = .ok constants ∧
    unix.constants = constants.map (ConstantMacro.definition .unix) ∧
    windows.constants = constants.map (ConstantMacro.definition .windows)

theorem constantsOf_alike (declared : ManagedClass) :
    Alike (fun unix windows => ∃ constants,
        ConstantMacro.ofClass model configuration declared = .ok constants ∧
          unix = constants.map (ConstantMacro.definition .unix) ∧
          windows = constants.map (ConstantMacro.definition .windows))
      (constantsOf model (configuration.on .unix) declared)
      (constantsOf model (configuration.on .windows) declared) := by
  unfold constantsOf ConstantMacro.ofClass
  change Alike _ (if configuration.emitsConstants = true then _ else _)
    (if configuration.emitsConstants = true then _ else _)
  split
  · cases model.flattenFields declared with
    | error error => exact .failed _
    | ok fields =>
      apply (bindConstants_alike declared.qualifiedName _ fields).imp
      intro unix windows both
      exact ⟨_, rfl, both⟩
  · exact .done ⟨[], rfl, rfl, rfl⟩

theorem bind_alike (declared : ManagedClass) :
    Logged.Alike (OnHosts model configuration declared)
      (bind model (configuration.on .unix) declared)
      (bind model (configuration.on .windows) declared) := by
  have sameMethods := @bindMethods_congr model (configuration.on .windows) (configuration.on .unix)
    rfl
  unfold Peer.bind
  simp only [sameMethods]
  cases declared.isTagged with
  | false => exact Logged.Alike.failed _ _ _
  | true =>
    apply Logged.Alike.bind (Logged.Alike.refl _)
    rintro home _ rfl
    apply Logged.Alike.bind (Logged.Alike.refl _)
    rintro methods _ rfl
    apply Logged.Alike.bind (Logged.Alike.ofExcept (constantsOf_alike declared))
    intro unix windows constants
    exact ⟨rfl, .done ⟨rfl, rfl, rfl, constants⟩⟩

end Peer

/-! The lines of a header -/

namespace Constant

/-- The host decides only how long constants are written. -/
theorem literal_of_kind_ne {value : Constant} (other : value.kind ≠ .long) :
    value.literal .windows = value.literal .unix := by
  cases value with
  | long value => exact absurd rfl other
  | boolean value => rfl
  | byte value => rfl
  | char unit => rfl
  | short value => rfl
  | int value => rfl
  | float bits => rfl
  | double bits => rfl

end Constant

/-- The final `LL` of a line becomes `i64`. -/
def exchangeSuffix (line : Bytes) : Bytes :=
  if bytesOf "LL" <:+ line then line.take (line.length - 2) ++ bytesOf "i64" else line

/-- Only the lines with the given numbers are touched. -/
def exchangeAt (numbers : List Nat) (number : Nat) (line : Bytes) : Bytes :=
  if number ∈ numbers then exchangeSuffix line else line

/-- Lines whose numbers are not given stay. -/
theorem mapIdx_exchangeAt {numbers : List Nat} {lines : List Bytes} {start : Nat}
    (absent : ∀ index < lines.length, index + start ∉ numbers) :
    lines.mapIdx (fun index => exchangeAt numbers (index + start)) = lines := by
  apply List.ext_getElem
  · simp
  · intro index inside _
    rw [List.length_mapIdx] at inside
    simp [exchangeAt, absent index inside]

theorem bytesOf_append (first second : String) :
    bytesOf (first ++ second) = bytesOf first ++ bytesOf second := by
  simp [bytesOf]

theorem exchangeSuffix_append (text : String) :
    exchangeSuffix (bytesOf (text ++ "LL")) = bytesOf (text ++ "i64") := by
  have two : (bytesOf "LL").length = 2 := by decide
  rw [bytesOf_append, bytesOf_append, exchangeSuffix, if_pos (List.suffix_append _ _)]
  simp [two]

namespace ConstantMacro

/-- The line that defines a macro. -/
def defining (host : Host) (constant : ConstantMacro) : String :=
  "#define " ++ constant.symbol ++ " " ++ constant.value.literal host

/-- The numbers of the lines that define long constants. The first constant is defined in the line
`number` and each of the others two lines after the one before it. -/
def longLines (number : Nat) : List ConstantMacro → List Nat
  | [] => []
  | constant :: constants =>
    if constant.value.kind = .long then number :: longLines (number + 2) constants
    else longLines (number + 2) constants

/-- The hosts write the definition of a long constant with different ends. -/
theorem exists_defining {constant : ConstantMacro} (long : constant.value.kind = .long) :
    ∃ stem, constant.defining .unix = stem ++ "LL" ∧
      constant.defining .windows = stem ++ "i64" := by
  obtain ⟨symbol, value⟩ := constant
  cases value with
  | long value =>
    simp only [defining, Constant.literal, Constant.integerLiteral, Host.longSuffix,
      ← String.append_assoc]
    exact ⟨_, rfl, rfl⟩
  | boolean value | byte value | char unit | short value | int value | float bits | double bits =>
    cases long

theorem suffix_defining {constant : ConstantMacro} (long : constant.value.kind = .long) :
    bytesOf "LL" <:+ bytesOf (constant.defining .unix) := by
  obtain ⟨stem, unix, -⟩ := exists_defining long
  rw [unix, bytesOf_append]
  exact List.suffix_append _ _

theorem exchangeSuffix_defining {constant : ConstantMacro} (long : constant.value.kind = .long) :
    exchangeSuffix (bytesOf (constant.defining .unix)) = bytesOf (constant.defining .windows) := by
  obtain ⟨stem, unix, windows⟩ := exists_defining long
  rw [unix, windows, exchangeSuffix_append]

theorem mem_longLines_cons {constant : ConstantMacro} {constants : List ConstantMacro}
    {first number : Nat} :
    number ∈ longLines first (constant :: constants) ↔
      constant.value.kind = .long ∧ number = first ∨ number ∈ longLines (first + 2) constants := by
  rw [longLines]
  split
  · next long => simp [long]
  · next short => simp [short]

theorem bounds_of_mem_longLines {constants : List ConstantMacro} {first number : Nat}
    (member : number ∈ longLines first constants) :
    first ≤ number ∧ number + 2 ≤ first + 2 * constants.length := by
  induction constants generalizing first with
  | nil => cases member
  | cons constant constants inductionHypothesis =>
    rw [List.length_cons]
    rcases mem_longLines_cons.mp member with here | later
    · omega
    · have := inductionHypothesis later
      omega

/-- A line that defines a constant is exchanged if the constant is long. -/
theorem exchangeAt_defining (constant : ConstantMacro) (constants : List ConstantMacro)
    (number : Nat) :
    exchangeAt (longLines number (constant :: constants)) number
        (bytesOf (constant.defining .unix)) = bytesOf (constant.defining .windows) := by
  by_cases long : constant.value.kind = .long
  · have member : number ∈ longLines number (constant :: constants) :=
      mem_longLines_cons.mpr (.inl ⟨long, rfl⟩)
    rw [exchangeAt, if_pos member, exchangeSuffix_defining long]
  · have absent : number ∉ longLines number (constant :: constants) := by
      rw [mem_longLines_cons]
      rintro (here | later)
      · exact long here.1
      · have := bounds_of_mem_longLines later
        omega
    rw [exchangeAt, if_neg absent, defining, defining, Constant.literal_of_kind_ne long]

/-- The lines of some macros. -/
def lines (host : Host) (constants : List ConstantMacro) : List Bytes :=
  (constants.map (definition host)).flatMap fun definition => definition.lines.map bytesOf

theorem lines_cons (host : Host) (constant : ConstantMacro) (constants : List ConstantMacro) :
    lines host (constant :: constants) =
      bytesOf ("#undef " ++ constant.symbol) :: bytesOf (constant.defining host) ::
        lines host constants := rfl

theorem length_lines (host : Host) (constants : List ConstantMacro) :
    (lines host constants).length = 2 * constants.length := by
  induction constants with
  | nil => rfl
  | cons constant constants inductionHypothesis =>
    rw [lines_cons, List.length_cons, List.length_cons, inductionHypothesis, List.length_cons]
    omega

/-- The second of two lines defines a constant. -/
theorem getElem?_lines {constants : List ConstantMacro} {place : Nat} {constant : ConstantMacro}
    (found : constants[place]? = some constant) (host : Host) :
    (lines host constants)[2 * place + 1]? = some (bytesOf (constant.defining host)) := by
  induction constants generalizing place with
  | nil => cases found
  | cons other constants inductionHypothesis =>
    cases place with
    | zero =>
      cases found
      rfl
    | succ place => exact inductionHypothesis found

/-- The exchange turns the macros of one host into those of the other. -/
theorem mapIdx_lines (constants : List ConstantMacro) (start : Nat) :
    (lines .unix constants).mapIdx
        (fun index => exchangeAt (longLines (start + 1) constants) (index + start)) =
      lines .windows constants := by
  induction constants generalizing start with
  | nil => rfl
  | cons constant constants inductionHypothesis =>
    have before : start ∉ longLines (start + 1) (constant :: constants) := fun member => by
      have := bounds_of_mem_longLines member
      omega
    have after : (fun index => exchangeAt (longLines (start + 1) (constant :: constants))
        (index + 1 + 1 + start)) =
        fun index => exchangeAt (longLines (start + 2 + 1) constants) (index + (start + 2)) := by
      funext index line
      have same : index + 1 + 1 + start ∈ longLines (start + 1) (constant :: constants) ↔
          index + (start + 2) ∈ longLines (start + 2 + 1) constants := by
        rw [mem_longLines_cons, show index + 1 + 1 + start = index + (start + 2) by omega]
        simp
        omega
      simp only [exchangeAt, same]
    simp only [lines_cons, List.mapIdx_cons, after, inductionHypothesis, Nat.zero_add]
    rw [exchangeAt, if_neg before, Nat.add_comm 1 start, exchangeAt_defining]

/-- Nothing but the macros is exchanged. -/
theorem mapIdx_between (constants : List ConstantMacro) (before after : List Bytes) :
    (before ++ (lines .unix constants ++ after)).mapIdx
        (exchangeAt (longLines (before.length + 1) constants)) =
      before ++ (lines .windows constants ++ after) := by
  have bounds {number : Nat} (member : number ∈ longLines (before.length + 1) constants) :=
    bounds_of_mem_longLines member
  have beforeStays : before.mapIdx (exchangeAt (longLines (before.length + 1) constants)) =
      before := by
    apply @mapIdx_exchangeAt _ _ 0
    intro index inside member
    have := bounds member
    omega
  have afterStays : after.mapIdx (fun index =>
        exchangeAt (longLines (before.length + 1) constants)
          (index + (2 * constants.length + before.length))) = after := by
    apply mapIdx_exchangeAt
    intro index _ member
    have := bounds member
    omega
  rw [List.mapIdx_append, List.mapIdx_append, beforeStays, mapIdx_lines, length_lines]
  simp only [Nat.add_assoc, afterStays]

theorem within_symbol {model : ClassModel} {configuration : Configuration}
    {declared : ManagedClass} {constants : List ConstantMacro}
    (given : ofClass model configuration declared = .ok constants) :
    ∀ constant ∈ constants, Within (isSymbolLetter · = true) constant.symbol := by
  unfold ofClass at given
  split at given
  · obtain ⟨fields, _, rfl⟩ := except_map_eq_ok.mp given
    intro constant listed
    obtain ⟨field, fieldListed, shown⟩ := List.mem_filterMap.mp listed
    have definitionListed : constant.definition .unix ∈ fields.filterMap
        (MacroDefinition.ofConstant? .unix declared.qualifiedName) := by
      apply List.mem_filterMap.mpr
      exact ⟨field, fieldListed, by rw [ofConstant?_eq, shown, Option.map_some]⟩
    exact (MacroDefinition.within_of_mem definitionListed).1
  · cases given
    exact List.forall_mem_nil _

end ConstantMacro

namespace Peer

/-- The lines after the macros. -/
def closing (peer : Peer) : List String :=
  (if peer.constants = [] then [] else [""]) ++
    (peer.home.beginning :: peer.inside ++ [peer.home.ending])

theorem declaration_eq (peer : Peer) :
    peer.declaration =
      opening ++ peer.constants.flatMap MacroDefinition.lines ++ peer.closing := by
  rw [declaration_eq_scopes, closing, constantLines]
  split
  · next none => simp [none]
  · next some => simp

variable {model : ClassModel} {configuration : Configuration} {declared : ManagedClass}
  {unix windows : Peer}

/-- The opening and the macros are lines of the file. -/
theorem byteLines_declaration {host : Host} {constants : List ConstantMacro} {peer : Peer}
    (shown : peer.constants = constants.map (ConstantMacro.definition host))
    (symbolic : ∀ constant ∈ constants, Within (isSymbolLetter · = true) constant.symbol) :
    byteLines (PeerSource.encode .unix peer.declaration) =
      opening.map bytesOf ++
        (ConstantMacro.lines host constants ++
          byteLines (PeerSource.encode .unix peer.closing)) := by
  have unbroken : ∀ line ∈ opening ++ peer.constants.flatMap MacroDefinition.lines,
      '\n' ∉ line.toList := by
    have template : ∀ letter, isTemplateLetter letter = true → isTemplateLetter letter = true :=
      fun _ template => template
    rw [List.forall_mem_append, List.forall_mem_flatMap, shown, List.forall_mem_map]
    refine ⟨fun line listed => (within_opening line listed).not_mem (by decide),
      fun constant listed line member => ?_⟩
    exact ((constant.definition host).within_lines (flat_of_template template)
      (within_of_symbol template (symbolic constant listed)) (constant.value.template_literal host)
      line member).not_mem (by decide)
  rw [declaration_eq, PeerSource.encode_append, PeerSource.byteLines_encode_append unbroken,
    List.map_append, List.map_flatMap, List.append_assoc, shown]
  rfl

namespace OnHosts

variable (pair : OnHosts model configuration declared unix windows)

include pair

/-- The constants stand in no line of the definition. -/
theorem definition_eq (precompiledHeader : Option String) :
    windows.definition precompiledHeader = unix.definition precompiledHeader :=
  (congrArg (Peer.definition precompiledHeader) pair.bare).symm

theorem closing_eq : windows.closing = unix.closing := by
  obtain ⟨_, _, bare, constants, _, unixShown, windowsShown⟩ := pair
  have scopes : windows.home.beginning :: windows.inside ++ [windows.home.ending] =
      unix.home.beginning :: unix.inside ++ [unix.home.ending] :=
    (congrArg (fun peer : Peer => peer.home.beginning :: peer.inside ++ [peer.home.ending])
      bare).symm
  rw [closing, closing, scopes, unixShown, windowsShown]
  simp

theorem header : ∃ constants, ConstantMacro.ofClass model configuration declared = .ok constants ∧
    (∀ place constant, constants[place]? = some constant →
      (byteLines (PeerSource.encode .unix unix.declaration))[7 + 2 * place]? =
        some (bytesOf (constant.defining .unix)) ∧
      (constant.value.kind = .long → bytesOf "LL" <:+ bytesOf (constant.defining .unix))) ∧
    PeerSource.encode .windows windows.declaration =
      withReturns (changeLines (exchangeAt (ConstantMacro.longLines 7 constants))
        (PeerSource.encode .unix unix.declaration)) := by
  have sameClosing := pair.closing_eq
  obtain ⟨_, _, _, constants, given, unixShown, windowsShown⟩ := pair
  have symbolic := ConstantMacro.within_symbol given
  have unixLines := byteLines_declaration unixShown symbolic
  have windowsLines := byteLines_declaration windowsShown symbolic
  have openingLength : (opening.map bytesOf).length = 6 := rfl
  refine ⟨constants, given, ?_, ?_⟩
  · intro place constant found
    have shown := ConstantMacro.getElem?_lines found .unix
    have inside := (List.getElem?_eq_some_iff.mp shown).1
    rw [unixLines, List.getElem?_append_right (by omega), openingLength,
      show 7 + 2 * place - 6 = 2 * place + 1 by omega, List.getElem?_append_left inside, shown]
    exact ⟨rfl, ConstantMacro.suffix_defining⟩
  · have exchanged : changeLines (exchangeAt (ConstantMacro.longLines 7 constants))
        (PeerSource.encode .unix unix.declaration) =
        PeerSource.encode .unix windows.declaration := by
      apply changeLines_eq
      rw [unixLines, windowsLines, sameClosing]
      exact ConstantMacro.mapIdx_between constants (opening.map bytesOf) _
    rw [PeerSource.encode_windows, exchanged]

end OnHosts

end Peer

end NativePeer
