import NativePeer.Peer.Source
import NativePeer.Proofs.Peer.Methods
import NativePeer.Proofs.Text.Cut
import NativePeer.Proofs.Text.Letters

/-
This file shows that a peer file reads back to its lines and says which letters stand in them.
-/

namespace NativePeer

namespace Text

def ofLatin1 (byte : UInt8) : Char :=
  Char.ofNat byte.toNat

/-- What is left of a letter in a file. -/
def shownLetter (letter : Char) : Char :=
  ofLatin1 (latin1Byte letter)

theorem shownLetter_of_lt {letter : Char} (small : letter.toNat < 0x100) :
    shownLetter letter = letter := by
  have kept : letter.toNat.toUInt8.toNat = letter.toNat := Nat.mod_eq_of_lt small
  rw [shownLetter, ofLatin1, latin1Byte, if_pos small, kept, Char.ofNat_toNat]

theorem shownLetter_ne_lineFeed {letter : Char} (other : letter ≠ '\n') :
    shownLetter letter ≠ '\n' := by
  by_cases small : letter.toNat < 0x100
  · rwa [shownLetter_of_lt small]
  · rw [shownLetter, latin1Byte, if_neg small]
    decide

/-- A line without what the line separator of a host leaves before the line feed. -/
def withoutReturn : Host → List Char → List Char
  | .windows, line => line.dropLast
  | .unix, line => line

/-- The lines of a file. What follows the last line feed is one more line. -/
def fileLines (host : Host) (file : Bytes) : List (List Char) :=
  (pieces '\n' (file.map ofLatin1)).map (withoutReturn host)

/-- The lines that a text is cut into at its line feeds. -/
def linesOf (text : String) : List String :=
  (pieces '\n' text.toList).map String.ofList

/-- What a file shows of some texts that it holds one after the other. -/
def shownLines (texts : List String) : List (List Char) :=
  (texts.flatMap linesOf).map fun line => line.toList.map shownLetter

theorem not_mem_of_mem_linesOf {text line : String} (member : line ∈ linesOf text) :
    '\n' ∉ line.toList := by
  obtain ⟨piece, listed, rfl⟩ := List.mem_map.mp member
  rw [String.toList_ofList]
  exact not_mem_of_mem_pieces listed

/-- A line feed after each of its lines makes a text up. -/
theorem flatMap_linesOf (text : String) :
    (linesOf text).flatMap (fun line => line.toList ++ ['\n']) = text.toList ++ ['\n'] := by
  simp only [linesOf, List.flatMap_map, String.toList_ofList, flatMap_pieces]

theorem shownLines_append (first second : List String) :
    shownLines (first ++ second) = shownLines first ++ shownLines second := by
  rw [shownLines, List.flatMap_append, List.map_append]
  rfl

theorem shownLines_flatMap {A : Type} (values : List A) (texts : A → List String) :
    shownLines (values.flatMap texts) = values.flatMap fun value => shownLines (texts value) := by
  simp only [shownLines, List.flatMap_assoc, List.map_flatMap]

theorem map_shownLetter {text : String} (plain : Within (isPlainLetter · = true) text) :
    text.toList.map shownLetter = text.toList := by
  refine (List.map_congr_left fun letter member => ?_).trans (List.map_id _)
  have both : isPlainLetter letter = true := plain letter member
  rw [isPlainLetter, Bool.and_eq_true, decide_eq_true_eq] at both
  exact shownLetter_of_lt both.1

/-- Plain texts are shown as they are. -/
theorem shownLines_of_plain {texts : List String}
    (plain : ∀ text ∈ texts, Within (isPlainLetter · = true) text) :
    shownLines texts = texts.map String.toList := by
  have whole {text : String} (listed : text ∈ texts) : linesOf text = [text] := by
    rw [linesOf, pieces_of_not_mem ((plain text listed).not_mem (by decide)), List.map_singleton,
      String.ofList_toList]
  rw [shownLines, List.flatMap_congr fun text listed => whole listed, List.flatMap_singleton']
  exact List.map_congr_left fun text listed => map_shownLetter (plain text listed)

theorem latin1_of_not_mem {separator : Bytes} {letters : List Char} (unbroken : '\n' ∉ letters) :
    latin1 separator letters = letters.map latin1Byte := by
  induction letters with
  | nil => rfl
  | cons letter letters inductionHypothesis =>
    rw [List.mem_cons, not_or] at unbroken
    rw [latin1, List.flatMap_cons, if_neg (Ne.symm unbroken.1), ← latin1,
      inductionHypothesis unbroken.2]
    rfl

end Text

namespace PeerSource

open Text

theorem encode_append (host : Host) (first second : List String) :
    encode host (first ++ second) = encode host first ++ encode host second := by
  simp only [encode, latin1, List.flatMap_append]

theorem toList_lineSeparator_windows :
    Host.windows.lineSeparator.toUTF8.toList = [13, 10] := by decide +kernel

theorem toList_lineSeparator_unix : Host.unix.lineSeparator.toUTF8.toList = [10] := by
  decide +kernel

theorem map_ofLatin1_lineSeparator (host : Host) :
    ∃ returned, (host.lineSeparator.toUTF8.toList).map ofLatin1 = returned ++ ['\n'] ∧
      '\n' ∉ returned ∧ ∀ line, withoutReturn host (line ++ returned) = line := by
  cases host with
  | windows =>
    refine ⟨['\r'], ?_, by decide, fun line => ?_⟩
    · rw [toList_lineSeparator_windows]
      rfl
    · rw [withoutReturn, List.dropLast_concat]
  | unix =>
    refine ⟨[], ?_, by decide, fun line => ?_⟩
    · rw [toList_lineSeparator_unix]
      rfl
    · rw [withoutReturn, List.append_nil]

/-- A file reads back to its lines if no line is broken by a line feed. -/
theorem fileLines_encode_of_unbroken (host : Host) {lines : List String}
    (unbroken : ∀ line ∈ lines, '\n' ∉ line.toList) :
    fileLines host (encode host lines) =
      lines.map (fun line => line.toList.map shownLetter) ++ [[]] := by
  obtain ⟨returned, separator, noFeed, dropped⟩ := map_ofLatin1_lineSeparator host
  induction lines with
  | nil => cases host <;> rfl
  | cons line lines inductionHypothesis =>
    rw [List.forall_mem_cons] at unbroken
    have begun : (encode host (line :: lines)).map ofLatin1 =
        (line.toList.map shownLetter ++ returned) ++ '\n' :: (encode host lines).map ofLatin1 := by
      have feed : latin1 host.lineSeparator.toUTF8.toList ['\n'] =
          host.lineSeparator.toUTF8.toList := List.flatMap_singleton _ _
      have single : encode host [line] =
          line.toList.map latin1Byte ++ host.lineSeparator.toUTF8.toList := by
        rw [encode, List.flatMap_singleton, latin1, List.flatMap_append, ← latin1, ← latin1,
          latin1_of_not_mem unbroken.1, feed]
      rw [← List.singleton_append, encode_append, single, List.map_append, List.map_append,
        List.map_map, separator]
      simp only [List.append_assoc, List.singleton_append]
      rfl
    have unbrokenLine : '\n' ∉ line.toList.map shownLetter ++ returned := by
      rw [List.mem_append, not_or, List.mem_map]
      refine ⟨?_, noFeed⟩
      rintro ⟨letter, member, same⟩
      exact shownLetter_ne_lineFeed (fun feed => unbroken.1 (feed ▸ member)) same
    have later := inductionHypothesis unbroken.2
    rw [fileLines] at later
    rw [fileLines, begun, pieces_append_cons, pieces_of_not_mem unbrokenLine, List.map_append,
      later, List.map_singleton, dropped]
    rfl

theorem encode_linesOf (host : Host) (texts : List String) :
    encode host (texts.flatMap linesOf) = encode host texts := by
  rw [encode, encode, List.flatMap_assoc]
  exact congrArg _ (List.flatMap_congr fun text _ => flatMap_linesOf text)

/-- A file reads back to what it shows of its texts, whatever their letters are. -/
theorem fileLines_encode (host : Host) (texts : List String) :
    fileLines host (encode host texts) = shownLines texts ++ [[]] := by
  rw [← encode_linesOf, fileLines_encode_of_unbroken host fun line member => ?_, shownLines]
  obtain ⟨_, _, cut⟩ := List.mem_flatMap.mp member
  exact not_mem_of_mem_linesOf cut

/-- A file ends with what it shows of its last texts, whatever stands before them. -/
theorem suffix_fileLines_encode (host : Host) {first second : List String}
    {shown : List (List Char)} (ending : shownLines second = shown) :
    shown ++ [[]] <:+ fileLines host (encode host (first ++ second)) := by
  rw [fileLines_encode, shownLines_append, List.append_assoc, ending]
  exact List.suffix_append _ _

/-- A file of plain letters tells its lines. -/
theorem encode_injective (host : Host) {firsts seconds : List String}
    (firstPlain : ∀ line ∈ firsts, Within (isPlainLetter · = true) line)
    (secondPlain : ∀ line ∈ seconds, Within (isPlainLetter · = true) line)
    (same : encode host firsts = encode host seconds) : firsts = seconds := by
  have read {lines : List String} (plain : ∀ line ∈ lines, Within (isPlainLetter · = true) line) :
      fileLines host (encode host lines) = lines.map String.toList ++ [[]] := by
    rw [fileLines_encode, shownLines_of_plain plain]
  have shown := (read firstPlain).symm.trans ((congrArg (fileLines host) same).trans
    (read secondPlain))
  exact (List.map_inj_right fun _ _ equal => String.toList_injective equal).mp
    (List.append_cancel_right shown)

end PeerSource

open Text

/-- Every name that a peer gives consists of ASCII letters, digits and underscores. -/
structure Peer.IsSymbolic (peer : Peer) : Prop where
  baseName : Within (isSymbolLetter · = true) peer.baseName
  symbols : ∀ shown ∈ peer.methods, Within (isSymbolLetter · = true) shown.symbol
  parameters : ∀ shown ∈ peer.methods, ∀ parameter ∈ shown.parameters,
    Within (isSymbolLetter · = true) parameter.name

theorem Peer.within_symbolOf (disambiguated : Bool) (method : Method) :
    Within (isSymbolLetter · = true) (symbolOf disambiguated method) := by
  have name := SymbolRole.member.within_mangle method.name
  unfold symbolOf
  split
  · have underscores : Within (isSymbolLetter · = true) "__" := by decide
    exact within_append.mpr ⟨within_append.mpr ⟨name, underscores⟩,
      SymbolRole.descriptor.within_mangle _⟩
  · exact name

theorem Peer.isSymbolic_of_bind {model : ClassModel} {configuration : Configuration}
    {declared : ManagedClass} {peer : Peer}
    (bound : (Peer.bind model configuration declared).result = .ok peer) : peer.IsSymbolic := by
  obtain ⟨_, base, _, _, methods⟩ := bind_binds bound
  refine ⟨?_, fun shown member => ?_, fun shown member parameter given => ?_⟩
  · have suffix : Within (isSymbolLetter · = true) peerSuffix := by decide
    rw [base]
    exact within_append.mpr ⟨SymbolRole.className.within_mangle _, suffix⟩
  · obtain ⟨method, _, binds⟩ := exists_of_forall₂_of_mem methods member
    rw [binds.symbol_eq]
    exact within_symbolOf _ method
  · obtain ⟨method, _, binds⟩ := exists_of_forall₂_of_mem methods member
    obtain ⟨declaredParameter, _, pair⟩ := exists_of_forall₂_of_mem binds.parameters given
    rw [pair.name]
    exact SymbolRole.member.within_mangle _

theorem Primitive.symbolic_name (kind : Primitive) :
    Within (isSymbolLetter · = true) kind.name := by
  cases kind <;> exact within_ofList (by decide)

theorem NativeType.symbolic_name (type : NativeType) :
    Within (isSymbolLetter · = true) type.name := by
  cases type with
  | void | string | throwable | classObject | object | objectArray =>
    exact within_ofList (by decide)
  | primitive kind =>
    exact within_append.mpr ⟨within_ofList (by decide), kind.symbolic_name⟩
  | primitiveArray kind =>
    exact within_append.mpr ⟨within_append.mpr ⟨within_ofList (by decide), kind.symbolic_name⟩,
      within_ofList (by decide)⟩

theorem ReturnKind.symbolic_resultName (kind : ReturnKind) :
    Within (isSymbolLetter · = true) kind.resultName := by
  cases kind with
  | void | object => exact within_ofList (by decide)
  | primitive kind => cases kind <;> exact within_ofList (by decide)

theorem ReturnKind.symbolic_callFunction (kind : ReturnKind) (isStatic : Bool) :
    Within (isSymbolLetter · = true) (kind.callFunction isStatic) := by
  have called : Within (isSymbolLetter · = true) (if isStatic then "CallStatic" else "Call") := by
    split
    · exact within_ofList (by decide)
    · exact within_ofList (by decide)
  exact within_append.mpr ⟨within_append.mpr ⟨called, kind.symbolic_resultName⟩,
    within_ofList (by decide)⟩

section Flat

variable {allowed : Char → Prop}
  (flat : ∀ letter, isFlatLetter letter = true → allowed letter)

include flat

namespace BoundMethod

variable {shown : BoundMethod} (symbol : Within (isSymbolLetter · = true) shown.symbol)
  (parameters : ∀ parameter ∈ shown.parameters, Within (isSymbolLetter · = true) parameter.name)

include symbol parameters

theorem within_signature {scope : String} (qualified : Within allowed scope) :
    Within allowed (shown.signature scope) := by
  have list : Within allowed shown.parameterList := by
    refine within_intercalate (within_of_letters flat (by decide)) ?_
    intro text member
    obtain ⟨parameter, given, rfl⟩ := List.mem_map.mp member
    simp only [within_append]
    exact ⟨⟨within_of_name flat parameter.type.symbolic_name,
      within_of_letters flat (by decide)⟩,
      within_of_name flat (parameters parameter given)⟩
  have name := within_of_name flat shown.returns.symbolic_name
  have written := within_of_name flat symbol
  simp (disch := refine within_ofList ?_; decide) only [signature, within_append,
    within_of_template flat, name, qualified, written, list, and_self]

theorem within_prototype : Within allowed shown.prototype := by
  have signature := within_signature flat symbol parameters
    (within_of_letters flat (by decide) : Within allowed "")
  have modifier : Within allowed (if shown.method.isStatic then "static " else "") := by
    split
    · exact within_of_letters flat (by decide)
    · exact within_of_letters flat (by decide)
  simp (disch := refine within_ofList ?_; decide) only [prototype, within_append,
    within_of_template flat, signature, modifier, and_self]

omit symbol in
theorem within_invocation : Within allowed shown.invocation := by
  have arguments : Within allowed (", ".intercalate shown.arguments) := by
    refine within_intercalate (within_of_letters flat (by decide)) ?_
    rw [arguments, List.forall_mem_append, List.forall_mem_cons, List.forall_mem_map]
    refine ⟨?_, within_of_letters flat (by decide), fun parameter given =>
      within_of_name flat (parameters parameter given)⟩
    cases shown.method.isStatic with
    | true => exact List.forall_mem_nil _
    | false => exact List.forall_mem_singleton.mpr (within_of_letters flat (by decide))
  have name := within_of_name flat shown.returns.symbolic_name
  have called := within_of_name flat
    (shown.returns.returnKind.symbolic_callFunction shown.method.isStatic)
  simp (disch := refine within_ofList ?_; decide) only [invocation, within_append,
    within_of_template flat, called, arguments, and_true]
  constructor
  · split
    · exact within_of_letters flat (by decide)
    · exact within_of_letters flat (by decide)
  · split
    · simp (disch := refine within_ofList ?_; decide) only [within_append, within_of_template flat,
        name, and_self]
    · exact within_of_letters flat (by decide)

end BoundMethod

theorem MacroDefinition.within_lines {definition : MacroDefinition}
    (symbol : Within allowed definition.symbol) (literal : Within allowed definition.literal) :
    ∀ line ∈ definition.lines, Within allowed line := by
  simp (disch := refine within_ofList ?_; decide) only [lines, List.forall_mem_cons,
    List.not_mem_nil, false_imp_iff, implies_true, within_append, within_of_template flat, symbol,
    literal, and_self]

end Flat

section Within

variable {allowed : Char → Prop}
  (template : ∀ letter, isTemplateLetter letter = true → allowed letter)

include template

namespace Namespace

variable {home : Namespace} (segments : ∀ segment ∈ home.segments, Within allowed segment)

include segments

theorem within_beginning : Within allowed home.beginning := by
  refine within_join fun text member => ?_
  obtain ⟨segment, listed, rfl⟩ := List.mem_map.mp member
  simp (disch := refine within_ofList ?_; decide) only [within_append, within_of_template template,
    segments segment listed, and_self]

theorem within_ending : Within allowed home.ending := by
  have braces : Within allowed (String.join (home.segments.map fun _ => "\x7d")) := by
    refine within_join fun text member => ?_
    obtain ⟨_, _, rfl⟩ := List.mem_map.mp member
    exact within_of_letters template (by decide)
  have dotted : Within allowed home.dotted :=
    within_intercalate (within_of_letters template (by decide)) segments
  simp (disch := refine within_ofList ?_; decide) only [ending, within_append,
    within_of_template template, braces, dotted, and_self]

end Namespace

namespace Peer

variable {peer : Peer} (symbolic : peer.IsSymbolic)
  (segments : ∀ segment ∈ peer.home.segments, Within allowed segment)

include symbolic segments

/-- The declaration has the letters of the templates, of its namespace and of its macros. -/
theorem within_declaration
    (constants : ∀ definition ∈ peer.constants,
      Within allowed definition.symbol ∧ Within allowed definition.literal) :
    ∀ line ∈ peer.declaration, Within allowed line := by
  have flat := flat_of_template template
  have base := within_of_symbol template symbolic.baseName
  have beginning := peer.home.within_beginning template segments
  have ending := peer.home.within_ending template segments
  have macros : ∀ line ∈ peer.constantLines, Within allowed line := by
    unfold constantLines
    split
    · exact List.forall_mem_nil _
    · refine List.forall_mem_append.mpr ⟨List.forall_mem_flatMap.mpr ?_, ?_⟩
      · intro definition listed
        obtain ⟨symbol, literal⟩ := constants definition listed
        exact definition.within_lines flat symbol literal
      · exact List.forall_mem_singleton.mpr (within_of_letters template (by decide))
  have prototypes : ∀ line ∈ peer.methods.map BoundMethod.prototype, Within allowed line := by
    rw [List.forall_mem_map]
    exact fun shown member => BoundMethod.within_prototype flat (symbolic.symbols shown member)
      (symbolic.parameters shown member)
  simp (disch := refine within_ofList ?_; decide) only [declaration, List.forall_mem_append,
    List.forall_mem_cons, List.not_mem_nil, false_imp_iff, implies_true, notice, within_append,
    within_of_template template, base, beginning, ending, and_self, and_true, true_and]
  exact ⟨macros, prototypes⟩

/-- The definition has the letters of the templates, of its namespace, of the managed names and of
the descriptors. -/
theorem within_definition (described : Within allowed (classDescriptor peer.className))
    (methods : ∀ shown ∈ peer.methods,
      Within allowed shown.method.name ∧ Within allowed shown.method.descriptor) :
    ∀ line ∈ peer.definition none, Within allowed line := by
  have flat := flat_of_template template
  have base := within_of_symbol template symbolic.baseName
  have beginning := peer.home.within_beginning template segments
  have ending := peer.home.within_ending template segments
  have definitions : ∀ line ∈ peer.methods.flatMap (BoundMethod.definition peer.baseName),
      Within allowed line := by
    rw [List.forall_mem_flatMap]
    intro shown member
    obtain ⟨name, descriptor⟩ := methods shown member
    have signature := BoundMethod.within_signature flat (symbolic.symbols shown member)
      (symbolic.parameters shown member)
      (within_append.mpr ⟨base, (within_of_letters template (by decide) : Within allowed "::")⟩)
    have invocation := BoundMethod.within_invocation flat (symbolic.parameters shown member)
    simp (disch := refine within_ofList ?_; decide) only [BoundMethod.definition,
      List.forall_mem_cons, List.not_mem_nil, false_imp_iff, implies_true, within_append,
      within_of_template template, name, descriptor, signature, invocation, and_self]
  simp (disch := refine within_ofList ?_; decide) only [definition, classLookup,
    List.forall_mem_append, List.forall_mem_cons, List.not_mem_nil, false_imp_iff, implies_true,
    notice, within_append, within_of_template template, base, beginning, ending, described,
    Option.map_none, Option.toList_none, and_self, and_true, true_and]
  exact definitions

end Peer

end Within

end NativePeer
