import NativePeer.Proofs.Native.Descriptor
import NativePeer.Proofs.Native.Identifier
import NativePeer.Proofs.Native.Injectivity

/-
This file shows which descriptors read back from their mangled forms.
-/

namespace NativePeer

namespace Text

def digitValue (digit : Char) : Nat :=
  if digit.isDigit then digit.toNat - '0'.toNat else digit.toNat - 'a'.toNat + 10

/-- The code unit that hexadecimal digits show. -/
def unitOf (digits : List Char) : Nat :=
  digits.foldl (fun value digit => 16 * value + digitValue digit) 0

theorem digitValue_digitChar (code : Nat) : digitValue (Nat.digitChar (code % 16)) = code % 16 := by
  have inRange : code % 16 < 16 := Nat.mod_lt _ (by decide)
  have everyDigit : ∀ digit < 16, digitValue (Nat.digitChar digit) = digit := by decide
  exact everyDigit _ inRange

theorem unitOf_hexDigits {unit : Nat} (small : unit < 0x10000) :
    unitOf (hexDigits unit) = unit := by
  simp only [unitOf, hexDigits, List.foldl_cons, List.foldl_nil, digitValue_digitChar]
  omega

theorem codeUnits_of_isAlphanum {letter : Char} (plain : letter.isAlphanum = true) :
    codeUnits letter = [letter.toNat] := by
  have symbolic : isSymbolLetter letter = true := by rw [isSymbolLetter, plain, Bool.true_or]
  have small := (lt_of_isTemplateLetter (isTemplateLetter_of_isSymbolLetter symbolic)).1
  exact if_pos (Nat.lt_trans small (by decide))

end Text

namespace SymbolRole

/-- The digits that tell the letters of a descriptor after an underscore. -/
def descriptorMarks : List Char := ['0', '1', '2', '3']

/-- Whether a text has no dot and no slash before a mark, so that its mangled form as a descriptor
can be read back. -/
def slashesApart : List Char → Bool
  | [] => true
  | letter :: letters =>
    letter ≠ '.' && !(letter = '/' && letters.head?.any (· ∈ descriptorMarks)) &&
      slashesApart letters

/-- The code units that a mangled descriptor stands for, from the left. An underscore without a
mark stands for a slash. -/
def demangle : List Char → List Nat
  | '_' :: '0' :: first :: second :: third :: fourth :: letters =>
    Text.unitOf [first, second, third, fourth] :: demangle letters
  | '_' :: '1' :: letters => '_'.toNat :: demangle letters
  | '_' :: '2' :: letters => ';'.toNat :: demangle letters
  | '_' :: '3' :: letters => '['.toNat :: demangle letters
  | '_' :: letters => '/'.toNat :: demangle letters
  | letter :: letters => letter.toNat :: demangle letters
  | [] => []

variable {letter : Char} {letters : List Char}

theorem demangle_of_ne (plain : letter ≠ '_') :
    demangle (letter :: letters) = letter.toNat :: demangle letters := by
  rw [demangle]
  all_goals (intros; contradiction)

theorem demangle_slash (unmarked : letters.head?.any (· ∈ descriptorMarks) = false) :
    demangle ('_' :: letters) = '/'.toNat :: demangle letters := by
  cases letters with
  | nil => rfl
  | cons letter letters =>
    have other : letter ≠ '0' ∧ letter ≠ '1' ∧ letter ≠ '2' ∧ letter ≠ '3' := by
      simpa [descriptorMarks] using unmarked
    rw [demangle]
    all_goals simp [other]

theorem demangle_escapeUnit {unit : Nat} (small : unit < 0x10000) :
    demangle (Text.escapeUnit unit ++ letters) = unit :: demangle letters := by
  have digits : demangle (Text.escapeUnit unit ++ letters) =
      Text.unitOf (Text.hexDigits unit) :: demangle letters := rfl
  rw [digits, Text.unitOf_hexDigits small]

theorem demangle_escapeUnits {units : List Nat} (small : ∀ unit ∈ units, unit < 0x10000) :
    demangle (units.flatMap Text.escapeUnit ++ letters) = units ++ demangle letters := by
  induction units with
  | nil => rfl
  | cons unit units inductionHypothesis =>
    rw [List.forall_mem_cons] at small
    rw [List.flatMap_cons, List.append_assoc, demangle_escapeUnit small.1,
      inductionHypothesis small.2, List.cons_append]

/-- The letters besides slash and dot that are replaced in a descriptor have a digit each. -/
theorem descriptor_replacement?_cases {text : String} (special : letter ≠ '/' ∧ letter ≠ '.')
    (replaced : descriptor.replacement? letter = some text) :
    (letter, text) ∈ [('_', "_1"), (';', "_2"), ('[', "_3")] := by
  unfold replacement? at replaced
  split at replaced <;> simp_all

/-- A letter reads back, unless it is written as a bare underscore. -/
theorem demangle_mangleLetter (special : letter ≠ '/' ∧ letter ≠ '.') :
    demangle (descriptor.mangleLetter letter ++ letters) =
      Text.codeUnits letter ++ demangle letters := by
  cases ordinary : letter.isAlphanum with
  | true =>
    have plain : letter ≠ '_' := by
      rintro rfl
      cases ordinary
    rw [mangleLetter_of_isAlphanum ordinary, Text.codeUnits_of_isAlphanum ordinary]
    exact demangle_of_ne plain
  | false =>
    cases replaced : descriptor.replacement? letter with
    | none =>
      rw [mangleLetter_of_escaped ordinary replaced]
      exact demangle_escapeUnits fun _ member => Text.lt_of_mem_codeUnits member
    | some text =>
      have entry := descriptor_replacement?_cases special replaced
      simp only [List.mem_cons, Prod.mk.injEq, List.not_mem_nil, or_false] at entry
      rw [mangleLetter_of_replacement? ordinary replaced]
      rcases entry with ⟨rfl, rfl⟩ | ⟨rfl, rfl⟩ | ⟨rfl, rfl⟩ <;> rfl

/-- The letters of a descriptor read back from its mangled form, since no slash is taken for the
beginning of another letter. -/
theorem demangle_flatMap_mangleLetter (apart : slashesApart letters = true) :
    demangle (letters.flatMap descriptor.mangleLetter) = letters.flatMap Text.codeUnits := by
  induction letters with
  | nil => rfl
  | cons letter letters inductionHypothesis =>
    rw [slashesApart, Bool.and_eq_true, Bool.and_eq_true, decide_eq_true_eq] at apart
    obtain ⟨⟨undotted, unmarked⟩, later⟩ := apart
    rw [List.flatMap_cons, List.flatMap_cons]
    by_cases slash : letter = '/'
    · have bare : (letters.flatMap descriptor.mangleLetter).head?.any (· ∈ descriptorMarks) =
          false := by
        cases letters with
        | nil => rfl
        | cons next letters =>
          rw [List.flatMap_cons, head?_mangleLetter_append]
          cases next.isAlphanum with
          | true => simpa [slash] using unmarked
          | false => rfl
      have written : descriptor.mangleLetter '/' = ['_'] := rfl
      rw [slash, written, List.singleton_append, demangle_slash bare, inductionHypothesis later]
      rfl
    · rw [demangle_mangleLetter ⟨slash, undotted⟩, inductionHypothesis later]

/-- Descriptors without dots, in which no slash stands before a mark, are told apart by their
mangled forms. -/
theorem descriptor_mangle_injective {first second : String}
    (firstApart : slashesApart first.toList = true)
    (secondApart : slashesApart second.toList = true)
    (same : descriptor.mangle first = descriptor.mangle second) : first = second := by
  have letters := congrArg (fun text => demangle text.toList) same
  simp only [toList_mangle, demangle_flatMap_mangleLetter firstApart,
    demangle_flatMap_mangleLetter secondApart] at letters
  apply String.toList_injective
  exact Text.codeUnits_prefixFree.eq_of_flatMap_eq Text.codeUnits_ne_nil (fun _ _ => trivial)
    (fun _ _ => trivial) letters

end SymbolRole

/-- The name of a class whose descriptor reads back from its mangled form. -/
structure IsOrdinaryClassName (className : String) : Prop extends IsDescribableName className where
  undigited : ∀ segment ∈ Text.pieces '.' className.toList, ∀ letter,
    segment.head? = some letter → letter.isDigit = false

/-- Whether no segment of a name begins with a digit. -/
def beginsUndigited (letters : List Char) : Bool :=
  (Text.pieces '.' letters).all fun segment => segment.head?.all fun letter => !letter.isDigit

theorem beginsUndigited_eq_true {letters : List Char} :
    beginsUndigited letters = true ↔ ∀ segment ∈ Text.pieces '.' letters, ∀ letter,
      segment.head? = some letter → letter.isDigit = false := by
  simp [beginsUndigited, Option.all_eq_true]

instance (className : String) : Decidable (IsOrdinaryClassName className) :=
  decidable_of_iff ((className ≠ stringClass ∧ '/' ∉ className.toList ∧ ';' ∉ className.toList) ∧
      beginsUndigited className.toList = true)
    ⟨fun parts => ⟨⟨parts.1.1, parts.1.2.1, parts.1.2.2⟩, beginsUndigited_eq_true.mp parts.2⟩,
      fun ordinary => ⟨⟨ordinary.proper, ordinary.unslashed, ordinary.unended⟩,
        beginsUndigited_eq_true.mpr ordinary.undigited⟩⟩

structure ManagedType.IsOrdinary (type : ManagedType) : Prop where
  regular : type.isRegular = true
  named : ∀ className, type.referencedClass? = some className → IsOrdinaryClassName className

instance (type : ManagedType) : Decidable type.IsOrdinary :=
  decidable_of_iff (type.isRegular = true ∧
      ∀ className ∈ type.referencedClass?, IsOrdinaryClassName className)
    ⟨fun parts => ⟨parts.1, parts.2⟩, fun ordinary => ⟨ordinary.regular, ordinary.named⟩⟩

theorem ManagedType.IsOrdinary.describable {type : ManagedType} (ordinary : type.IsOrdinary) :
    type.IsDescribable :=
  ⟨ordinary.regular, fun className named => (ordinary.named className named).toIsDescribableName⟩

namespace Text

theorem tail_pieces_cons {separator letter : Char} (other : letter ≠ separator)
    (letters : List Char) :
    (pieces separator (letter :: letters)).tail = (pieces separator letters).tail := by
  rw [pieces, if_neg other]
  cases shape : pieces separator letters with
  | nil => exact absurd shape (pieces_ne_nil separator letters)
  | cons piece rest => rfl

theorem exists_pieces_cons {separator letter : Char} (other : letter ≠ separator)
    (letters : List Char) :
    ∃ piece ∈ pieces separator (letter :: letters), piece.head? = some letter := by
  rw [pieces, if_neg other]
  cases pieces separator letters with
  | nil => exact ⟨[letter], by simp⟩
  | cons piece rest => exact ⟨letter :: piece, by simp⟩

end Text

open SymbolRole

theorem slashesApart_cons {letter : Char} {letters : List Char} (undotted : letter ≠ '.')
    (unslashed : letter ≠ '/') : slashesApart (letter :: letters) = slashesApart letters := by
  simp [slashesApart, undotted, unslashed]

/-- The slashes of a descriptor stand where a segment of the class name begins. The first segment
follows none. -/
theorem slashesApart_map_slashed {letters rest : List Char} (unslashed : '/' ∉ letters)
    (undigited : ∀ segment ∈ (Text.pieces '.' letters).tail, ∀ letter,
      segment.head? = some letter → letter.isDigit = false)
    (apart : slashesApart rest = true) :
    slashesApart (letters.map slashed ++ ';' :: rest) = true := by
  induction letters with
  | nil => rwa [List.map_nil, List.nil_append, slashesApart_cons (by decide) (by decide)]
  | cons letter letters inductionHypothesis =>
    rw [List.mem_cons, not_or] at unslashed
    rw [List.map_cons, List.cons_append]
    by_cases dot : letter = '.'
    · have every : ∀ segment ∈ Text.pieces '.' letters, ∀ letter,
          segment.head? = some letter → letter.isDigit = false := by
        rw [Text.pieces, if_pos dot] at undigited
        exact undigited
      have later := inductionHypothesis unslashed.2
        fun segment member => every segment (List.mem_of_mem_tail member)
      have unmarked : (letters.map slashed ++ ';' :: rest).head?.any (· ∈ descriptorMarks) =
          false := by
        cases letters with
        | nil => rfl
        | cons next letters =>
          by_cases nextDot : next = '.'
          · rw [nextDot]
            rfl
          · obtain ⟨segment, member, begun⟩ := Text.exists_pieces_cons nextDot letters
            have undigit := every segment member next begun
            have marks : descriptorMarks.all Char.isDigit = true := by decide
            have outside : next ∉ descriptorMarks := by
              intro mark
              cases undigit.symm.trans (List.all_eq_true.mp marks next mark)
            simpa [slashed, nextDot] using outside
      have slash : slashed '.' = '/' := rfl
      rw [dot, slash, slashesApart, unmarked, later]
      rfl
    · have plain : slashed letter = letter := if_neg dot
      rw [Text.tail_pieces_cons dot] at undigited
      rw [plain, slashesApart_cons dot (Ne.symm unslashed.1)]
      exact inductionHypothesis unslashed.2 undigited

theorem slashesApart_classDescriptor {className : String} (unslashed : '/' ∉ className.toList)
    (undigited : ∀ segment ∈ (Text.pieces '.' className.toList).tail, ∀ letter,
      segment.head? = some letter → letter.isDigit = false)
    {rest : List Char} (apart : slashesApart rest = true) :
    slashesApart ((classDescriptor className).toList ++ rest) = true := by
  rw [toList_classDescriptor, List.cons_append, List.append_assoc,
    slashesApart_cons (by decide) (by decide)]
  exact slashesApart_map_slashed unslashed undigited apart

theorem slashesApart_replicate {count : Nat} {letters : List Char} :
    slashesApart (List.replicate count '[' ++ letters) = slashesApart letters := by
  induction count with
  | zero => rfl
  | succ count inductionHypothesis =>
    rw [List.replicate_succ, List.cons_append, slashesApart_cons (by decide) (by decide),
      inductionHypothesis]

namespace ManagedType

theorem IsOrdinary.slashesApart_append {type : ManagedType} (ordinary : type.IsOrdinary)
    {rest : List Char} (apart : slashesApart rest = true) :
    slashesApart (type.descriptor.toList ++ rest) = true := by
  induction type with
  | void =>
    change slashesApart ('V' :: rest) = true
    rwa [slashesApart_cons (by decide) (by decide)]
  | primitive kind =>
    have letter : kind.code ≠ '.' ∧ kind.code ≠ '/' := by cases kind <;> decide
    rw [descriptor, String.toList_singleton, List.singleton_append]
    rwa [slashesApart_cons letter.1 letter.2]
  | string =>
    have undigited : beginsUndigited stringClass.toList = true := by decide
    exact slashesApart_classDescriptor (by decide) (fun segment member =>
      beginsUndigited_eq_true.mp undigited segment (List.mem_of_mem_tail member)) apart
  | reference className =>
    have named := ordinary.named className rfl
    exact slashesApart_classDescriptor named.unslashed (fun segment member =>
      named.undigited segment (List.mem_of_mem_tail member)) apart
  | array element dimension inductionHypothesis =>
    have inner : element.IsOrdinary :=
      ⟨ordinary.describable.of_array.2.2.regular, ordinary.named⟩
    rw [descriptor, String.toList_append, String.toList_ofList, List.append_assoc,
      slashesApart_replicate]
    exact inductionHypothesis inner

end ManagedType

/-- The parameters of ordinary types have a descriptor that reads back from its mangled form. -/
theorem Method.slashesApart_parametersDescriptor {method : Method}
    (ordinary : ∀ type ∈ method.parameters.map Parameter.type, type.IsOrdinary) :
    slashesApart method.parametersDescriptor.toList = true := by
  rw [toList_parametersDescriptor]
  generalize method.parameters.map Parameter.type = types at ordinary
  induction types with
  | nil => rfl
  | cons type types inductionHypothesis =>
    rw [List.forall_mem_cons] at ordinary
    rw [List.flatMap_cons]
    exact ordinary.1.slashesApart_append (inductionHypothesis ordinary.2)

/-- A text whose mangled form can be read back has no dot and no slash before a mark. -/
structure IsDemanglable (text : String) : Prop where
  undotted : '.' ∉ text.toList
  unmarked : ∀ mark ∈ descriptorMarks, ¬ ['/', mark] <:+: text.toList

theorem slashesApart_iff {letters : List Char} :
    slashesApart letters = true ↔
      '.' ∉ letters ∧ ∀ mark ∈ descriptorMarks, ¬ ['/', mark] <:+: letters := by
  induction letters with
  | nil => simp [slashesApart]
  | cons letter letters inductionHypothesis =>
    have begins (mark : Char) : ['/', mark] <+: letter :: letters ↔
        letter = '/' ∧ letters.head? = some mark := by
      cases letters <;> simp [List.cons_prefix_cons, eq_comm]
    have marked : letters.head?.any (· ∈ descriptorMarks) = true ↔
        ∃ mark ∈ descriptorMarks, letters.head? = some mark := by
      cases letters <;> simp
    rw [slashesApart, Bool.and_eq_true, Bool.and_eq_true, decide_eq_true_eq, inductionHypothesis,
      Bool.not_eq_true', ← Bool.not_eq_true, Bool.and_eq_true, decide_eq_true_eq, marked]
    simp only [List.mem_cons, not_or, List.infix_cons_iff, begins]
    grind

theorem isDemanglable_iff {text : String} :
    IsDemanglable text ↔ slashesApart text.toList = true := by
  rw [slashesApart_iff]
  exact ⟨fun whole => ⟨whole.undotted, whole.unmarked⟩, fun both => ⟨both.1, both.2⟩⟩

instance (text : String) : Decidable (IsDemanglable text) :=
  decidable_of_iff' _ isDemanglable_iff

theorem IsDemanglable.of_unslashed {name : String} (undotted : '.' ∉ name.toList)
    (unslashed : '/' ∉ name.toList) : IsDemanglable name :=
  ⟨undotted, fun _ _ inside => unslashed (inside.subset List.mem_cons_self)⟩

theorem IsDemanglable.classDescriptor {className : String} (unslashed : '/' ∉ className.toList)
    (undigited : ∀ segment ∈ (Text.pieces '.' className.toList).tail, ∀ letter,
      segment.head? = some letter → letter.isDigit = false) :
    IsDemanglable (classDescriptor className) := by
  have nothing : slashesApart [] = true := rfl
  have apart := slashesApart_classDescriptor unslashed undigited nothing
  rw [List.append_nil] at apart
  exact isDemanglable_iff.mpr apart

/-- A mangled text is read from the left as long as no slash stands before a mark, which holds of
all identifiers and of the descriptors of classes in packages that begin with no digit. -/
theorem SymbolRole.descriptor_demangles :
    (∀ text, IsDemanglable text →
        demangle (descriptor.mangle text).toList = text.toList.flatMap Text.codeUnits) ∧
      (∀ first second, IsDemanglable first → IsDemanglable second →
        descriptor.mangle first = descriptor.mangle second → first = second) ∧
      (∀ text, Text.Within IsIdentifierPart (descriptor.mangle text)) ∧
      (∀ name : String, '.' ∉ name.toList → '/' ∉ name.toList → IsDemanglable name) ∧
      ∀ className : String, '/' ∉ className.toList →
        (∀ segment ∈ (Text.pieces '.' className.toList).tail, ∀ letter,
          segment.head? = some letter → letter.isDigit = false) →
        IsDemanglable (classDescriptor className) := by
  refine ⟨?_, ?_, ?_, ?_, ?_⟩
  · intro text demanglable
    rw [toList_mangle, demangle_flatMap_mangleLetter (isDemanglable_iff.mp demanglable)]
  · intro first second firstDemanglable secondDemanglable
    exact descriptor_mangle_injective (isDemanglable_iff.mp firstDemanglable)
      (isDemanglable_iff.mp secondDemanglable)
  · intro text
    exact (descriptor.within_mangle text).mono fun _ => isSymbolLetter_iff.mp
  · exact fun _ => .of_unslashed
  · exact fun _ => .classDescriptor

theorem SymbolRole.descriptor_demangles_pair :
    IsDemanglable "Lmy_app/😀;" ∧
      descriptor.mangle "Lmy_app/😀;" = "Lmy_1app__0d83d_0de00_2" ∧
      demangle "Lmy_1app__0d83d_0de00_2".toList = "Lmy_app/😀;".toList.flatMap Text.codeUnits ∧
      IsDemanglable (classDescriptor "my_app.😀") ∧
      "Lmy_app/😀;" = classDescriptor "my_app.😀" := by
  obtain ⟨read, told, -, -, described⟩ := descriptor_demangles
  have written : descriptor.mangle "Lmy_app/😀;" = "Lmy_1app__0d83d_0de00_2" := by decide
  have first : IsDemanglable "Lmy_app/😀;" := by decide
  have second : IsDemanglable (classDescriptor "my_app.😀") := by
    refine described _ (by decide) (fun segment member => ?_)
    exact beginsUndigited_eq_true.mp (by decide) segment (List.mem_of_mem_tail member)
  exact ⟨first, written, written ▸ read _ first, second, told _ _ first second (by decide)⟩

/-- A slash before a mark is taken for another letter. -/
example : descriptor.mangle "a/1" = descriptor.mangle "a_" := by decide

end NativePeer
