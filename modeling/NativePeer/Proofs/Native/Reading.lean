import NativePeer.Constant
import NativePeer.Proofs.Native.Literal
import NativePeer.Proofs.Number.Shortest
import NativePeer.Proofs.Text.Blank

/-
This file shows that literals are read back as their constants.
-/

namespace NativePeer

open Number Text

theorem Text.isBlank_of_isLiteralLetter {letter : Char} (literal : isLiteralLetter letter = true) :
    isBlank letter = false := by
  have template := isTemplateLetter_of_isFlatLetter (isFlatLetter_of_isLiteralLetter literal)
  simp only [isTemplateLetter, Bool.or_eq_true, Bool.and_eq_true, decide_eq_true_eq] at template
  rcases template with rfl | ⟨atLeast, small⟩
  · cases literal
  · refine isBlank_of_visible (Nat.lt_of_le_of_ne atLeast fun space => ?_) small
    have same : letter = ' ' := Char.toNat_inj.mp space.symm
    rw [same] at literal
    cases literal

/-- White space is no part of a literal. -/
theorem Text.trim_of_literal {letters : List Char}
    (written : ∀ letter ∈ letters, isLiteralLetter letter = true) : trim letters = letters :=
  trim_of_isTrimmed
    ⟨fun letter first => isBlank_of_isLiteralLetter (written letter (List.mem_of_mem_head? first)),
      fun letter last => isBlank_of_isLiteralLetter (written letter (List.mem_of_getLast? last))⟩

namespace Number.BinaryFormat

/-- A pattern is its sign and its magnitude. -/
theorem pattern_magnitude (format : BinaryFormat) {pattern : Nat}
    (bounded : pattern < 2 * format.signBit) :
    format.pattern (format.isNegative pattern) (format.magnitude pattern) = pattern := by
  unfold BinaryFormat.pattern isNegative magnitude
  by_cases negative : format.signBit ≤ pattern
  · rw [decide_eq_true negative, if_pos rfl, Nat.mod_eq_sub_mod negative,
      Nat.mod_eq_of_lt (by omega), Nat.add_sub_cancel' negative]
  · rw [decide_eq_false negative, if_neg Bool.false_ne_true,
      Nat.mod_eq_of_lt (Nat.not_le.mp negative)]

end Number.BinaryFormat

namespace Constant

/-- What stands after the number in a literal. -/
def suffix (host : Host) : Primitive → String
  | .long => host.longSuffix
  | .float => singleWords.suffix
  | .double => doubleWords.suffix
  | _ => "L"

def IsFinite : Constant → Prop
  | .float bits => BinaryFormat.single.magnitude bits.toNat < BinaryFormat.single.infinity
  | .double bits => BinaryFormat.double.magnitude bits.toNat < BinaryFormat.double.infinity
  | _ => True

theorem codeUnit?_integerText (unit : UInt16) :
    codeUnit? (integerText unit.toNat) = some unit := by
  have read : natural? (integerText unit.toNat) = some unit.toNat := natural?_naturalText _
  have small : unit.toNat < 0x10000 := unit.toNat_lt
  unfold codeUnit?
  rw [read, Option.filter_some]
  simp [small]

section Float

variable {format : BinaryFormat} {pattern : Nat}
  (finite : format.magnitude pattern < format.infinity)

include finite

theorem floatLiteral_of_finite (words : FloatWords) :
    floatLiteral format words pattern =
      String.ofList ((format.shortest (format.magnitude pattern)).text
        (format.isNegative pattern)) ++ words.suffix := by
  rw [floatLiteral, if_neg finite.ne, if_neg finite.not_gt]

/-- The decimal of a finite pattern is read as the pattern. -/
theorem exists_reading?_text (ordinary : format.IsOrdinary)
    (bounded : pattern < 2 * format.signBit) :
    ∃ reading,
      reading? ((format.shortest (format.magnitude pattern)).text (format.isNegative pattern)) =
          some reading ∧
        floatBits format reading = pattern := by
  have proper := BinaryFormat.isProper_shortest ordinary (format.magnitude pattern)
  refine ⟨⟨format.isNegative pattern,
    .finite proper.layout.significand proper.layout.lastExponent⟩, ?_, ?_⟩
  · rw [← proper.signed_layout]
    exact proper.layout.reading?_signed (format.isNegative pattern)
  · have rounds := BinaryFormat.roundsTo_value_shortest ordinary (format.magnitude pattern)
    rw [← proper.value_layout, Layout.value, ← BinaryFormat.ofDecimal_eq_iff ordinary finite]
      at rounds
    exact (congrArg (format.pattern (format.isNegative pattern)) rounds).trans
      (format.pattern_magnitude bounded)

end Float

/-- A literal without its suffix is read as its constant. -/
theorem exists_literal_eq_append (host : Host) {constant : Constant}
    (plain : constant.kind ≠ .boolean) (finite : constant.IsFinite) :
    ∃ letters, constant.literal host = String.ofList letters ++ suffix host constant.kind ∧
      parse? constant.kind (String.ofList letters) = some constant := by
  have integer (value : Int) : trim (integerText value) = integerText value :=
    trim_of_literal (literal_integerText value)
  have decimal (format : BinaryFormat) (magnitude : Nat) (negative : Bool) :=
    trim_of_literal (literal_text negative (literal_shortest format magnitude))
  cases constant with
  | boolean value => exact absurd rfl plain
  | byte value =>
    refine ⟨integerText value.toInt, rfl, ?_⟩
    have read := word?_integerText 8 value.le_toInt value.toInt_lt
    simp only [kind, parse?, String.toList_ofList, integer, read, Option.map_some,
      Int8.ofInt_toInt]
  | char unit =>
    refine ⟨integerText unit.toNat, rfl, ?_⟩
    simp only [kind, parse?, String.toList_ofList, integer, codeUnit?_integerText,
      Option.map_some]
  | short value =>
    refine ⟨integerText value.toInt, rfl, ?_⟩
    have read := word?_integerText 16 value.le_toInt value.toInt_lt
    simp only [kind, parse?, String.toList_ofList, integer, read, Option.map_some,
      Int16.ofInt_toInt]
  | int value =>
    refine ⟨integerText value.toInt, rfl, ?_⟩
    have read := word?_integerText 32 value.le_toInt value.toInt_lt
    simp only [kind, parse?, String.toList_ofList, integer, read, Option.map_some,
      Int32.ofInt_toInt]
  | long value =>
    refine ⟨integerText value.toInt, rfl, ?_⟩
    have read := word?_integerText 64 value.le_toInt value.toInt_lt
    simp only [kind, parse?, String.toList_ofList, integer, read, Option.map_some,
      Int64.ofInt_toInt]
  | float bits =>
    refine ⟨_, floatLiteral_of_finite finite singleWords, ?_⟩
    obtain ⟨reading, read, same⟩ := exists_reading?_text finite BinaryFormat.single_isOrdinary
      (Nat.lt_of_lt_of_eq bits.toNat_lt (by decide))
    simp only [kind, parse?, String.toList_ofList, decimal, read, Option.map_some, same,
      UInt32.ofNat_toNat]
  | double bits =>
    refine ⟨_, floatLiteral_of_finite finite doubleWords, ?_⟩
    obtain ⟨reading, read, same⟩ := exists_reading?_text finite BinaryFormat.double_isOrdinary
      (Nat.lt_of_lt_of_eq bits.toNat_lt (by decide))
    simp only [kind, parse?, String.toList_ofList, decimal, read, Option.map_some, same,
      UInt64.ofNat_toNat]

/-- Every number is read back from its literal, so that different numbers of one kind have
different literals. -/
theorem literal_reads_back (host : Host) :
    (∀ constant : Constant, constant.kind ≠ .boolean → constant.IsFinite →
      ∃ text, constant.literal host = text ++ suffix host constant.kind ∧
        parse? constant.kind text = some constant) ∧
    ∀ first second : Constant, first.kind = second.kind → first.kind ≠ .boolean →
      first.IsFinite → second.IsFinite → first.literal host = second.literal host →
        first = second := by
  refine ⟨fun constant plain finite => ?_, fun first second sameKind plain begun ended same => ?_⟩
  · obtain ⟨letters, literal, read⟩ := exists_literal_eq_append host plain finite
    exact ⟨String.ofList letters, literal, read⟩
  · obtain ⟨letters, literal, read⟩ := exists_literal_eq_append host plain begun
    obtain ⟨others, other, readOther⟩ := exists_literal_eq_append host (sameKind ▸ plain) ended
    rw [literal, other, sameKind, String.append_left_inj] at same
    rw [same, sameKind, readOther] at read
    exact (Option.some.inj read).symm

/-- The greatest negative number is read back, and the zeros are told apart. -/
theorem literal_reads_back_negative :
    (∃ text, (Constant.double 0x8000000000000001).literal .unix = text ++ "" ∧
      parse? .double text = some (.double 0x8000000000000001)) ∧
    (Constant.float 0).literal .windows ≠ (Constant.float 0x80000000).literal .windows := by
  constructor
  · exact (literal_reads_back .unix).1 (.double 0x8000000000000001) (by decide)
      (Nat.lt_of_sub_ne_zero (by decide))
  · intro same
    have zeros := (literal_reads_back .windows).2 (.float 0) (.float 0x80000000) rfl (by decide)
      (Nat.lt_of_sub_ne_zero (by decide)) (Nat.lt_of_sub_ne_zero (by decide)) same
    exact absurd zeros (by decide)

end Constant

end NativePeer
