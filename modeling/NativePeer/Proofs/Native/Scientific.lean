import NativePeer.Proofs.Native.Reading
import NativePeer.Proofs.Text.Cut

/-
This file moves the point of a text in scientific notation, one cut after another, and says what
comes out.
-/

namespace NativePeer

open Number

namespace Number

/-- The number that a text stands for. -/
def numberOf? (letters : List Char) : Option ℚ :=
  match reading? letters with
  | some ⟨negative, .finite significand exponent⟩ =>
    some ((if negative then -1 else 1) * (significand * 10 ^ exponent))
  | _ => none

theorem Layout.numberOf?_signed (layout : Layout) (negative : Bool) :
    numberOf? (layout.signed negative) = some ((if negative then -1 else 1) * layout.value) := by
  rw [numberOf?, layout.reading?_signed]
  rfl

/-- There is one point, between the digits. -/
theorem Layout.count_point (layout : Layout) (negative : Bool) :
    (layout.signed negative).count '.' = 1 := by
  have pointless {letters : List Char} (numeric : ∀ letter ∈ letters, letter.isDigit = true) :
      letters.count '.' = 0 :=
    List.count_eq_zero.mpr fun point => absurd (numeric '.' point) (by decide)
  have natural (value : Nat) : (naturalText value).count '.' = 0 :=
    pointless fun _ member => Nat.isDigit_of_mem_toDigits (by decide) (by decide) member
  have exponent : (exponentLetters layout.exponent).count '.' = 0 := by
    cases layout.exponent with
    | none => rfl
    | some exponent =>
      cases exponent with
      | ofNat value =>
        exact (List.count_cons_of_ne (by decide)).trans (natural value)
      | negSucc value =>
        exact (List.count_cons_of_ne (by decide)).trans
          ((List.count_cons_of_ne (by decide)).trans (natural (value + 1)))
  have letters : layout.letters.count '.' = 1 := by
    rw [Layout.letters, List.count_append, List.count_cons_self, List.count_append, exponent,
      pointless layout.wholeNumeric, pointless layout.fractionNumeric]
  cases negative with
  | true => exact (List.count_cons_of_ne (by decide)).trans letters
  | false => exact letters

theorem Layout.head?_signed (layout : Layout) (negative : Bool) :
    (layout.signed negative).head? = some '-' ↔ negative = true := by
  cases negative with
  | true => exact iff_of_true rfl rfl
  | false =>
    obtain ⟨digit, rest, shape, numeric⟩ := layout.exists_letters_eq_cons
    refine iff_of_false (fun minus => ?_) Bool.false_ne_true
    rw [signed, if_neg Bool.false_ne_true, shape, List.head?_cons, Option.some_inj] at minus
    exact absurd numeric (by rw [minus]; decide)

/-- The letters before a position of the text. -/
def upTo? (letters : List Char) (position : Nat) : Option (List Char) :=
  if position ≤ letters.length then some (letters.take position) else none

/-- The letters from a position of the text on. -/
def from? (letters : List Char) (position : Nat) : Option (List Char) :=
  if position ≤ letters.length then some (letters.drop position) else none

namespace Scientific

/-- A single digit has no point after it. -/
def mantissaText : List Char → List Char
  | first :: second :: digits => first :: '.' :: second :: digits
  | digits => digits

def letters (decimal : Scientific) : List Char :=
  mantissaText decimal.digits ++ 'e' :: integerText decimal.exponent

/-- All digits before the letter belong to the number. What follows it counts as zero if it is no
number of 32 bits. -/
def ofLetters (letters : List Char) : Scientific where
  digits := (letters.takeWhile (· ≠ 'e')).filter Char.isDigit
  exponent :=
    match letters.dropWhile (· ≠ 'e') with
    | [] => 0
    | _ :: exponent => (word? 32 exponent).getD 0

/-- Only digits that reach beyond the point are cut. -/
def wholeText? (digits : List Char) (whole : Nat) : Option (List Char) :=
  if digits.length ≤ whole then
    some (digits ++ List.replicate (whole - digits.length) '0' ++ ['.', '0'])
  else do
    let before ← upTo? digits whole
    let after ← from? digits whole
    return before ++ '.' :: after

/-- The first digit is cut off even where there is none. -/
def exponentText? (digits : List Char) (exponent : Int) : Option (List Char) := do
  let before ← upTo? digits 1
  let after ← if 1 < digits.length then from? digits 1 else some ['0']
  return before ++ '.' :: (after ++ 'E' :: integerText exponent)

/-- A cut outside of the digits leaves no text. -/
def magnitudeText? (decimal : Scientific) : Option (List Char) :=
  if -3 ≤ decimal.exponent ∧ decimal.exponent < 7 then
    if 0 ≤ decimal.exponent then wholeText? decimal.digits (decimal.exponent.toNat + 1)
    else some (fractionText decimal.digits (-decimal.exponent - 1).toNat)
  else exponentText? decimal.digits decimal.exponent

/-- The text of a number from its scientific notation. -/
def layOut? (letters : List Char) (negative : Bool) : Option (List Char) :=
  (magnitudeText? (ofLetters letters)).map fun text => if negative then '-' :: text else text

theorem wholeText?_eq_some (digits : List Char) (whole : Nat) :
    wholeText? digits whole = some (wholeText digits whole) := by
  unfold wholeText? wholeText
  split
  · rfl
  · next long =>
    rw [upTo?, from?, if_pos (Nat.le_of_not_le long), if_pos (Nat.le_of_not_le long)]
    rfl

theorem exponentText?_eq_some {digits : List Char} (filled : digits ≠ []) (exponent : Int) :
    exponentText? digits exponent = some (exponentText digits exponent) := by
  have first : 1 ≤ digits.length := List.length_pos_iff.mpr filled
  rw [exponentText?, exponentText, wholeText, upTo?, from?, if_pos first, if_pos first]
  by_cases several : 1 < digits.length
  · simp [several, Nat.not_le.mpr several]
  · have single : digits.length = 1 := Nat.le_antisymm (Nat.not_lt.mp several) first
    have whole : digits.take 1 = digits := List.take_of_length_le single.le
    simp [single, whole]

/-- No cut lies outside of the digits if there is one. -/
theorem magnitudeText?_eq_some {decimal : Scientific} (filled : decimal.digits ≠ []) :
    decimal.magnitudeText? = some decimal.magnitudeText := by
  unfold magnitudeText? magnitudeText
  by_cases near : -3 ≤ decimal.exponent ∧ decimal.exponent < 7
  · rw [if_pos near]
    by_cases natural : 0 ≤ decimal.exponent
    · rw [if_pos natural, if_pos ⟨natural, near.2⟩, wholeText?_eq_some]
    · rw [if_neg natural, if_neg fun plain => natural plain.1,
        if_pos ⟨near.1, Int.not_le.mp natural⟩]
  · rw [if_neg near, if_neg (by omega), if_neg (by omega), exponentText?_eq_some filled]

theorem layOut?_eq_some {letters : List Char} (filled : (ofLetters letters).digits ≠ [])
    (negative : Bool) : layOut? letters negative = some ((ofLetters letters).text negative) := by
  rw [layOut?, magnitudeText?_eq_some filled]
  rfl

theorem mem_mantissaText {digits : List Char} {letter : Char}
    (member : letter ∈ mantissaText digits) : letter ∈ digits ∨ letter = '.' := by
  unfold mantissaText at member
  split at member
  · next first second rest =>
    simp only [List.mem_cons] at member ⊢
    tauto
  · exact .inl member

theorem filter_mantissaText {digits : List Char}
    (numeric : ∀ digit ∈ digits, digit.isDigit = true) :
    (mantissaText digits).filter Char.isDigit = digits := by
  unfold mantissaText
  split
  · next first second rest =>
    rw [List.forall_mem_cons] at numeric
    rw [List.filter_cons_of_pos numeric.1, List.filter_cons_of_neg (by decide),
      List.filter_eq_self.mpr numeric.2]
  · exact List.filter_eq_self.mpr numeric

section IsProper

variable {decimal : Scientific} (proper : decimal.IsProper)

include proper

/-- Scientific notation is read as the number that it was written from. -/
theorem ofLetters_letters (lower : -2 ^ 31 ≤ decimal.exponent)
    (upper : decimal.exponent < 2 ^ 31) : ofLetters decimal.letters = decimal := by
  have unmarked : 'e' ∉ mantissaText decimal.digits := fun marked =>
    (mem_mantissaText marked).elim (fun digit => absurd (proper.numeric 'e' digit) (by decide))
      (by decide)
  rw [ofLetters, letters, Text.takeWhile_ne_append_cons unmarked,
    Text.dropWhile_ne_append_cons unmarked, filter_mantissaText proper.numeric]
  dsimp only
  rw [word?_integerText 32 lower upper]
  rfl

theorem decimal?_letters :
    decimal? decimal.letters = some (.finite (Nat.ofDigitChars 10 decimal.digits 0)
      (decimal.exponent + 1 - decimal.digits.length)) := by
  obtain ⟨digits, exponent⟩ := decimal
  have number := digits?_eq_some.mpr ⟨proper.filled, proper.numeric, rfl⟩
  have power : decimalExponent? ('e' :: integerText exponent) = some exponent := by
    rw [decimalExponent?, if_pos (.inl rfl), integer?_integerText]
  cases digits with
  | nil => exact absurd rfl proper.filled
  | cons first digits =>
    have numeric := List.forall_mem_cons.mp proper.numeric
    have whole := Layout.span_digits (List.forall_mem_singleton.mpr numeric.1)
    cases digits with
    | nil =>
      have span := whole ('e' :: integerText exponent) (by simp)
      have text : letters ⟨[first], exponent⟩ = [first] ++ 'e' :: integerText exponent := rfl
      rw [text, decimal?, span.1, span.2]
      simp [number, power]
    | cons second digits =>
      have fraction := Layout.span_digits numeric.2 ('e' :: integerText exponent) (by simp)
      have span := whole ('.' :: (second :: digits ++ 'e' :: integerText exponent)) (by simp)
      have text : letters ⟨first :: second :: digits, exponent⟩ =
          [first] ++ '.' :: (second :: digits ++ 'e' :: integerText exponent) := rfl
      rw [text, decimal?, span.1, span.2]
      simp only
      rw [fraction.1, fraction.2]
      have order : exponent + 1 - ((first :: second :: digits).length : Int) =
          exponent - (second :: digits).length := by
        simp only [List.length_cons]
        omega
      rw [List.singleton_append, number, power, order]

theorem numberOf?_letters : numberOf? decimal.letters = some decimal.value := by
  have shape : ∃ digit rest, decimal.letters = digit :: rest ∧ digit.isDigit = true := by
    obtain ⟨digits, exponent⟩ := decimal
    match digits, proper with
    | [], proper => exact absurd rfl proper.filled
    | [first], proper => exact ⟨first, _, rfl, proper.numeric first List.mem_cons_self⟩
    | first :: second :: digits, proper =>
      exact ⟨first, _, rfl, proper.numeric first List.mem_cons_self⟩
  obtain ⟨digit, rest, shape, numeric⟩ := shape
  have read := reading?_of_digit numeric rest false
  rw [if_neg Bool.false_ne_true, ← shape, decimal?_letters proper] at read
  rw [numberOf?, read]
  simp [value]

/-- Far from one the point stands after the first digit. -/
theorem layout_of_far (far : ¬(-3 ≤ decimal.exponent ∧ decimal.exponent < 7)) :
    proper.layout.whole = decimal.digits.take 1 ∧
      proper.layout.fraction =
        if decimal.digits.length = 1 then ['0'] else decimal.digits.drop 1 := by
  have filled : 1 ≤ decimal.digits.length := List.length_pos_iff.mpr proper.filled
  have whole : decimal.digits.take 1 ++ List.replicate (1 - decimal.digits.length) '0' =
      decimal.digits.take 1 := by
    rw [Nat.sub_eq_zero_of_le filled, List.replicate_zero, List.append_nil]
  rw [IsProper.layout, if_neg (by omega), if_neg (by omega)]
  refine ⟨whole, if_congr ?_ rfl rfl⟩
  exact ⟨fun short => Nat.le_antisymm short filled, Nat.le_of_eq⟩

end IsProper

/-- Zero is a single digit without an exponent, and no other number begins with a zero. -/
structure IsNormalized (decimal : Scientific) : Prop extends decimal.IsProper where
  leading : decimal.digits.head? = some '0' → decimal.digits = ['0'] ∧ decimal.exponent = 0

/-- The layout has the value of the number and no superfluous zero before the point. It is plain
for the exponents from -3 to 6, and otherwise it shows the digits and the exponent as they are. -/
structure IsShownBy (decimal : Scientific) (layout : Layout) : Prop where
  value : layout.value = decimal.value
  whole : layout.whole = ['0'] ∨ layout.whole.head? ≠ some '0'
  exponent : layout.exponent =
    if -3 ≤ decimal.exponent ∧ decimal.exponent < 7 then none else some decimal.exponent
  mantissa : layout.exponent ≠ none →
    layout.whole = decimal.digits.take 1 ∧
      layout.fraction = if decimal.digits.length = 1 then ['0'] else decimal.digits.drop 1

theorem IsNormalized.isShownBy_layout {decimal : Scientific} (normalized : decimal.IsNormalized) :
    decimal.IsShownBy normalized.layout where
  value := normalized.value_layout
  whole := by
    by_cases zero : decimal.digits.head? = some '0'
    · obtain ⟨digits, exponent⟩ := decimal
      obtain ⟨rfl, rfl⟩ := normalized.leading zero
      exact .inl rfl
    · exact normalized.whole_layout zero
  exponent := normalized.exponent_layout
  mantissa := by
    intro scientific
    rw [normalized.exponent_layout] at scientific
    refine layout_of_far normalized.toIsProper fun near => scientific (if_pos near)

/-- A number in scientific notation is laid out without a cut outside of its digits. The text is
that of its literal and stands for exactly the same number, with a sign before it or without. -/
theorem layOut?_letters (negative : Bool) {decimal : Scientific}
    (normalized : decimal.IsNormalized) (lower : -2 ^ 31 ≤ decimal.exponent)
    (upper : decimal.exponent < 2 ^ 31) :
    numberOf? decimal.letters = some decimal.value ∧
      ∃ layout : Layout, layOut? decimal.letters negative = some (layout.signed negative) ∧
        layout.signed negative = decimal.text negative ∧
        numberOf? (layout.signed negative) =
          some ((if negative then -1 else 1) * decimal.value) ∧
        decimal.IsShownBy layout ∧
        (layout.signed negative).count '.' = 1 ∧
        ((layout.signed negative).head? = some '-' ↔ negative = true) := by
  have proper := normalized.toIsProper
  have read := ofLetters_letters proper lower upper
  have laid : layOut? decimal.letters negative = some (proper.layout.signed negative) := by
    rw [layOut?_eq_some (by rw [read]; exact proper.filled), read, proper.signed_layout]
  refine ⟨numberOf?_letters proper, proper.layout, laid, proper.signed_layout negative, ?_,
    normalized.isShownBy_layout, proper.layout.count_point negative,
    proper.layout.head?_signed negative⟩
  rw [proper.layout.numberOf?_signed, proper.value_layout]

/-- Three digits with the least exponent keep theirs, and a single digit has a zero after it. -/
theorem layOut?_letters_extreme :
    (layOut? "1.25e-2147483648".toList true = some "-1.25E-2147483648".toList ∧
      numberOf? "-1.25E-2147483648".toList = some (-1 * (125 * 10 ^ (-2147483650 : Int)))) ∧
    (layOut? "7e6".toList false = some "7000000.0".toList ∧
      numberOf? "7000000.0".toList = some (1 * (7 * 10 ^ (6 : Int)))) := by
  constructor
  · have normalized : (Scientific.mk ['1', '2', '5'] (-2147483648)).IsNormalized :=
      ⟨⟨List.cons_ne_nil _ _, List.all_eq_true.mp rfl⟩, by decide⟩
    obtain ⟨_, layout, laid, text, number, _⟩ :=
      layOut?_letters true normalized (by decide) (by decide)
    have letters : layout.signed true = "-1.25E-2147483648".toList := text.trans (by decide)
    rw [letters] at laid number
    exact ⟨laid, number⟩
  · have normalized : (Scientific.mk ['7'] 6).IsNormalized :=
      ⟨⟨List.cons_ne_nil _ _, List.all_eq_true.mp rfl⟩, by decide⟩
    obtain ⟨_, layout, laid, text, number, _⟩ :=
      layOut?_letters false normalized (by decide) (by decide)
    have letters : layout.signed false = "7000000.0".toList := text.trans (by decide)
    rw [letters] at laid number
    exact ⟨laid, number⟩

end Scientific

namespace BinaryFormat

variable {format : BinaryFormat} (ordinary : format.IsOrdinary) {magnitude : Nat}
  (finite : magnitude < format.infinity)

include ordinary finite

/-- The shortest decimal of a finite magnitude lies within the reach of the format. -/
theorem exponent_shortest :
    -format.places ≤ (format.shortest magnitude).exponent ∧
      (format.shortest magnitude).exponent < format.reach := by
  have positive : 0 < format.reach := Int.natCast_pos.mpr (Nat.pow_pos Nat.two_pos)
  unfold shortest
  split
  · exact ⟨by simp, positive⟩
  · next filled =>
    have point := shortest_ne_zero ordinary filled
    have rounds := (holds_interval_iff ordinary filled).mp (holds_shortest ordinary filled)
    generalize (format.interval magnitude).shortest = shortest at *
    have digits : 0 < (Nat.toDigits 10 shortest).length :=
      List.length_pos_of_ne_nil Nat.toDigits_ne_nil
    have inside : ¬ format.reach < (Nat.toDigits 10 shortest).length + -(format.places : Int) := by
      intro beyond
      have large := decimal_large ordinary point beyond
      have covers := (roundsTo_iff_covers (by positivity)).mp rounds
      rw [zpow_neg, zpow_natCast, ← div_eq_mul_inv] at large
      exact absurd (covers.lt_of_finite finite) large.not_gt
    simp only [Scientific.ofFixed]
    omega

/-- Scientific notation says all of a shortest decimal. -/
theorem layOut?_shortest (narrow : format.exponentBits ≤ 30) (negative : Bool) :
    Scientific.layOut? (format.shortest magnitude).letters negative =
      some ((format.shortest magnitude).text negative) := by
  have proper := isProper_shortest ordinary magnitude
  obtain ⟨lower, upper⟩ := exponent_shortest ordinary finite
  have wide : (2 : Int) ^ format.exponentBits ≤ 2 ^ 30 :=
    pow_le_pow_right₀ (by decide) narrow
  have reach : format.reach = 2 ^ format.exponentBits := by
    rw [BinaryFormat.reach, Nat.pow_eq, Int.natCast_pow, Nat.cast_ofNat]
  have deep : (format.depth : Int) < 2 ^ format.exponentBits := mod_cast ordinary.deep
  have places : (format.places : Int) = format.depth + 2 := rfl
  have read := Scientific.ofLetters_letters proper (by omega) (by omega)
  rw [Scientific.layOut?_eq_some (by rw [read]; exact proper.filled), read]

end BinaryFormat

end Number

/-- The literal of a finite number is laid out from its shortest decimal in scientific notation. -/
theorem Constant.exists_floatLiteral_eq_layOut? {format : BinaryFormat} {pattern : Nat}
    (ordinary : format.IsOrdinary) (finite : format.magnitude pattern < format.infinity)
    (narrow : format.exponentBits ≤ 30) (words : FloatWords) :
    ∃ letters,
      Scientific.layOut? (format.shortest (format.magnitude pattern)).letters
          (format.isNegative pattern) = some letters ∧
        floatLiteral format words pattern = String.ofList letters ++ words.suffix :=
  ⟨_, BinaryFormat.layOut?_shortest ordinary finite narrow (format.isNegative pattern),
    floatLiteral_of_finite finite words⟩

end NativePeer
