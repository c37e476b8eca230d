import Mathlib.Algebra.Field.Rat
import Mathlib.Data.List.TakeWhile
import Mathlib.Tactic.Ring
import NativePeer.Number.Decimal
import NativePeer.Number.Layout
import NativePeer.Proofs.Number.Numeral

/-
This file says how decimals stand in a text and that they are read back with their value.
-/

namespace NativePeer.Number

/-- No word begins with a digit. -/
theorem magnitude?_of_digit {digit : Char} (numeric : digit.isDigit = true) (rest : List Char) :
    magnitude? (digit :: rest) = decimal? (digit :: rest) := by
  have lower : digit.toLower = digit := by
    have small : digit.val ≤ '9'.val := (Char.isDigit_iff_toNat.mp numeric).2
    have above : ¬ 'A'.val ≤ digit.val := fun large =>
      absurd (UInt32.le_trans large small) (by decide)
    exact dif_neg fun upper => above upper.1
  have word {text : String} (other : text.toList.head?.any Char.isDigit = false) :
      String.ofList ((digit :: rest).map Char.toLower) ≠ text := by
    rintro rfl
    rw [String.toList_ofList, List.map_cons, lower, List.head?_cons, Option.any_some,
      numeric] at other
    cases other
  rw [magnitude?, if_neg (not_or.mpr ⟨word (by decide), word (by decide)⟩),
    if_neg (word (by decide))]

/-- What begins with a digit is a decimal, and so it is behind a minus sign. -/
theorem reading?_of_digit {digit : Char} (numeric : digit.isDigit = true) (rest : List Char)
    (negative : Bool) :
    reading? (if negative then '-' :: digit :: rest else digit :: rest) =
      (decimal? (digit :: rest)).map (Reading.mk negative) := by
  cases negative with
  | true => rw [if_pos rfl, reading?, magnitude?_of_digit numeric]
  | false =>
    have unsigned {sign : Char} (other : sign.isDigit = false) : digit ≠ sign := by
      rintro rfl
      exact absurd numeric (by simp [other])
    rw [if_neg Bool.false_ne_true]
    unfold reading?
    split
    · next minus => exact absurd (List.cons.inj minus).1 (unsigned (by decide))
    · next plus => exact absurd (List.cons.inj plus).1 (unsigned (by decide))
    · rw [magnitude?_of_digit numeric]

/-- Digits on both sides of a point, and perhaps an exponent. -/
structure Layout where
  whole : List Char
  fraction : List Char
  exponent : Option Int
  wholeFilled : whole ≠ []
  fractionFilled : fraction ≠ []
  wholeNumeric : ∀ digit ∈ whole, digit.isDigit = true
  fractionNumeric : ∀ digit ∈ fraction, digit.isDigit = true

namespace Layout

def exponentLetters : Option Int → List Char
  | none => []
  | some exponent => 'E' :: integerText exponent

def letters (layout : Layout) : List Char :=
  layout.whole ++ '.' :: (layout.fraction ++ exponentLetters layout.exponent)

def significand (layout : Layout) : Nat :=
  Nat.ofDigitChars 10 (layout.whole ++ layout.fraction) 0

/-- The exponent of the last digit. -/
def lastExponent (layout : Layout) : Int :=
  layout.exponent.getD 0 - layout.fraction.length

def value (layout : Layout) : ℚ :=
  layout.significand * 10 ^ layout.lastExponent

variable (layout : Layout)

theorem decimalExponent?_exponentLetters (exponent : Option Int) :
    decimalExponent? (exponentLetters exponent) = some (exponent.getD 0) := by
  cases exponent with
  | none => rfl
  | some exponent =>
    rw [exponentLetters, decimalExponent?, if_pos (.inr rfl), integer?_integerText]
    rfl

/-- Digits end where something else begins. -/
theorem span_digits {digits : List Char} (numeric : ∀ digit ∈ digits, digit.isDigit = true)
    (rest : List Char) (ended : ∀ letter ∈ rest.head?, letter.isDigit = false) :
    (digits ++ rest).takeWhile Char.isDigit = digits ∧
      (digits ++ rest).dropWhile Char.isDigit = rest := by
  rw [List.takeWhile_append_of_pos numeric, List.dropWhile_append_of_pos numeric]
  cases rest with
  | nil => exact ⟨List.append_nil _, rfl⟩
  | cons letter rest =>
    have other : ¬ letter.isDigit = true := by simpa using ended letter rfl
    rw [List.takeWhile_cons_of_neg other, List.dropWhile_cons_of_neg other, List.append_nil]
    exact ⟨rfl, rfl⟩

theorem digits?_whole_fraction :
    digits? (layout.whole ++ layout.fraction) = some layout.significand :=
  digits?_eq_some.mpr ⟨by simp [layout.wholeFilled],
    List.forall_mem_append.mpr ⟨layout.wholeNumeric, layout.fractionNumeric⟩, rfl⟩

theorem decimal?_letters :
    decimal? layout.letters = some (.finite layout.significand layout.lastExponent) := by
  have whole := span_digits layout.wholeNumeric
    ('.' :: (layout.fraction ++ exponentLetters layout.exponent)) (by simp)
  have fraction := span_digits layout.fractionNumeric (exponentLetters layout.exponent)
    (by cases layout.exponent <;> simp [exponentLetters])
  rw [decimal?, letters, whole.1, whole.2]
  simp only
  rw [fraction.1, fraction.2, digits?_whole_fraction, decimalExponent?_exponentLetters]
  rfl

/-- A layout begins with a digit. -/
theorem exists_letters_eq_cons :
    ∃ digit rest, layout.letters = digit :: rest ∧ digit.isDigit = true := by
  obtain ⟨digit, rest, whole⟩ := List.exists_cons_of_ne_nil layout.wholeFilled
  refine ⟨digit, _, by rw [letters, whole, List.cons_append], ?_⟩
  exact layout.wholeNumeric digit (whole ▸ List.mem_cons_self)

def signed (negative : Bool) (layout : Layout) : List Char :=
  if negative then '-' :: layout.letters else layout.letters

/-- What is laid out is read back. -/
theorem reading?_signed (negative : Bool) :
    reading? (layout.signed negative) =
      some ⟨negative, .finite layout.significand layout.lastExponent⟩ := by
  obtain ⟨digit, rest, shape, numeric⟩ := layout.exists_letters_eq_cons
  rw [signed, shape, reading?_of_digit numeric, ← shape, decimal?_letters]
  rfl

/-- Digits with a point after `count` of them. Zeros fill up what is short of it. -/
def ofDigits (digits : List Char) (filled : digits ≠ [])
    (numeric : ∀ digit ∈ digits, digit.isDigit = true) (count : Nat) (positive : 0 < count)
    (exponent : Option Int) : Layout where
  whole := digits.take count ++ List.replicate (count - digits.length) '0'
  fraction := if digits.length ≤ count then ['0'] else digits.drop count
  exponent := exponent
  wholeFilled := by
    have := List.length_pos_iff.mpr filled
    refine List.append_ne_nil_of_left_ne_nil (List.ne_nil_of_length_pos ?_) _
    rw [List.length_take]
    omega
  fractionFilled := by
    split
    · exact List.cons_ne_nil _ _
    · next long => exact List.ne_nil_of_length_pos (by rw [List.length_drop]; omega)
  wholeNumeric := by
    refine List.forall_mem_append.mpr
      ⟨fun digit member => numeric digit (List.mem_of_mem_take member), fun digit member => ?_⟩
    rw [List.eq_of_mem_replicate member]
    decide
  fractionNumeric := by
    split
    · exact List.forall_mem_singleton.mpr (by decide)
    · exact fun digit member => numeric digit (List.mem_of_mem_drop member)

/-- Digits behind the point and `zeros` zeros. -/
def ofFraction (digits : List Char) (filled : digits ≠ [])
    (numeric : ∀ digit ∈ digits, digit.isDigit = true) (zeros : Nat) : Layout where
  whole := ['0']
  fraction := List.replicate zeros '0' ++ digits
  exponent := none
  wholeFilled := List.cons_ne_nil _ _
  fractionFilled := List.append_ne_nil_of_right_ne_nil _ filled
  wholeNumeric := List.forall_mem_singleton.mpr (by decide)
  fractionNumeric := by
    refine List.forall_mem_append.mpr ⟨fun digit member => ?_, numeric⟩
    rw [List.eq_of_mem_replicate member]
    decide

section

variable {digits : List Char} (filled : digits ≠ [])
  (numeric : ∀ digit ∈ digits, digit.isDigit = true)

theorem letters_ofDigits {count : Nat} (positive : 0 < count) (exponent : Option Int) :
    (ofDigits digits filled numeric count positive exponent).letters =
      Scientific.wholeText digits count ++ exponentLetters exponent := by
  rw [letters, ofDigits, Scientific.wholeText]
  dsimp only
  split
  · next short => simp [List.take_of_length_le short]
  · next long => simp [Nat.sub_eq_zero_of_le (Nat.le_of_not_le long)]

theorem value_ofDigits {count : Nat} (positive : 0 < count) (exponent : Option Int) :
    (ofDigits digits filled numeric count positive exponent).value =
      Nat.ofDigitChars 10 digits 0 * 10 ^ (exponent.getD 0 + count - digits.length : Int) := by
  rw [value, significand, lastExponent, ofDigits]
  dsimp only
  split
  · next short =>
    have order : exponent.getD 0 + count - digits.length =
        (count - digits.length : Nat) + (1 + (exponent.getD 0 - (['0'] : List Char).length)) := by
      rw [Nat.cast_sub short, List.length_singleton]
      ring
    have zero : Nat.ofDigitChars 10 ['0'] = (10 * ·) := rfl
    rw [List.take_of_length_le short, Nat.ofDigitChars_append, Nat.ofDigitChars_append,
      Nat.ofDigitChars_replicate_zero, zero, order, zpow_add₀ (by norm_num), zpow_natCast,
      zpow_add₀ (by norm_num), zpow_one]
    push_cast
    ring
  · next long =>
    have whole : digits.take count ++ List.replicate (count - digits.length) '0' ++
        digits.drop count = digits := by
      rw [Nat.sub_eq_zero_of_le (Nat.le_of_not_le long), List.replicate_zero, List.append_nil,
        List.take_append_drop]
    have order : exponent.getD 0 + count - digits.length =
        exponent.getD 0 - (digits.drop count).length := by
      rw [List.length_drop, Nat.cast_sub (Nat.le_of_not_le long)]
      ring
    rw [whole, order]

theorem letters_ofFraction (zeros : Nat) :
    (ofFraction digits filled numeric zeros).letters = Scientific.fractionText digits zeros := by
  simp [letters, ofFraction, Scientific.fractionText, exponentLetters]

theorem value_ofFraction (zeros : Nat) :
    (ofFraction digits filled numeric zeros).value =
      Nat.ofDigitChars 10 digits 0 * 10 ^ (-(zeros : Int) - digits.length) := by
  rw [value, significand, lastExponent, ofFraction]
  dsimp only
  have zero : Nat.ofDigitChars 10 ['0'] 0 = 0 := rfl
  have order : 0 - ((List.replicate zeros '0' ++ digits).length : Int) =
      -(zeros : Int) - digits.length := by
    rw [List.length_append, List.length_replicate]
    push_cast
    ring
  rw [Nat.ofDigitChars_append, Nat.ofDigitChars_append, Nat.ofDigitChars_replicate_zero, zero,
    Nat.mul_zero, Option.getD_none, order]

end

end Layout

namespace Scientific

/-- The point stands after the first digit. -/
def value (decimal : Scientific) : ℚ :=
  Nat.ofDigitChars 10 decimal.digits 0 * 10 ^ (decimal.exponent + 1 - decimal.digits.length)

structure IsProper (decimal : Scientific) : Prop where
  filled : decimal.digits ≠ []
  numeric : ∀ digit ∈ decimal.digits, digit.isDigit = true

namespace IsProper

variable {decimal : Scientific} (proper : decimal.IsProper)

def layout : Layout :=
  if 0 ≤ decimal.exponent ∧ decimal.exponent < 7 then
    .ofDigits decimal.digits proper.filled proper.numeric (decimal.exponent.toNat + 1)
      (Nat.succ_pos _) none
  else if -3 ≤ decimal.exponent ∧ decimal.exponent < 0 then
    .ofFraction decimal.digits proper.filled proper.numeric (-decimal.exponent - 1).toNat
  else
    .ofDigits decimal.digits proper.filled proper.numeric 1 Nat.one_pos (some decimal.exponent)

theorem letters_layout : proper.layout.letters = decimal.magnitudeText := by
  unfold layout magnitudeText
  split
  · rw [Layout.letters_ofDigits]
    exact List.append_nil _
  · split
    · exact Layout.letters_ofFraction _ _ _
    · exact Layout.letters_ofDigits _ _ _ _

theorem signed_layout (negative : Bool) :
    proper.layout.signed negative = decimal.text negative := by
  rw [Layout.signed, proper.letters_layout, text]

/-- The point is moved without a change of value. -/
theorem value_layout : proper.layout.value = decimal.value := by
  unfold layout value
  split
  · next whole =>
    rw [Layout.value_ofDigits]
    congr 2
    rw [Option.getD_none]
    omega
  · split
    · next fraction =>
      rw [Layout.value_ofFraction]
      congr 2
      omega
    · rw [Layout.value_ofDigits]
      rfl

theorem exponent_layout :
    proper.layout.exponent =
      if -3 ≤ decimal.exponent ∧ decimal.exponent < 7 then none else some decimal.exponent := by
  unfold layout
  split
  · next whole => rw [if_pos ⟨by omega, whole.2⟩]; rfl
  · split
    · next fraction => rw [if_pos ⟨fraction.1, by omega⟩]; rfl
    · next far => rw [if_neg (by omega)]; rfl

/-- A zero before the point stands there alone if none leads the digits. -/
theorem whole_layout (head : decimal.digits.head? ≠ some '0') :
    proper.layout.whole = ['0'] ∨ proper.layout.whole.head? ≠ some '0' := by
  have first {count : Nat} (positive : 0 < count) (zeros : List Char) :
      (decimal.digits.take count ++ zeros).head? ≠ some '0' := by
    obtain ⟨digit, rest, shape⟩ := List.exists_cons_of_ne_nil proper.filled
    obtain ⟨fewer, rfl⟩ := Nat.exists_eq_succ_of_ne_zero positive.ne'
    rw [shape] at head ⊢
    exact head
  unfold layout
  split
  · exact .inr (first (Nat.succ_pos _) _)
  · split
    · exact .inl rfl
    · exact .inr (first Nat.one_pos _)

end IsProper

end Scientific

end NativePeer.Number
