import Mathlib.Algebra.Group.Int.Defs
import Mathlib.Algebra.Group.Nat.Defs
import NativePeer.Number.Numeral

/-
This file says which texts are numerals and what they are read as.
-/

namespace NativePeer.Number

/-- Digits that a plus sign may lead. -/
structure Numeral where
  signed : Bool
  digits : List Char
  filled : digits ≠ []
  numeric : ∀ digit ∈ digits, digit.isDigit = true

namespace Numeral

def letters (numeral : Numeral) : List Char :=
  if numeral.signed then '+' :: numeral.digits else numeral.digits

def value (numeral : Numeral) : Nat :=
  Nat.ofDigitChars 10 numeral.digits 0

theorem letters_ne_nil (numeral : Numeral) : numeral.letters ≠ [] := by
  unfold letters
  split
  · exact List.cons_ne_nil _ _
  · exact numeral.filled

end Numeral

theorem digits?_eq_some {letters : List Char} {value : Nat} :
    digits? letters = some value ↔
      letters ≠ [] ∧ (∀ letter ∈ letters, letter.isDigit = true) ∧
        Nat.ofDigitChars 10 letters 0 = value := by
  rw [digits?, Option.ite_none_right_eq_some, List.all_eq_true, and_assoc]
  simp only [Option.some.injEq]

theorem natural?_of_head {letters : List Char} (unsigned : ∀ rest, letters ≠ '+' :: rest) :
    natural? letters = digits? letters := by
  unfold natural?
  split
  · next rest => exact absurd rfl (unsigned rest)
  · rfl

/-- A numeral is read as its value. -/
theorem natural?_letters (numeral : Numeral) :
    natural? numeral.letters = some numeral.value := by
  obtain ⟨signed, digits, filled, numeric⟩ := numeral
  have read : digits? digits = some (Nat.ofDigitChars 10 digits 0) :=
    digits?_eq_some.mpr ⟨filled, numeric, rfl⟩
  cases signed with
  | true => exact read
  | false =>
    refine (natural?_of_head ?_).trans read
    rintro rest rfl
    exact absurd (numeric '+' List.mem_cons_self) (by decide)

/-- Nothing but a numeral is read. -/
theorem exists_numeral {letters : List Char} {value : Nat}
    (read : natural? letters = some value) :
    ∃ numeral : Numeral, numeral.letters = letters ∧ numeral.value = value := by
  unfold natural? at read
  split at read
  · next rest =>
    obtain ⟨filled, numeric, same⟩ := digits?_eq_some.mp read
    exact ⟨⟨true, rest, filled, numeric⟩, rfl, same⟩
  · obtain ⟨filled, numeric, same⟩ := digits?_eq_some.mp read
    exact ⟨⟨false, letters, filled, numeric⟩, rfl, same⟩

theorem word?_integerText (width : Nat) {value : Int} (lower : -2 ^ (width - 1) ≤ value)
    (upper : value < 2 ^ (width - 1)) : word? width (integerText value) = some value := by
  rw [word?, integer?_integerText, Option.filter_some]
  simp [lower, upper]

theorem ofDigitChars_cons_zero (digit : Char) (digits : List Char) :
    Nat.ofDigitChars 10 (digit :: digits) 0 =
      10 ^ digits.length * (digit.toNat - '0'.toNat) + Nat.ofDigitChars 10 digits 0 := by
  rw [Nat.ofDigitChars_cons, Nat.ofDigitChars_eq_ofDigitChars_zero, Nat.mul_zero, Nat.zero_add]

/-- The value of digits is bounded by their number. -/
theorem ofDigitChars_lt {digits : List Char} (numeric : ∀ digit ∈ digits, digit.isDigit = true) :
    Nat.ofDigitChars 10 digits 0 < 10 ^ digits.length := by
  induction digits with
  | nil => exact Nat.one_pos
  | cons digit digits inductionHypothesis =>
    rw [List.forall_mem_cons] at numeric
    have rest := inductionHypothesis numeric.2
    have first : digit.toNat - '0'.toNat ≤ 9 := by
      have ascii : digit.toNat ≤ '9'.toNat := (Char.isDigit_iff_toNat.mp numeric.1).2
      exact Nat.sub_le_of_le_add ascii
    calc Nat.ofDigitChars 10 (digit :: digits) 0
        = 10 ^ digits.length * (digit.toNat - '0'.toNat) + Nat.ofDigitChars 10 digits 0 :=
          ofDigitChars_cons_zero digit digits
      _ < 10 ^ digits.length * 9 + 10 ^ digits.length :=
          Nat.add_lt_add_of_le_of_lt (Nat.mul_le_mul_left _ first) rest
      _ = 10 ^ (digits.length + 1) := by rw [Nat.pow_succ]; omega

theorem lt_pow_length_toDigits (value : Nat) : value < 10 ^ (Nat.toDigits 10 value).length :=
  (Nat.length_toDigits_le_iff (by decide) (List.length_pos_iff.mpr Nat.toDigits_ne_nil)).mp
    (Nat.le_refl _)

theorem pow_pred_length_toDigits_le {value : Nat} (filled : value ≠ 0) :
    10 ^ ((Nat.toDigits 10 value).length - 1) ≤ value := by
  rcases Nat.eq_zero_or_pos ((Nat.toDigits 10 value).length - 1) with single | several
  · rw [single]
    exact Nat.pos_of_ne_zero filled
  · refine Nat.not_lt.mp fun less => ?_
    have := (Nat.length_toDigits_le_iff (by decide) several).mpr less
    omega

theorem head_toDigits {value : Nat} (filled : value ≠ 0) :
    (Nat.toDigits 10 value).head? ≠ some '0' := by
  intro zero
  obtain ⟨rest, shape⟩ := List.head?_eq_some_iff.mp zero
  have numeric : ∀ digit ∈ rest, digit.isDigit = true := fun digit member =>
    Nat.isDigit_of_mem_toDigits (by decide) (by decide) (shape ▸ List.mem_cons_of_mem _ member)
  have long := pow_pred_length_toDigits_le filled
  have short : value < 10 ^ rest.length := by
    have read := Nat.ofDigitChars_ten_toDigits (n := value)
    rw [shape, ofDigitChars_cons_zero, Nat.sub_self, Nat.mul_zero, Nat.zero_add] at read
    exact read ▸ ofDigitChars_lt numeric
  rw [shape, List.length_cons, Nat.add_sub_cancel] at long
  exact absurd short (Nat.not_lt.mpr long)

/-- A numeral of one letter has a single digit. -/
theorem Numeral.value_lt_ten {numeral : Numeral} {letter : Char}
    (single : numeral.letters = [letter]) : numeral.value < 10 := by
  have short : numeral.digits.length ≤ 1 := by
    have whole := congrArg List.length single
    rw [letters] at whole
    split at whole
    · simp only [List.length_cons, List.length_nil] at whole
      omega
    · exact Nat.le_of_eq whole
  calc numeral.value < 10 ^ numeral.digits.length := ofDigitChars_lt numeral.numeric
    _ ≤ 10 ^ 1 := Nat.pow_le_pow_right (by decide) short

end NativePeer.Number
