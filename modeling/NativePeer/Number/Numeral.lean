/-
This file reads and writes decimal numerals.
-/

namespace NativePeer.Number

/-- A numeral has at least one digit and nothing else. -/
def digits? (letters : List Char) : Option Nat :=
  if letters ≠ [] ∧ letters.all Char.isDigit then some (Nat.ofDigitChars 10 letters 0) else none

/-- A plus sign may lead the digits. -/
def natural? : List Char → Option Nat
  | '+' :: letters => digits? letters
  | letters => digits? letters

/-- Either sign may lead the digits. -/
def integer? : List Char → Option Int
  | '-' :: letters => (digits? letters).map fun value => -(value : Int)
  | letters => (natural? letters).map fun value => (value : Int)

/-- The value must fit a two's complement word of `width` bits. -/
def word? (width : Nat) (letters : List Char) : Option Int :=
  let bound : Int := Nat.pow 2 (width - 1)
  (integer? letters).filter fun value => -bound ≤ value ∧ value < bound

def naturalText (value : Nat) : List Char :=
  Nat.toDigits 10 value

def integerText : Int → List Char
  | .ofNat value => naturalText value
  | .negSucc value => '-' :: naturalText (value + 1)

theorem digits?_naturalText (value : Nat) :
    digits? (naturalText value) = some value := by
  have numeric : (Nat.toDigits 10 value).all Char.isDigit = true :=
    List.all_eq_true.mpr fun _ member =>
      Nat.isDigit_of_mem_toDigits (by decide) (by decide) member
  rw [digits?, naturalText, if_pos ⟨Nat.toDigits_ne_nil, numeric⟩,
    Nat.ofDigitChars_ten_toDigits]

theorem naturalText_head {value : Nat} {letter : Char} {letters : List Char}
    (shape : naturalText value = letter :: letters) : letter.isDigit = true := by
  have member : letter ∈ Nat.toDigits 10 value := by
    rw [← naturalText, shape]
    exact List.mem_cons_self
  exact Nat.isDigit_of_mem_toDigits (by decide) (by decide) member

theorem natural?_naturalText (value : Nat) : natural? (naturalText value) = some value := by
  unfold natural?
  split
  · next shape => exact absurd (naturalText_head shape) (by decide)
  · exact digits?_naturalText value

/-- What is written reads back. -/
theorem integer?_integerText (value : Int) : integer? (integerText value) = some value := by
  cases value with
  | negSucc value =>
    rw [integerText, integer?, digits?_naturalText]
    rfl
  | ofNat value =>
    rw [integerText]
    unfold integer?
    split
    · next shape => exact absurd (naturalText_head shape) (by decide)
    · rw [natural?_naturalText]
      rfl

end NativePeer.Number
