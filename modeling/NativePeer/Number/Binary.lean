/-
This file holds the binary interchange formats: the value of a bit pattern and the nearest
pattern of a number.
-/

namespace NativePeer.Number

structure BinaryFormat where
  fractionBits : Nat
  exponentBits : Nat
  deriving DecidableEq

namespace BinaryFormat

def single : BinaryFormat := ⟨23, 8⟩

def double : BinaryFormat := ⟨52, 11⟩

/-- The least positive value is `2 ^ -depth`. Values are counted in this unit. -/
def depth (format : BinaryFormat) : Nat :=
  Nat.pow 2 (format.exponentBits - 1) - 2 + format.fractionBits

/-- The magnitude bits of an infinity. -/
def infinity (format : BinaryFormat) : Nat :=
  (Nat.pow 2 format.exponentBits - 1) * Nat.pow 2 format.fractionBits

def signBit (format : BinaryFormat) : Nat :=
  Nat.pow 2 (format.exponentBits + format.fractionBits)

def isNegative (format : BinaryFormat) (pattern : Nat) : Bool :=
  format.signBit ≤ pattern

def magnitude (format : BinaryFormat) (pattern : Nat) : Nat :=
  pattern % format.signBit

def pattern (format : BinaryFormat) (negative : Bool) (magnitude : Nat) : Nat :=
  if negative then format.signBit + magnitude else magnitude

/-- The quiet NaN without payload. -/
def notANumber (format : BinaryFormat) : Nat :=
  format.infinity + Nat.pow 2 (format.fractionBits - 1)

/-- Below `2 ^ fractionBits` a pattern has no hidden bit. -/
def significand (format : BinaryFormat) (magnitude : Nat) : Nat :=
  if magnitude < Nat.pow 2 format.fractionBits then magnitude
  else Nat.pow 2 format.fractionBits + magnitude % Nat.pow 2 format.fractionBits

/-- The spacing of the format at a magnitude is `2 ^ scale` units. -/
def scale (format : BinaryFormat) (magnitude : Nat) : Nat :=
  magnitude / Nat.pow 2 format.fractionBits - 1

/-- The value of a finite magnitude in units. -/
def units (format : BinaryFormat) (magnitude : Nat) : Nat :=
  format.significand magnitude * Nat.pow 2 (format.scale magnitude)

/-- A half goes to the even neighbour. -/
def roundQuotient (numerator denominator : Nat) : Nat :=
  let quotient := numerator / denominator
  let remainder := numerator % denominator
  if 2 * remainder < denominator then quotient
  else if denominator < 2 * remainder then quotient + 1
  else quotient + quotient % 2

/-- A significand that rounds up to the next power of two carries into the exponent bits, and
beyond the largest finite magnitude lies infinity. -/
def nearest (format : BinaryFormat) (numerator denominator : Nat) : Nat :=
  let scale := Nat.log2 (numerator / denominator) - format.fractionBits
  min
    (scale * Nat.pow 2 format.fractionBits +
      roundQuotient numerator (denominator * Nat.pow 2 scale))
    format.infinity

/-- No number at or above `10 ^ reach` is finite in the format and none below `10 ^ -reach`
differs from zero. -/
def reach (format : BinaryFormat) : Int :=
  Nat.pow 2 format.exponentBits

/-- The magnitude nearest to `significand * 10 ^ exponent`. The order of the number decides
alone where it is out of reach, so a power is formed only within reach. -/
def ofDecimal (format : BinaryFormat) (significand : Nat) (exponent : Int) : Nat :=
  let order := (Nat.toDigits 10 significand).length + exponent
  if significand = 0 ∨ order < -format.reach then 0
  else if format.reach < order then format.infinity
  else format.nearest (significand * Nat.pow 10 exponent.toNat * Nat.pow 2 format.depth)
    (Nat.pow 10 (-exponent).toNat)

end BinaryFormat

end NativePeer.Number
