import NativePeer.Number.Binary

/-
This file finds the shortest decimal that reads back as a given binary number.
-/

namespace NativePeer.Number

/-- The decimal point stands after the first digit and the whole is scaled by `10 ^ exponent`. -/
structure Scientific where
  digits : List Char
  exponent : Int
  deriving DecidableEq

/-- The number `value / 10 ^ places` without the zeros at its end. -/
def Scientific.ofFixed (value places : Nat) : Scientific where
  digits := ((Nat.toDigits 10 value).reverse.dropWhile (· = '0')).reverse
  exponent := (Nat.toDigits 10 value).length - 1 - places

/-- The decimals that round to a value, all in one fixed decimal scale. -/
structure RoundingInterval where
  value : Nat
  lower : Nat
  upper : Nat
  closed : Bool

def RoundingInterval.holds (interval : RoundingInterval) (point : Nat) : Bool :=
  if interval.closed then interval.lower ≤ point && point ≤ interval.upper
  else interval.lower < point && point < interval.upper

/-- The point of a grid nearest to the value, if it lies in the interval. Only the two
neighbours of the value count, and a point midway goes up. -/
def RoundingInterval.hit? (interval : RoundingInterval) (step : Nat) : Option Nat :=
  let below := interval.value / step * step
  let above := below + step
  match interval.holds below, interval.holds above with
  | true, true => some (if interval.value - below < above - interval.value then below else above)
  | true, false => some below
  | false, true => some above
  | false, false => none

/-- The coarsest grid wins. On the finest the value itself is a point. -/
def RoundingInterval.shortest (interval : RoundingInterval) : Nat :=
  let length := (Nat.toDigits 10 interval.value).length
  ((List.range length).findSome? fun digit => interval.hit? (Nat.pow 10 (length - 1 - digit))).getD
    interval.value

namespace BinaryFormat

/-- Quarters of a unit are whole multiples of `10 ^ -places`. -/
def places (format : BinaryFormat) : Nat :=
  format.depth + 2

/-- Half the spacing lies on either side, but half of that below a power of two. The ends
belong to an even significand. -/
def interval (format : BinaryFormat) (magnitude : Nat) : RoundingInterval :=
  let significand := format.significand magnitude
  let quarter := Nat.pow 2 (format.scale magnitude) * Nat.pow 5 format.places
  let narrow := significand = Nat.pow 2 format.fractionBits ∧ format.scale magnitude ≠ 0
  { value := 4 * significand * quarter
    lower := (4 * significand - if narrow then 1 else 2) * quarter
    upper := (4 * significand + 2) * quarter
    closed := significand % 2 = 0 }

def shortest (format : BinaryFormat) (magnitude : Nat) : Scientific :=
  if magnitude = 0 then ⟨['0'], 0⟩
  else .ofFixed (format.interval magnitude).shortest format.places

end BinaryFormat

end NativePeer.Number
