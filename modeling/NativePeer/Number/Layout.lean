import NativePeer.Number.Numeral
import NativePeer.Number.Shortest

/-
This file lays out a scientific decimal with a point and, far from one, an exponent.
-/

namespace NativePeer.Number.Scientific

/-- Digits short of the point are filled up with zeros, and a zero follows a final point. -/
def wholeText (digits : List Char) (whole : Nat) : List Char :=
  if digits.length ≤ whole then
    digits ++ List.replicate (whole - digits.length) '0' ++ ['.', '0']
  else digits.take whole ++ '.' :: digits.drop whole

/-- All digits stand behind the point and behind `zeros` zeros. -/
def fractionText (digits : List Char) (zeros : Nat) : List Char :=
  '0' :: '.' :: (List.replicate zeros '0' ++ digits)

/-- One digit stands before the point and at least one after it. -/
def exponentText (digits : List Char) (exponent : Int) : List Char :=
  wholeText digits 1 ++ 'E' :: integerText exponent

/-- The exponents from -3 to 6 are written plainly. -/
def magnitudeText (decimal : Scientific) : List Char :=
  if 0 ≤ decimal.exponent ∧ decimal.exponent < 7 then
    wholeText decimal.digits (decimal.exponent.toNat + 1)
  else if -3 ≤ decimal.exponent ∧ decimal.exponent < 0 then
    fractionText decimal.digits (-decimal.exponent - 1).toNat
  else exponentText decimal.digits decimal.exponent

def text (negative : Bool) (decimal : Scientific) : List Char :=
  if negative then '-' :: decimal.magnitudeText else decimal.magnitudeText

end NativePeer.Number.Scientific
