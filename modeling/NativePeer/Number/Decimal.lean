import NativePeer.Number.Numeral

/-
This file reads the text of a real number: a sign, then a decimal, an infinity or a NaN.
-/

namespace NativePeer.Number

/-- What stands after the sign. A finite magnitude is `significand * 10 ^ exponent`. -/
inductive Magnitude where
  | finite (significand : Nat) (exponent : Int)
  | infinite
  | notANumber
  deriving DecidableEq

/-- A number as it stands in a text. -/
structure Reading where
  negative : Bool
  magnitude : Magnitude
  deriving DecidableEq

/-- An absent exponent is zero. -/
def decimalExponent? : List Char → Option Int
  | [] => some 0
  | letter :: letters => if letter = 'e' ∨ letter = 'E' then integer? letters else none

/-- Digits stand before the point, after it or on both sides. -/
def decimal? (letters : List Char) : Option Magnitude :=
  let whole := letters.takeWhile Char.isDigit
  let afterWhole := letters.dropWhile Char.isDigit
  let (fraction, rest) := match afterWhole with
    | '.' :: tail => (tail.takeWhile Char.isDigit, tail.dropWhile Char.isDigit)
    | _ => ([], afterWhole)
  match digits? (whole ++ fraction), decimalExponent? rest with
  | some significand, some exponent => some (.finite significand (exponent - fraction.length))
  | _, _ => none

/-- The words for infinity and NaN may be written in any case. -/
def magnitude? (letters : List Char) : Option Magnitude :=
  let word := String.ofList (letters.map Char.toLower)
  if word = "inf" ∨ word = "infinity" then some .infinite
  else if word = "nan" then some .notANumber
  else decimal? letters

def reading? : List Char → Option Reading
  | '-' :: letters => (magnitude? letters).map (Reading.mk true)
  | '+' :: letters => (magnitude? letters).map (Reading.mk false)
  | letters => (magnitude? letters).map (Reading.mk false)

end NativePeer.Number
