/-
This file splits characters into the 16-bit code units of UTF-16.
-/

namespace NativePeer.Text

/-- A character above `U+FFFF` takes a pair of surrogates. -/
def codeUnits (letter : Char) : List Nat :=
  if letter.toNat < 0x10000 then [letter.toNat]
  else [0xD800 + (letter.toNat - 0x10000) / 0x400, 0xDC00 + (letter.toNat - 0x10000) % 0x400]

/-- The character of a single code unit. -/
def singleUnit? (letter : Char) : Option UInt16 :=
  if letter.toNat < 0x10000 then some letter.toNat.toUInt16 else none

/-- Four lower-case hexadecimal digits of a code unit. -/
def hexDigits (unit : Nat) : List Char :=
  [Nat.digitChar (unit / 0x1000 % 16), Nat.digitChar (unit / 0x100 % 16),
    Nat.digitChar (unit / 0x10 % 16), Nat.digitChar (unit % 16)]

end NativePeer.Text
