/-
This file writes text in ISO-8859-1, one byte a character.
-/

namespace NativePeer.Text

abbrev Bytes := List UInt8

/-- A character above `U+00FF` is written as a question mark. -/
def latin1Byte (letter : Char) : UInt8 :=
  if letter.toNat < 256 then letter.toNat.toUInt8 else 63

/-- Each line feed becomes the line separator. -/
def latin1 (separator : Bytes) (letters : List Char) : Bytes :=
  letters.flatMap fun letter => if letter = '\n' then separator else [latin1Byte letter]

end NativePeer.Text
