/-
This file holds the white space of Unicode text and the trimming of it.
-/

namespace NativePeer.Text

/-- The ranges of the Unicode property `White_Space`. -/
def blankRanges : List (Nat × Nat) :=
  [(0x9, 0xD), (0x20, 0x20), (0x85, 0x85), (0xA0, 0xA0), (0x1680, 0x1680),
    (0x2000, 0x200A), (0x2028, 0x2029), (0x202F, 0x202F), (0x205F, 0x205F),
    (0x3000, 0x3000)]

def isBlank (letter : Char) : Bool :=
  blankRanges.any fun range => range.1 ≤ letter.toNat && letter.toNat ≤ range.2

def dropBlanks (letters : List Char) : List Char :=
  letters.dropWhile isBlank

def dropFinalBlanks (letters : List Char) : List Char :=
  (dropBlanks letters.reverse).reverse

def trim (letters : List Char) : List Char :=
  dropFinalBlanks (dropBlanks letters)

theorem length_dropWhile_le {A : Type} (test : A → Bool) (values : List A) :
    (values.dropWhile test).length ≤ values.length :=
  (List.dropWhile_sublist test).length_le

theorem length_dropBlanks_le (letters : List Char) :
    (dropBlanks letters).length ≤ letters.length :=
  length_dropWhile_le isBlank letters

end NativePeer.Text
