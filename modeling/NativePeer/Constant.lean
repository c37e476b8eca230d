import NativePeer.Number.Decimal
import NativePeer.Number.Binary
import NativePeer.Text.Blank
import NativePeer.Text.Units
import NativePeer.Type

/-
This file holds the compile-time constants of static final fields.
-/

namespace NativePeer

open Number

/-- A `char` is its code unit and a floating constant is its bit pattern. -/
inductive Constant where
  | boolean (value : Bool)
  | byte (value : Int8)
  | char (unit : UInt16)
  | short (value : Int16)
  | int (value : Int32)
  | long (value : Int64)
  | float (bits : UInt32)
  | double (bits : UInt64)
  deriving DecidableEq

namespace Constant

def kind : Constant → Primitive
  | .boolean _ => .boolean
  | .byte _ => .byte
  | .char _ => .char
  | .short _ => .short
  | .int _ => .int
  | .long _ => .long
  | .float _ => .float
  | .double _ => .double

def truth? (letters : List Char) : Option Bool :=
  if letters = ['t', 'r', 'u', 'e'] then some true
  else if letters = ['f', 'a', 'l', 's', 'e'] then some false
  else none

/-- A numeral is a code unit even when it is a single digit. -/
def codeUnit? (letters : List Char) : Option UInt16 :=
  match (natural? letters).filter (· < 0x10000), letters with
  | some value, _ => some value.toUInt16
  | none, [letter] => Text.singleUnit? letter
  | none, _ => none

/-- The bit pattern of a real number, rounded once. -/
def floatBits (format : BinaryFormat) (reading : Reading) : Nat :=
  match reading.magnitude with
  | .finite significand exponent =>
    format.pattern reading.negative (format.ofDecimal significand exponent)
  | .infinite => format.pattern reading.negative format.infinity
  | .notANumber => format.pattern reading.negative format.notANumber

/-- White space around the text does not count. -/
def parse? (kind : Primitive) (text : String) : Option Constant :=
  let letters := Text.trim text.toList
  match kind with
  | .boolean => (truth? letters).map .boolean
  | .byte => (word? 8 letters).map fun value => .byte (Int8.ofInt value)
  | .char => (codeUnit? letters).map .char
  | .short => (word? 16 letters).map fun value => .short (Int16.ofInt value)
  | .int => (word? 32 letters).map fun value => .int (Int32.ofInt value)
  | .long => (word? 64 letters).map fun value => .long (Int64.ofInt value)
  | .float => (reading? letters).map fun reading => .float (floatBits .single reading).toUInt32
  | .double => (reading? letters).map fun reading => .double (floatBits .double reading).toUInt64

end Constant

end NativePeer
