import NativePeer.Class
import NativePeer.Generation.Error
import NativePeer.Native.Host
import NativePeer.Native.Mangling
import NativePeer.Number.Layout

/-
This file writes constants as native literals and as macro definitions.
-/

namespace NativePeer

open Number

namespace Constant

/-- The words for what has no decimal text. -/
structure FloatWords where
  infinity : String
  notANumber : String
  suffix : String

def singleWords : FloatWords := ⟨"Inff", "NaNf", "f"⟩

def doubleWords : FloatWords := ⟨"InfD", "NaN", ""⟩

/-- A finite value is written with the fewest digits that read back. -/
def floatLiteral (format : BinaryFormat) (words : FloatWords) (pattern : Nat) : String :=
  let negative := format.isNegative pattern
  let magnitude := format.magnitude pattern
  if magnitude = format.infinity then
    if negative then "-" ++ words.infinity else words.infinity
  else if format.infinity < magnitude then words.notANumber
  else String.ofList ((format.shortest magnitude).text negative) ++ words.suffix

def integerLiteral (value : Int) (suffix : String) : String :=
  String.ofList (integerText value) ++ suffix

def literal (host : Host) : Constant → String
  | .boolean value => if value then "1L" else "0L"
  | .byte value => integerLiteral value.toInt "L"
  | .char unit => integerLiteral unit.toNat "L"
  | .short value => integerLiteral value.toInt "L"
  | .int value => integerLiteral value.toInt "L"
  | .long value => integerLiteral value.toInt host.longSuffix
  | .float bits => floatLiteral .single singleWords bits.toNat
  | .double bits => floatLiteral .double doubleWords bits.toNat

end Constant

/-- The macro of a constant. An earlier definition of it is dropped. -/
structure MacroDefinition where
  symbol : String
  literal : String
  deriving DecidableEq

namespace MacroDefinition

def lines (definition : MacroDefinition) : List String :=
  ["#undef " ++ definition.symbol, "#define " ++ definition.symbol ++ " " ++ definition.literal]

def symbolOf (className fieldName : String) : String :=
  SymbolRole.className.mangle className ++ "_" ++ SymbolRole.member.mangle fieldName

/-- A static final field without a constant has no macro. -/
def ofField (host : Host) (className : String) (field : Field) :
    Except GenerationError (Option MacroDefinition) :=
  if field.isStaticFinal then
    .ok (field.constant.map fun value => ⟨symbolOf className field.name, value.literal host⟩)
  else .error (.defect (.notStaticFinal className field.name))

end MacroDefinition

end NativePeer
