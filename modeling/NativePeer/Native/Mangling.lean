import NativePeer.Text.Units

/-
This file turns arbitrary names into native symbols.
-/

namespace NativePeer

/-- What a mangled name stands for. -/
inductive SymbolRole where
  | className
  | member
  | descriptor
  deriving DecidableEq, Repr

namespace SymbolRole

/-- The letters besides ASCII letters and digits that have a spelling of their own. -/
def replacement? : SymbolRole → Char → Option String
  | .className, '.' => some "_"
  | .className, '$' => some "__"
  | .className, '_' => some "_"
  | .member, '_' => some "_"
  | .descriptor, '.' => some "_"
  | .descriptor, '/' => some "_"
  | .descriptor, '_' => some "_1"
  | .descriptor, ';' => some "_2"
  | .descriptor, '[' => some "_3"
  | _, _ => none

/-- Every other letter is written as its code units, each in four digits after `_0`. -/
def mangleLetter (role : SymbolRole) (letter : Char) : List Char :=
  if letter.isAlphanum then [letter]
  else match role.replacement? letter with
    | some text => text.toList
    | none => (Text.codeUnits letter).flatMap fun unit => '_' :: '0' :: Text.hexDigits unit

def mangle (role : SymbolRole) (name : String) : String :=
  String.ofList (name.toList.flatMap role.mangleLetter)

end SymbolRole

end NativePeer
