import NativePeer.Text.Blank
import NativePeer.Text.Split

/-
This file holds the native namespaces that peers are generated into.
-/

namespace NativePeer

/-- A namespace has at least one segment and no empty one. -/
structure Namespace where
  segments : List String
  nonempty : segments ≠ []
  filled : "" ∉ segments
  deriving DecidableEq

namespace Namespace

def ofSegments? (segments : List String) : Option Namespace :=
  if nonempty : segments ≠ [] then
    if filled : "" ∉ segments then some ⟨segments, nonempty, filled⟩ else none
  else none

/-- Dots separate the segments, and white space around the text does not count. -/
def parse? (text : String) : Option Namespace :=
  ofSegments? ((Text.pieces '.' (Text.trim text.toList)).map String.ofList)

def dotted (home : Namespace) : String :=
  ".".intercalate home.segments

def isLetter (letter : Char) : Bool :=
  letter.isAlpha || letter = '_'

def isIdentifier : List Char → Bool
  | [] => false
  | letter :: letters => isLetter letter && letters.all fun next => isLetter next || next.isDigit

/-- Every segment is an ASCII identifier. -/
def isValid (home : Namespace) : Bool :=
  home.segments.all fun segment => isIdentifier segment.toList

end Namespace

end NativePeer
