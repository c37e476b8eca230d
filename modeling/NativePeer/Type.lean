import NativePeer.Text.Blank

/-
This file holds the types of managed fields, parameters and return values.
-/

namespace NativePeer

inductive Primitive where
  | boolean
  | byte
  | char
  | short
  | int
  | long
  | float
  | double
  deriving DecidableEq, Repr

namespace Primitive

def all : List Primitive :=
  [.boolean, .byte, .char, .short, .int, .long, .float, .double]

def name : Primitive → String
  | .boolean => "boolean"
  | .byte => "byte"
  | .char => "char"
  | .short => "short"
  | .int => "int"
  | .long => "long"
  | .float => "float"
  | .double => "double"

def ofName? (name : String) : Option Primitive :=
  all.find? fun kind => kind.name = name

theorem ofName?_name (kind : Primitive) : ofName? kind.name = some kind := by
  cases kind <;> rfl

end Primitive

/-- The classes that the runtime knows by name. -/
def objectClass : String := "java.lang.Object"

def stringClass : String := "java.lang.String"

def classClass : String := "java.lang.Class"

def throwableClass : String := "java.lang.Throwable"

/-- A canonical array has at least one dimension and an element that is neither `void` nor an
array. -/
inductive ManagedType where
  | void
  | primitive (kind : Primitive)
  | string
  | reference (className : String)
  | array (element : ManagedType) (dimension : Nat)
  deriving DecidableEq, Repr

namespace ManagedType

/-- An array of arrays is one array of all their dimensions. -/
def arrayOf : ManagedType → Nat → ManagedType
  | .array element inner, dimension => .array element (inner + dimension)
  | element, dimension => .array element dimension

/-- The letters that no type name contains. -/
def isSeparator (letter : Char) : Bool :=
  letter = '[' || letter = ']' || letter = ' ' || letter = '\t' || letter = '<' || letter = '>'

/-- The name of a class is any name that names nothing else. -/
def ofName (name : String) : ManagedType :=
  if name = "void" then .void
  else if name = "String" ∨ name = stringClass then .string
  else match Primitive.ofName? name with
    | some kind => .primitive kind
    | none => .reference name

/-- This function takes the letters from the last to the first. White space may stand before
each pair of brackets. -/
def splitDimensions : List Char → List Char × Nat
  | ']' :: '[' :: letters =>
    let (base, dimension) := splitDimensions (Text.dropBlanks letters)
    (base, dimension + 1)
  | letters => (letters, 0)
termination_by letters => letters.length
decreasing_by
  have := Text.length_dropBlanks_le letters
  simp only [List.length_cons]
  omega

/-- A spelling is a name and any number of bracket pairs. There is no array of `void`. -/
def parse? (text : String) : Option ManagedType :=
  let (reversed, dimension) := splitDimensions (Text.trim text.toList).reverse
  if reversed = [] ∨ reversed.any isSeparator then none
  else
    let element := ofName (String.ofList reversed.reverse)
    if dimension = 0 then some element
    else if element = .void then none
    else some (.array element dimension)

/-- The class that a type names, also as an array element. A string names none. -/
def referencedClass? : ManagedType → Option String
  | .reference className => some className
  | .array element _ => element.referencedClass?
  | .void | .primitive _ | .string => none

def primitive? : ManagedType → Option Primitive
  | .primitive kind => some kind
  | _ => none

end ManagedType

end NativePeer
