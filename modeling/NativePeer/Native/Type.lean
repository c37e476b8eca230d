import NativePeer.Generation.Error
import NativePeer.Model.Ancestry

/-
This file maps managed types to the types of native code.
-/

namespace NativePeer

inductive NativeType where
  | void
  | primitive (kind : Primitive)
  | string
  | throwable
  | classObject
  | object
  | primitiveArray (kind : Primitive)
  | objectArray
  deriving DecidableEq, Repr

/-- What the invocation of a method returns. -/
inductive ReturnKind where
  | void
  | primitive (kind : Primitive)
  | object
  deriving DecidableEq, Repr

namespace NativeType

/-- A class is told apart by its ancestors. -/
def ofClass (model : ClassModel) (className : String) : Except GenerationError NativeType :=
  match model.get? className with
  | none => .error (.model (.unknownClass className))
  | some _ =>
    match model.isSubclassOf className throwableClass, model.isSubclassOf className classClass with
    | .error error, _ => .error (.model error)
    | .ok true, _ => .ok .throwable
    | .ok false, .error error => .error (.model error)
    | .ok false, .ok true => .ok .classObject
    | .ok false, .ok false => .ok .object

/-- Only a single dimension of primitives has an array type of its own. -/
def ofArray (model : ClassModel) (element : ManagedType) (dimension : Nat) :
    Except GenerationError NativeType :=
  if dimension = 0 then .error (.defect .zeroDimensions)
  else match element with
    | .void => .error (.defect .arrayOfVoid)
    | .array _ _ => .error (.defect .nestedArray)
    | .primitive kind => .ok (if dimension = 1 then .primitiveArray kind else .objectArray)
    | .string => .ok .objectArray
    | .reference className =>
      if (model.get? className).isSome then .ok .objectArray
      else .error (.model (.unknownClass className))

def ofType (model : ClassModel) : ManagedType → Except GenerationError NativeType
  | .void => .ok .void
  | .primitive kind => .ok (.primitive kind)
  | .string => .ok .string
  | .reference className => ofClass model className
  | .array element dimension => ofArray model element dimension

def name : NativeType → String
  | .void => "void"
  | .primitive kind => "j" ++ kind.name
  | .string => "jstring"
  | .throwable => "jthrowable"
  | .classObject => "jclass"
  | .object => "jobject"
  | .primitiveArray kind => "j" ++ kind.name ++ "Array"
  | .objectArray => "jobjectArray"

def returnKind : NativeType → ReturnKind
  | .void => .void
  | .primitive kind => .primitive kind
  | .string | .throwable | .classObject | .object | .primitiveArray _ | .objectArray => .object

/-- The invocation of a method returns references as plain objects or strings. -/
def needsCast : NativeType → Bool
  | .classObject | .throwable | .primitiveArray _ | .objectArray => true
  | .void | .primitive _ | .string | .object => false

end NativeType

/-- The name of a primitive inside the name of an invocation function. -/
def Primitive.capitalName : Primitive → String
  | .boolean => "Boolean"
  | .byte => "Byte"
  | .char => "Char"
  | .short => "Short"
  | .int => "Int"
  | .long => "Long"
  | .float => "Float"
  | .double => "Double"

namespace ReturnKind

def resultName : ReturnKind → String
  | .void => "Void"
  | .primitive kind => kind.capitalName
  | .object => "Object"

def callFunction (kind : ReturnKind) (isStatic : Bool) : String :=
  (if isStatic then "CallStatic" else "Call") ++ kind.resultName ++ "Method"

def returnsValue : ReturnKind → Bool
  | .void => false
  | .primitive _ | .object => true

end ReturnKind

end NativePeer
