import NativePeer.Type

/-
This file holds what can be wrong with a class model.
-/

namespace NativePeer

/-- A name that is defined twice in one place. -/
inductive Duplicate where
  | managedClass (name : String)
  | field (className fieldName : String)
  | parameter (methodName parameterName : String)
  deriving DecidableEq

def Duplicate.message : Duplicate → String
  | .managedClass name => "duplicate class definition: '" ++ name ++ "'"
  | .field className fieldName =>
    "duplicate field definition: '" ++ className ++ "." ++ fieldName ++ "'"
  | .parameter methodName parameterName =>
    "duplicate parameter definition: '" ++ methodName ++ "(" ++ parameterName ++ ")'"

/-- A constant belongs to a static final field of its own kind. -/
inductive ConstantFault where
  | notStaticFinal
  | otherKind (kind : Primitive)
  deriving DecidableEq

def ConstantFault.message : ConstantFault → String
  | .notStaticFinal => "constant values require a static final field"
  | .otherKind kind => kind.name ++ " constant does not match the field type"

/-- A circular path ends with the first name that comes again. -/
inductive ModelError where
  | unknownClass (name : String)
  | circularInheritance (path : List String)
  | missingNamespace (className : String)
  | invalidNamespace (className text : String)
  | invalidConstant (className fieldName : String) (fault : ConstantFault)
  deriving DecidableEq

def ModelError.message : ModelError → String
  | .unknownClass name => "class '" ++ name ++ "' not found"
  | .circularInheritance path =>
    "circular inheritance detected: " ++ " -> ".intercalate path
  | .missingNamespace className =>
    "tagged class '" ++ className ++ "' does not define a namespace"
  | .invalidNamespace className text =>
    "invalid namespace '" ++ text ++ "' on class '" ++ className ++ "'"
  | .invalidConstant className fieldName fault =>
    "invalid constant on field '" ++ fieldName ++ "' of class '" ++ className ++ "': " ++
      fault.message

end NativePeer
