import NativePeer.Document.Error

/-
This file holds what can go wrong in a run.
-/

namespace NativePeer

/-- A request that a caller must not make. -/
inductive Defect where
  | untaggedClass (name : String)
  | notStaticFinal (className fieldName : String)
  | zeroDimensions
  | arrayOfVoid
  | nestedArray
  deriving DecidableEq

def Defect.message : Defect → String
  | .untaggedClass name => "tried to generate a peer for untagged class '" ++ name ++ "'"
  | .notStaticFinal className fieldName =>
    "constant requested for non-static or non-final field '" ++ className ++ "." ++
      fieldName ++ "'"
  | .zeroDimensions => "array type with zero dimensions"
  | .arrayOfVoid => "array of void has no native type"
  | .nestedArray => "nested array node in array element"

/-- In a collision two owners claim one symbol of a scope. -/
inductive GenerationError where
  | document (error : DocumentError)
  | model (error : ModelError)
  | file (path : String) (error : FileError)
  | collision (scope symbol first second : String)
  | defect (cause : Defect)
  deriving DecidableEq

namespace GenerationError

def message : GenerationError → String
  | .document error => "model parse error: " ++ error.message
  | .model error => "model error: " ++ error.message
  | .file path error => "IO error on '" ++ path ++ "': " ++ error.message
  | .collision scope symbol first second =>
    "symbol '" ++ symbol ++ "' in '" ++ scope ++ "' is produced by both '" ++ first ++
      "' and '" ++ second ++ "'"
  | .defect cause => "internal error (generator bug): " ++ cause.message

/-- Only a defect is the fault of the generator itself. -/
def isInternal : GenerationError → Bool
  | .defect _ => true
  | .document _ | .model _ | .file _ _ | .collision _ _ _ _ => false

def exitStatus (error : GenerationError) : Nat :=
  if error.isInternal then 11 else 15

end GenerationError

end NativePeer
