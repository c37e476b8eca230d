/-
This file holds what may happen to an artifact.
-/

namespace NativePeer

inductive Outcome where
  | unchanged
  | created
  | overwritten
  | forced
  deriving DecidableEq, Repr

def Outcome.isWritten : Outcome → Bool
  | .unchanged => false
  | .created | .overwritten | .forced => true

def Outcome.description : Outcome → String
  | .unchanged => "No need to update file"
  | .created => "Creating file"
  | .overwritten => "Overwriting file"
  | .forced => "Forcefully writing file"

end NativePeer
