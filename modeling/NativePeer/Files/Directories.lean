import NativePeer.Files.Access

/-
This file makes directories together with those around them.
-/

namespace NativePeer

open Surroundings

variable {M : Type → Type} [Monad M] [Surroundings M]

/-- A directory that exists already does no harm. -/
def ensureDirectory (path : String) : M (Except FileError Unit) := do
  match ← makeDirectory path with
  | .ok _ => return .ok ()
  | .error error =>
    match ← status path with
    | .ok (.directory _) => return .ok ()
    | .ok (.file _) | .error _ => return .error error

/-- The directories around `path` are made only where they are missing. What has been made
before a failure stays. -/
def ensureWithin (path : String) : List String → M (Except FileError Unit)
  | [] => ensureDirectory path
  | parent :: parents => do
    match ← ensureDirectory path with
    | .error .notFound =>
      match ← ensureWithin parent parents with
      | .error error => return .error error
      | .ok _ => ensureDirectory path
    | result => return result

def createDirectories (path : String) : M (Except FileError Unit) :=
  if path = "" then return .ok () else ensureWithin path (Path.parents path)

end NativePeer
