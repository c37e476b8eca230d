import NativePeer.Files.Access
import NativePeer.Generation.Configuration

/-
This file writes artifacts whose content has changed.
-/

namespace NativePeer

open Text Surroundings

/-- A file that a run produces for a class. -/
structure Artifact where
  className : String
  path : String
  content : Bytes
  deriving DecidableEq

structure ArtifactRecord where
  className : String
  path : String
  outcome : Outcome
  deriving DecidableEq

variable {M : Type → Type} [Monad M] [Surroundings M]

/-- The content is read only where the size agrees. -/
def decideOutcome (force : Bool) (path : String) (content : Bytes) :
    ExceptT GenerationError M Outcome := do
  if force then return .forced
  match ← status path with
  | .error .notFound => return .created
  | .error error => throw (.file path error)
  | .ok status =>
    if status.size ≠ content.length then return .overwritten
    match ← readFile path with
    | .error error => throw (.file path error)
    | .ok existing => return if existing = content then .unchanged else .overwritten

/-- The outcome is reported before the file is written. -/
def writeContent (force verbose : Bool) (path : String) (content : Bytes) :
    ExceptT GenerationError M Outcome := do
  let outcome ← decideOutcome force path content
  if verbose then report (.artifact outcome path)
  if outcome.isWritten then
    match ← writeFile path content with
    | .error error => throw (.file path error)
    | .ok _ => return outcome
  else return outcome

def Artifact.write (configuration : Configuration) (artifact : Artifact) :
    ExceptT GenerationError M ArtifactRecord := do
  let outcome ← writeContent configuration.force configuration.verbose artifact.path
    artifact.content
  return { className := artifact.className, path := artifact.path, outcome }

end NativePeer
