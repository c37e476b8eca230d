import NativePeer.Document.Reader
import NativePeer.Files.Path
import NativePeer.Generation.Artifact
import NativePeer.Generation.Rendering

/-
This file generates the peers of a model into the output directory.
-/

namespace NativePeer

open Surroundings

/-- Each class has its declaration before its definition. -/
def PeerSource.artifacts (configuration : Configuration) (source : PeerSource) :
    List Artifact :=
  [⟨source.className, Path.join configuration.outputDirectory (source.baseName ++ ".h"),
      source.header⟩,
    ⟨source.className, Path.join configuration.outputDirectory (source.baseName ++ ".cpp"),
      source.source⟩]

structure Report where
  artifacts : List ArtifactRecord
  deriving DecidableEq

namespace Report

def classes (report : Report) : Nat :=
  report.artifacts.length / 2

def written (report : Report) : Nat :=
  report.artifacts.countP fun record => record.outcome.isWritten

def unchanged (report : Report) : Nat :=
  report.artifacts.length - report.written

def event (report : Report) : LogEvent :=
  .finished report.classes report.written report.unchanged

end Report

/-- The sources of the model that a text describes. -/
def renderText (configuration : Configuration) (text : String) : Logged (List PeerSource) := do
  let model ← .ofExcept ((Document.read text).mapError .document)
  model.render configuration

variable {M : Type → Type} [Monad M] [Surroundings M]

/-- The events are reported whether or not there is a value. -/
def Logged.run {A : Type} (logged : Logged A) : ExceptT GenerationError M A := do
  logged.log.forM fun event => Surroundings.report event
  match logged.result with
  | .error error => throw error
  | .ok value => return value

/-- All sources are rendered before the first file is written. -/
def ClassModel.generate (model : ClassModel) (configuration : Configuration) :
    ExceptT GenerationError M Report := do
  let sources ← (model.render configuration).run
  let artifacts ← (sources.flatMap (PeerSource.artifacts configuration)).mapM
    (Artifact.write configuration)
  let result := Report.mk artifacts
  report result.event
  return result

/-- A document is a text in UTF-8. -/
def Document.decode (content : Text.Bytes) : Except DocumentError ClassModel :=
  match String.fromUTF8? ⟨content.toArray⟩ with
  | none => .error (.unreadable .notText)
  | some text => Document.read text

def Document.readModel (path : String) : ExceptT DocumentError M ClassModel := do
  match ← readFile path with
  | .error error => throw (.unreadable error)
  | .ok content => ExceptT.mk (pure (Document.decode content))

def generateFile (configuration : Configuration) (path : String) :
    ExceptT GenerationError M Report := do
  let model ← ExceptT.adapt GenerationError.document (Document.readModel path)
  model.generate configuration

end NativePeer
