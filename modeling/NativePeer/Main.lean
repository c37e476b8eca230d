import NativePeer.CommandLine.Console
import NativePeer.CommandLine.Program

/-
This file runs the program on the files of the host.
-/

namespace NativePeer

/-- The system gives some codes with a minus sign. -/
def hasCode (code expected : UInt32) : Bool :=
  code = expected || code = 0 - expected

def FileError.ofSystem : IO.Error → FileError
  | .noFileOrDirectory _ _ _ => .notFound
  | .alreadyExists _ _ _ => .alreadyExists
  | .inappropriateType _ code text =>
    if hasCode code 21 then .isDirectory
    else if hasCode code 20 then .notDirectory
    else .other (text ++ " (os error " ++ toString code ++ ")")
  | .invalidArgument _ code text =>
    if hasCode code 36 then .nameTooLong
    else .other (text ++ " (os error " ++ toString code ++ ")")
  | error => .other (toString error)

def attempt {A : Type} (action : IO A) : IO (Except FileError A) := do
  match ← action.toBaseIO with
  | .ok value => return .ok value
  | .error error => return .error (.ofSystem error)

def readBytes (path : String) : IO (Except FileError Text.Bytes) :=
  attempt do return (← IO.FS.readBinFile path).toList

/-- The context says whether the run is verbose. -/
instance : Surroundings (ReaderT Bool IO) where
  status path := fun _ => do
    match ← readBytes path with
    | .ok content => return .ok (.file content.length)
    | .error .isDirectory => return .ok (.directory usualDirectorySize)
    | .error error => return .error error
  readFile path := fun _ => readBytes path
  writeFile path content := fun _ => attempt (IO.FS.writeBinFile path ⟨content.toArray⟩)
  makeDirectory path := fun _ => attempt (IO.FS.createDir path)
  report event := fun verbose =>
    if CommandLine.isShown verbose event then IO.eprintln (CommandLine.shownLine event)
    else return ()

end NativePeer

open NativePeer in
def main (arguments : List String) : IO UInt32 := do
  let action : ReaderT Bool IO CommandLine.Ending := CommandLine.run arguments .unix
  let ending ← action.run (CommandLine.isVerbose arguments)
  IO.print ending.output
  for complaint in ending.complaint do
    IO.eprintln complaint
  return ending.status.toUInt32
