import NativePeer.Generation.Log
import NativePeer.Text.Control

/-
This file says which events the program shows and how.
-/

namespace NativePeer.CommandLine

/-- Information is shown only in a verbose run. -/
def isShown (verbose : Bool) (event : LogEvent) : Bool :=
  verbose || event.level ≠ .info

/-- Controls are spelled out in the message of an event. The details keep theirs. -/
def shownLine (event : LogEvent) : String :=
  event.level.name ++ " " ++ Text.spellControls event.message ++ event.detailText

end NativePeer.CommandLine
