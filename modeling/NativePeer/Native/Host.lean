/-
This file holds the families of hosts that generated sources are compiled on.
-/

namespace NativePeer

inductive Host where
  | windows
  | unix
  deriving DecidableEq, Repr

/-- The suffix of a 64-bit integer literal. -/
def Host.longSuffix : Host → String
  | .windows => "i64"
  | .unix => "LL"

def Host.lineSeparator : Host → String
  | .windows => "\r\n"
  | .unix => "\n"

end NativePeer
