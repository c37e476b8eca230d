import NativePeer.Namespace
import NativePeer.Native.Host

/-
This file holds the settings of a run.
-/

namespace NativePeer

/-- `home` takes the place of the namespace of every class. -/
structure Configuration where
  outputDirectory : String
  force : Bool := false
  verbose : Bool := false
  home : Option Namespace := none
  precompiledHeader : Option String := none
  host : Host := .unix
  disambiguatesOverloads : Bool := false
  emitsConstants : Bool := false
  deriving DecidableEq

end NativePeer
