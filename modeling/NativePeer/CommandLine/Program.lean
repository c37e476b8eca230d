import NativePeer.CommandLine.Options
import NativePeer.Files.Directories
import NativePeer.Generation.Run

/-
This file holds the program: what a run with given arguments does and prints.
-/

namespace NativePeer.CommandLine

open Surroundings

def helpLines : List String :=
  ["Generate C++ native peers for managed classes",
    "",
    "Usage: jnipeer [OPTIONS] --directory <DIR> <MODEL>...",
    "",
    "Arguments:",
    "  <MODEL>...  Model documents to generate from",
    "",
    "Options:",
    "  -d, --directory <DIR>         Output directory for generated files",
    "      --pch <HEADER>            Precompiled header included first in every definition file",
    "      --namespace <NAMESPACE>   Namespace for every peer, overriding the class tags " ++
      "(e.g. `JNI.Peers`)",
    "      --force                   Always write files, even when unchanged",
    "  -v, --verbose                 Report what happened to every file",
    "      --constants               Emit #define blocks for static final constants",
    "      --disambiguate-overloads  Give overloaded methods distinct native names",
    "  -h, --help                    Print help",
    "  -V, --version                 Print version"]

def helpText : String :=
  String.join (helpLines.map (· ++ "\n"))

def versionText : String := "jnipeer 0.1.0\n"

/-- What the program leaves behind besides files and reported events. -/
structure Ending where
  status : Nat
  output : String
  complaint : Option String
  deriving DecidableEq

def misuseStatus : Nat := 2

/-- The namespace has to be a valid one. -/
def homeOf : Option String → Except GenerationError (Option Namespace)
  | none => .ok none
  | some text =>
    match (Namespace.parse? text).filter Namespace.isValid with
    | none => .error (.model (.invalidNamespace "--namespace" text))
    | some home => .ok (some home)

def Options.configuration (options : Options) (host : Host) :
    Except GenerationError Configuration := do
  let home ← homeOf options.homeText
  return { outputDirectory := options.directory
           force := options.force
           verbose := options.verbose
           home
           precompiledHeader := options.precompiledHeader
           host
           disambiguatesOverloads := options.disambiguatesOverloads
           emitsConstants := options.constants }

def summary (path : String) (report : Report) : String :=
  path ++ ": " ++ toString report.classes ++ " peer(s), " ++ toString report.written ++
    " file(s) written, " ++ toString report.unchanged ++ " unchanged\n"

variable {M : Type → Type} [Monad M] [Surroundings M]

def generateModel (configuration : Configuration) (path : String) :
    ExceptT GenerationError M Report := do
  report (.reading path)
  generateFile configuration path

/-- The namespace is looked at before the output directory is made. -/
def generateAll (options : Options) (host : Host) :
    ExceptT GenerationError M (List (String × Report)) := do
  let configuration ← ExceptT.mk (pure (options.configuration host))
  match ← createDirectories configuration.outputDirectory with
  | .error error => throw (.file configuration.outputDirectory error)
  | .ok _ =>
    options.models.mapM fun path => do
      return (path, ← generateModel configuration path)

/-- The summaries are printed only if every model has succeeded. -/
def runOptions (options : Options) (host : Host) : M Ending := do
  match ← (generateAll options host).run with
  | .ok reports =>
    return ⟨0, String.join (reports.map fun (path, result) => summary path result), none⟩
  | .error error =>
    report (.failed error)
    return ⟨error.exitStatus, "", some ("jnipeer: " ++ error.message)⟩

def run (arguments : List String) (host : Host) : M Ending :=
  match Invocation.ofArguments arguments with
  | .help => return ⟨0, helpText, none⟩
  | .version => return ⟨0, versionText, none⟩
  | .misuse => return ⟨misuseStatus, "", none⟩
  | .generate options => runOptions options host

/-- Whether the arguments ask for a verbose run. -/
def isVerbose (arguments : List String) : Bool :=
  match Invocation.ofArguments arguments with
  | .generate options => options.verbose
  | .help | .version | .misuse => false

end NativePeer.CommandLine
