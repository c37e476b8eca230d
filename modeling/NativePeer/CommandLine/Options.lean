/-
This file reads the arguments of the program.
-/

namespace NativePeer.CommandLine

/-- The directory and at least one model are required. -/
structure Options where
  directory : String
  precompiledHeader : Option String
  homeText : Option String
  force : Bool
  verbose : Bool
  constants : Bool
  disambiguatesOverloads : Bool
  models : List String
  deriving DecidableEq

/-- A misuse is answered with the exit status alone. -/
inductive Invocation where
  | help
  | version
  | misuse
  | generate (options : Options)
  deriving DecidableEq

/-- The options that take no value. -/
inductive Flag where
  | force
  | verbose
  | constants
  | disambiguatesOverloads
  deriving DecidableEq

/-- The options that take a value. -/
inductive Setting where
  | directory
  | precompiledHeader
  | home
  deriving DecidableEq

inductive OptionName where
  | flag (flag : Flag)
  | setting (setting : Setting)
  | help
  | version
  deriving DecidableEq

def OptionName.ofLong? : String → Option OptionName
  | "directory" => some (.setting .directory)
  | "pch" => some (.setting .precompiledHeader)
  | "namespace" => some (.setting .home)
  | "force" => some (.flag .force)
  | "verbose" => some (.flag .verbose)
  | "constants" => some (.flag .constants)
  | "disambiguate-overloads" => some (.flag .disambiguatesOverloads)
  | "help" => some .help
  | "version" => some .version
  | _ => none

def OptionName.ofShort? : Char → Option OptionName
  | 'd' => some (.setting .directory)
  | 'v' => some (.flag .verbose)
  | 'h' => some .help
  | 'V' => some .version
  | _ => none

/-- What the arguments so far have given. -/
structure Given where
  flags : List Flag := []
  settings : List (Setting × String) := []
  models : List String := []

namespace Given

/-- No flag is given twice. -/
def addFlag? (given : Given) (flag : Flag) : Option Given :=
  if flag ∈ given.flags then none else some { given with flags := flag :: given.flags }

/-- No setting is given twice, and the directory has a name. -/
def addSetting? (given : Given) (setting : Setting) (value : String) : Option Given :=
  if (given.settings.lookup setting).isSome ∨ (setting = .directory ∧ value = "") then none
  else some { given with settings := (setting, value) :: given.settings }

/-- A model has a name. -/
def addModel? (given : Given) (model : String) : Option Given :=
  if model = "" then none else some { given with models := given.models ++ [model] }

def finish (given : Given) : Invocation :=
  match given.settings.lookup .directory, given.models with
  | none, _ => .misuse
  | some _, [] => .misuse
  | some directory, models =>
    .generate
      { directory
        precompiledHeader := given.settings.lookup .precompiledHeader
        homeText := given.settings.lookup .home
        force := .force ∈ given.flags
        verbose := .verbose ∈ given.flags
        constants := .constants ∈ given.flags
        disambiguatesOverloads := .disambiguatesOverloads ∈ given.flags
        models }

end Given

/-- A single dash is an ordinary argument. -/
def looksLikeOption (argument : String) : Bool :=
  match argument.toList with
  | '-' :: _ :: _ => true
  | _ => false

/-- What an argument adds. A setting without its value waits for the next argument. -/
inductive Effect where
  | more (given : Given)
  | waiting (given : Given) (setting : Setting)
  | stop (invocation : Invocation)

def Effect.ofGiven? : Option Given → Effect
  | none => .stop .misuse
  | some given => .more given

/-- The value of a long option may follow an equals sign. -/
def readLong (given : Given) (letters : List Char) : Effect :=
  let name := String.ofList (letters.takeWhile (· ≠ '='))
  let value? := match letters.dropWhile (· ≠ '=') with
    | [] => none
    | _ :: value => some (String.ofList value)
  match OptionName.ofLong? name, value? with
  | some (.setting setting), none => .waiting given setting
  | some (.setting setting), some value => .ofGiven? (given.addSetting? setting value)
  | some (.flag flag), none => .ofGiven? (given.addFlag? flag)
  | some .help, none => .stop .help
  | some .version, none => .stop .version
  | some _, some _ => .stop .misuse
  | none, _ => .stop .misuse

/-- Short flags may stand together. The rest after a setting is its value, with or without an
equals sign. -/
def readShort (given : Given) : List Char → Effect
  | [] => .more given
  | letter :: letters =>
    match OptionName.ofShort? letter with
    | none => .stop .misuse
    | some .help => .stop .help
    | some .version => .stop .version
    | some (.flag flag) =>
      match given.addFlag? flag with
      | none => .stop .misuse
      | some next => readShort next letters
    | some (.setting setting) =>
      match letters with
      | [] => .waiting given setting
      | '=' :: value => .ofGiven? (given.addSetting? setting (String.ofList value))
      | value => .ofGiven? (given.addSetting? setting (String.ofList value))

def readArgument (given : Given) (argument : String) : Effect :=
  match argument.toList with
  | '-' :: '-' :: letters => readLong given letters
  | '-' :: letter :: letters => readShort given (letter :: letters)
  | _ => .ofGiven? (given.addModel? argument)

def addModels? (given : Given) : List String → Option Given
  | [] => some given
  | model :: models => (given.addModel? model).bind (addModels? · models)

/-- The arguments count from left to right. After two dashes all are models. -/
def readFrom (given : Given) : List String → Invocation
  | [] => given.finish
  | "--" :: models => ((addModels? given models).map Given.finish).getD .misuse
  | argument :: arguments =>
    match readArgument given argument with
    | .stop invocation => invocation
    | .more next => readFrom next arguments
    | .waiting next setting =>
      match arguments with
      | [] => .misuse
      | value :: rest =>
        if looksLikeOption value then .misuse
        else match next.addSetting? setting value with
          | none => .misuse
          | some next => readFrom next rest

def Invocation.ofArguments (arguments : List String) : Invocation :=
  readFrom {} arguments

end NativePeer.CommandLine
