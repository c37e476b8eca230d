import NativePeer.Files.Error
import NativePeer.Files.Path
import NativePeer.Text.Latin1

/-
This file holds trees of files and directories and the operations on them.
-/

namespace NativePeer

open Text

inductive Entry where
  | file (content : Bytes)
  | directory
  deriving DecidableEq

/-- What can be told of an entry without reading it. -/
inductive Status where
  | file (size : Nat)
  | directory (size : Nat)
  deriving DecidableEq

def Status.size : Status → Nat
  | .file size | .directory size => size

/-- The system has a size for directories too. -/
def Entry.status (directorySize : Nat) : Entry → Status
  | .file content => .file content.length
  | .directory => .directory directorySize

def usualDirectorySize : Nat := 4096

/-- Each entry has a place: its name after the names of the directories around it. -/
structure FileTree where
  entries : List (List String × Entry)
  directorySize : Nat := usualDirectorySize
  deriving DecidableEq

namespace FileTree

def empty : FileTree := { entries := [] }

/-- The place without names is the directory around everything. -/
def entryAt? (tree : FileTree) (place : List String) : Option Entry :=
  if place = [] then some .directory else tree.entries.lookup place

/-- An entry that is there already keeps its position. -/
def replace (place : List String) (entry : Entry) :
    List (List String × Entry) → List (List String × Entry)
  | [] => [(place, entry)]
  | (other, old) :: rest =>
    if other = place then (place, entry) :: rest else (other, old) :: replace place entry rest

def set (tree : FileTree) (place : List String) (entry : Entry) : FileTree :=
  { tree with entries := replace place entry tree.entries }

theorem lookup_replace_self (place : List String) (entry : Entry)
    (entries : List (List String × Entry)) :
    (replace place entry entries).lookup place = some entry := by
  induction entries with
  | nil => simp [replace]
  | cons first rest inductionHypothesis =>
    obtain ⟨other, old⟩ := first
    rw [replace]
    split
    · simp
    · next different =>
      have apart : (place == other) = false := beq_false_of_ne (Ne.symm different)
      simp [List.lookup_cons, apart, inductionHypothesis]

theorem lookup_replace_other {place other : List String} (different : other ≠ place)
    (entry : Entry) (entries : List (List String × Entry)) :
    (replace place entry entries).lookup other = entries.lookup other := by
  have apart : (other == place) = false := beq_false_of_ne different
  induction entries with
  | nil => simp [replace, List.lookup_cons, apart]
  | cons first rest inductionHypothesis =>
    obtain ⟨position, old⟩ := first
    rw [replace]
    split
    · next same => simp [List.lookup_cons, same, apart]
    · simp [List.lookup_cons, inductionHypothesis]

theorem entryAt?_set_self (tree : FileTree) {place : List String} (inside : place ≠ [])
    (entry : Entry) : (tree.set place entry).entryAt? place = some entry := by
  simp [set, entryAt?, inside, lookup_replace_self]

theorem entryAt?_set_other (tree : FileTree) {place other : List String}
    (different : other ≠ place) (entry : Entry) :
    (tree.set place entry).entryAt? other = tree.entryAt? other := by
  simp [set, entryAt?, lookup_replace_other different]

def nameLimit : Nat := 255

def pathLimit : Nat := 4096

/-- This function follows the steps of a path from a directory. Only the last step may lead to
nothing or to a file. -/
def follow (tree : FileTree) (place : List String) : List String → Except FileError (List String)
  | [] => .ok place
  | step :: steps =>
    if step = "" ∨ step = "." then follow tree place steps
    else if step = ".." then follow tree place.dropLast steps
    else if nameLimit < step.utf8ByteSize then .error .nameTooLong
    else if steps = [] then .ok (place ++ [step])
    else match tree.entryAt? (place ++ [step]) with
      | none => .error .notFound
      | some (.file _) => .error .notDirectory
      | some .directory => follow tree (place ++ [step]) steps

/-- The steps of a path that the system accepts. -/
def stepsOf (path : String) : Except FileError (List String) :=
  if '\x00' ∈ path.toList then .error .nullInName
  else if path = "" then .error .notFound
  else if pathLimit ≤ path.utf8ByteSize then .error .nameTooLong
  else .ok (Path.steps path)

def locate (tree : FileTree) (path : String) : Except FileError Entry :=
  match stepsOf path with
  | .error error => .error error
  | .ok steps =>
    match tree.follow [] steps with
    | .error error => .error error
    | .ok place =>
      match tree.entryAt? place with
      | none => .error .notFound
      | some entry => .ok entry

def status (tree : FileTree) (path : String) : Except FileError Status :=
  (tree.locate path).map (Entry.status tree.directorySize)

def read (tree : FileTree) (path : String) : Except FileError Bytes :=
  match tree.locate path with
  | .error error => .error error
  | .ok .directory => .error .isDirectory
  | .ok (.file content) => .ok content

/-- The target of a path that is about to be created. -/
structure Target where
  directory : List String
  name : String
  /-- Whether slashes follow the name. -/
  slashed : Bool

/-- All steps before the name have to be directories. -/
def target (tree : FileTree) (path : String) : Except FileError Target :=
  match stepsOf path with
  | .error error => .error error
  | .ok steps =>
    let trimmed := (steps.reverse.dropWhile (· = "")).reverse
    match tree.follow [] (trimmed.dropLast ++ [""]) with
    | .error error => .error error
    | .ok directory =>
      .ok ⟨directory, trimmed.getLast?.getD ".", trimmed.length ≠ steps.length⟩

def isDots (name : String) : Bool :=
  name = "." || name = ".."

/-- A file is created or its content is replaced. -/
def write (tree : FileTree) (path : String) (content : Bytes) : Except FileError FileTree :=
  match tree.target path with
  | .error error => .error error
  | .ok target =>
    let place := target.directory ++ [target.name]
    if target.slashed ∨ isDots target.name then .error .isDirectory
    else if nameLimit < target.name.utf8ByteSize then .error .nameTooLong
    else if tree.entryAt? place = some .directory then .error .isDirectory
    else .ok (tree.set place (.file content))

/-- The directory around a new directory has to exist. -/
def makeDirectory (tree : FileTree) (path : String) : Except FileError FileTree :=
  match tree.target path with
  | .error error => .error error
  | .ok target =>
    let place := target.directory ++ [target.name]
    if isDots target.name then .error .alreadyExists
    else if nameLimit < target.name.utf8ByteSize then .error .nameTooLong
    else if (tree.entryAt? place).isSome then .error .alreadyExists
    else .ok (tree.set place .directory)

end FileTree

end NativePeer
