import NativePeer.Text.Split

/-
This file takes apart and joins the paths of files.
-/

namespace NativePeer.Path

/-- The steps between the slashes. A slash at the end leaves an empty last step. -/
def steps (path : String) : List String :=
  (Text.pieces '/' path.toList).map String.ofList

/-- A name in a directory. -/
def join (directory name : String) : String :=
  if directory = "" ∨ directory.toList.getLast? = some '/' then directory ++ name
  else directory ++ "/" ++ name

/-- The steps that lead somewhere. A single dot counts only at the beginning. -/
def components (path : String) : List String :=
  match steps path with
  | [] => []
  | first :: rest =>
    ([first].filter (· ≠ "")) ++ rest.filter fun step => step ≠ "" ∧ step ≠ "."

/-- The slash that an absolute path begins with. -/
def root (path : String) : String :=
  if path.toList.head? = some '/' then "/" else ""

/-- The directories above a path, the innermost first. They are absolute if the path is. -/
def parents (path : String) : List String :=
  let above := (components path).dropLast
  (List.range above.length).map fun count =>
    root path ++ "/".intercalate (above.take (above.length - count))

end NativePeer.Path
