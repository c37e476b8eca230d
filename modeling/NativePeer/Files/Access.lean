import NativePeer.Files.Tree
import NativePeer.Generation.Log

/-
This file says what a run needs of its surroundings. A tree of files gives it.
-/

namespace NativePeer

class Surroundings (M : Type → Type) where
  status : String → M (Except FileError Status)
  readFile : String → M (Except FileError Text.Bytes)
  writeFile : String → Text.Bytes → M (Except FileError Unit)
  makeDirectory : String → M (Except FileError Unit)
  report : LogEvent → M Unit

/-- A computation that may fail has the surroundings of what it consists of. -/
instance {E : Type} {M : Type → Type} [Monad M] [Surroundings M] :
    Surroundings (ExceptT E M) where
  status path := ExceptT.lift (Surroundings.status path)
  readFile path := ExceptT.lift (Surroundings.readFile path)
  writeFile path content := ExceptT.lift (Surroundings.writeFile path content)
  makeDirectory path := ExceptT.lift (Surroundings.makeDirectory path)
  report event := ExceptT.lift (Surroundings.report event)

/-- A tree of files and the events reported so far. -/
structure Session where
  tree : FileTree
  log : List LogEvent

namespace Session

/-- A failed operation leaves the tree as it is. -/
def change (session : Session) (result : Except FileError FileTree) :
    Except FileError Unit × Session :=
  match result with
  | .error error => (.error error, session)
  | .ok tree => (.ok (), { session with tree })

def report (session : Session) (event : LogEvent) : Session :=
  { session with log := session.log ++ [event] }

instance : Surroundings (StateM Session) where
  status path := fun session => (session.tree.status path, session)
  readFile path := fun session => (session.tree.read path, session)
  writeFile path content := fun session => session.change (session.tree.write path content)
  makeDirectory path := fun session => session.change (session.tree.makeDirectory path)
  report event := fun session => ((), session.report event)

@[simp] theorem run_status (path : String) (session : Session) :
    (Surroundings.status path : StateM Session _).run session =
      (session.tree.status path, session) := rfl

@[simp] theorem run_readFile (path : String) (session : Session) :
    (Surroundings.readFile path : StateM Session _).run session =
      (session.tree.read path, session) := rfl

@[simp] theorem run_writeFile (path : String) (content : Text.Bytes) (session : Session) :
    (Surroundings.writeFile path content : StateM Session _).run session =
      session.change (session.tree.write path content) := rfl

@[simp] theorem run_makeDirectory (path : String) (session : Session) :
    (Surroundings.makeDirectory path : StateM Session _).run session =
      session.change (session.tree.makeDirectory path) := rfl

@[simp] theorem run_report (event : LogEvent) (session : Session) :
    (Surroundings.report event : StateM Session _).run session = ((), session.report event) :=
  rfl

end Session

end NativePeer
