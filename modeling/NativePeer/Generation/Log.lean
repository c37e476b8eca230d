import NativePeer.Generation.Error
import NativePeer.Generation.Outcome

/-
This file holds the events that a run reports, and computations that report events.
-/

namespace NativePeer

inductive LogEvent where
  | sharedSymbol (className methodName : String)
  | artifact (outcome : Outcome) (path : String)
  | finished (classes written unchanged : Nat)
  | reading (path : String)
  | failed (error : GenerationError)
  deriving DecidableEq

inductive LogLevel where
  | info
  | warning
  | error
  deriving DecidableEq, Repr

namespace LogEvent

def level : LogEvent → LogLevel
  | .sharedSymbol _ _ => .warning
  | .artifact _ _ | .finished _ _ _ | .reading _ => .info
  | .failed _ => .error

def message : LogEvent → String
  | .sharedSymbol _ _ => "overloaded tagged methods share one native symbol"
  | .artifact outcome path => "[" ++ outcome.description ++ " " ++ path ++ "]"
  | .finished _ _ _ => "generation finished"
  | .reading _ => "reading model"
  | .failed error => error.message

/-- The names and values that belong to a message. -/
def details : LogEvent → List (String × String)
  | .sharedSymbol className methodName => [("class", className), ("method", methodName)]
  | .finished classes written unchanged =>
    [("classes", toString classes), ("written", toString written),
      ("unchanged", toString unchanged)]
  | .reading path => [("model", path)]
  | .artifact _ _ | .failed _ => []

def detailText (event : LogEvent) : String :=
  String.join (event.details.map fun (name, value) => " " ++ name ++ "=" ++ value)

end LogEvent

def LogLevel.name : LogLevel → String
  | .info => "INFO"
  | .warning => "WARN"
  | .error => "ERROR"

def LogEvent.line (event : LogEvent) : String :=
  event.level.name ++ " " ++ event.message ++ event.detailText

/-- A failure keeps the events that came before it. -/
structure Logged (A : Type) where
  log : List LogEvent
  result : Except GenerationError A

namespace Logged

def pure {A : Type} (value : A) : Logged A := ⟨[], .ok value⟩

def bind {A B : Type} (first : Logged A) (next : A → Logged B) : Logged B :=
  match first.result with
  | .error error => ⟨first.log, .error error⟩
  | .ok value => ⟨first.log ++ (next value).log, (next value).result⟩

instance : Monad Logged where
  pure := pure
  bind := bind

theorem bind_result_eq_ok {A B : Type} {first : Logged A} {next : A → Logged B} {value : B} :
    (first >>= next).result = .ok value ↔
      ∃ middle, first.result = .ok middle ∧ (next middle).result = .ok value := by
  change (bind first next).result = _ ↔ _
  unfold bind
  cases first.result <;> simp

theorem bind_log_of_ok {A B : Type} {first : Logged A} {next : A → Logged B} {middle : A}
    (succeeded : first.result = .ok middle) :
    (first >>= next).log = first.log ++ (next middle).log := by
  change (bind first next).log = _
  rw [bind, succeeded]

def report (event : LogEvent) : Logged Unit := ⟨[event], .ok ()⟩

def ofExcept {A : Type} (result : Except GenerationError A) : Logged A := ⟨[], result⟩

end Logged

end NativePeer
