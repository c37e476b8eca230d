import NativePeer.Proofs.Document.Forest

/-
This file shows that a document without faults that leaves no element open is a forest.
-/

namespace NativePeer

namespace Markup

/-- The names of the elements that are open after some events, the innermost first. Every end tag
has to name the innermost one. -/
def openAfter : List String → List Event → Option (List String)
  | opened, [] => some opened
  | opened, .opening tag :: events => openAfter (tag.name :: opened) events
  | opened, .selfClosing _ :: events => openAfter opened events
  | opened, .content :: events => openAfter opened events
  | [], .closing _ :: _ => none
  | expected :: outer, .closing found :: events =>
    if found = expected then openAfter outer events else none

variable {opened : List String} {letters : List Char} {step : Step}

theorem openAfter_cons (opened : List String) (event : Event) (events : List Event) :
    openAfter opened (event :: events) =
      openAfter opened [event] >>= fun next => openAfter next events := by
  cases event with
  | opening tag => rfl
  | selfClosing tag => rfl
  | content => rfl
  | closing found =>
    cases opened with
    | nil => rfl
    | cons expected outer =>
      rw [openAfter, openAfter]
      split <;> rfl

theorem scanFrom_of_error {letter : Char} {fault : Fault}
    (failed : scanStep opened letter letters = .error fault) :
    scanFrom opened (letter :: letters) = ⟨[], some fault⟩ := by
  rw [scanFrom]
  split
  · next other =>
    cases failed.symm.trans other
    rfl
  · next found => cases failed.symm.trans found

theorem scanFrom_of_ok {letter : Char} (found : scanStep opened letter letters = .ok step) :
    scanFrom opened (letter :: letters) =
      ⟨step.event :: (scanFrom step.opened step.rest).events,
        (scanFrom step.opened step.rest).fault⟩ := by
  rw [scanFrom]
  split
  · next failed => cases found.symm.trans failed
  · next other =>
    cases found.symm.trans other
    rfl

/-- A text without faults in which every element that begins also ends. -/
structure IsWellFormed (text : String) : Prop where
  faultless : (scan text.toList).fault = none
  closed : openAfter [] (scan text.toList).events = some []

end Markup

namespace Document

open Markup

theorem Forest.openAfter_events (forest : Forest) (opened : List String) (rest : List Event) :
    openAfter opened (forest.events ++ rest) = openAfter opened rest := by
  induction forest generalizing opened rest with
  | nil => rfl
  | content following inductionHypothesis => exact inductionHypothesis opened rest
  | selfClosing tag following inductionHypothesis => exact inductionHypothesis opened rest
  | element tag inside following insideHypothesis followingHypothesis =>
    rw [events, List.cons_append, openAfter, List.append_assoc, insideHypothesis, List.cons_append,
      openAfter, if_pos rfl, followingHypothesis]

/-- What may follow the elements that stand side by side: an end tag or nothing. -/
def BeginsWithEnd (rest : List Event) : Prop :=
  ∀ event, rest.head? = some event → ∃ name, event = .closing name

/-- The markup of a forest goes on as far as it can, so it tells its elements. -/
theorem Forest.eq_of_events_append {first second : Forest} {firstRest secondRest : List Event}
    (firstEnd : BeginsWithEnd firstRest) (secondEnd : BeginsWithEnd secondRest)
    (same : first.events ++ firstRest = second.events ++ secondRest) :
    first = second ∧ firstRest = secondRest := by
  have notEnd {event : Event} {following rest : List Event} (begun : event :: following = rest)
      (isEnd : BeginsWithEnd rest) : ∃ name, event = .closing name :=
    isEnd event (by rw [← begun]; rfl)
  induction first generalizing second firstRest secondRest with
  | nil =>
    cases second with
    | nil => exact ⟨rfl, same⟩
    | content | selfClosing | element =>
      obtain ⟨_, impossible⟩ := notEnd same.symm firstEnd
      cases impossible
  | content following inductionHypothesis =>
    cases second with
    | nil =>
      obtain ⟨_, impossible⟩ := notEnd same secondEnd
      cases impossible
    | content other =>
      obtain ⟨rfl, sameRest⟩ := inductionHypothesis firstEnd secondEnd (List.cons.inj same).2
      exact ⟨rfl, sameRest⟩
    | selfClosing | element => cases (List.cons.inj same).1
  | selfClosing tag following inductionHypothesis =>
    cases second with
    | nil =>
      obtain ⟨_, impossible⟩ := notEnd same secondEnd
      cases impossible
    | selfClosing other others =>
      obtain ⟨sameTag, sameEvents⟩ := List.cons.inj same
      cases sameTag
      obtain ⟨rfl, sameRest⟩ := inductionHypothesis firstEnd secondEnd sameEvents
      exact ⟨rfl, sameRest⟩
    | content | element => cases (List.cons.inj same).1
  | element tag inside following insideHypothesis followingHypothesis =>
    cases second with
    | nil =>
      obtain ⟨_, impossible⟩ := notEnd same secondEnd
      cases impossible
    | element other otherInside others =>
      simp only [events, List.cons_append, List.append_assoc, List.cons.injEq] at same
      obtain ⟨sameTag, sameEvents⟩ := same
      cases sameTag
      have isEnd (rest : List Event) : BeginsWithEnd (.closing tag.name :: rest) :=
        fun event begun => ⟨tag.name, (Option.some.inj begun).symm⟩
      obtain ⟨rfl, sameClosing⟩ := insideHypothesis (isEnd _) (isEnd _) sameEvents
      obtain ⟨rfl, sameRest⟩ := followingHypothesis firstEnd secondEnd (List.cons.inj sameClosing).2
      exact ⟨rfl, sameRest⟩
    | content | selfClosing => cases (List.cons.inj same).1

theorem Forest.events_injective {first second : Forest} (same : first.events = second.events) :
    first = second := by
  have nothing : BeginsWithEnd [] := fun event begun => by cases begun
  exact (eq_of_events_append nothing nothing (by rw [same])).1

/-- What is left of the events where the innermost element ends or the document does. -/
def Ends (opened : List String) (rest : List Event) : Prop :=
  match opened with
  | [] => rest = []
  | expected :: outer =>
    ∃ after, rest = .closing expected :: after ∧ openAfter outer after = some []

/-- The events up to the end of the innermost element are those of a forest. -/
theorem exists_forest_of_openAfter (count : Nat) {events : List Event} {opened : List String}
    (short : events.length ≤ count) (closed : openAfter opened events = some []) :
    ∃ (forest : Forest) (rest : List Event), events = forest.events ++ rest ∧ Ends opened rest := by
  -- The elements after an end tag stand apart from those before it, so the length carries the
  -- induction.
  induction count generalizing events opened with
  | zero =>
    rw [List.eq_nil_of_length_eq_zero (Nat.le_zero.mp short)] at closed ⊢
    cases closed
    exact ⟨.nil, [], rfl, rfl⟩
  | succ count inductionHypothesis =>
    cases events with
    | nil =>
      cases closed
      exact ⟨.nil, [], rfl, rfl⟩
    | cons event events =>
      have shorter : events.length ≤ count := Nat.le_of_succ_le_succ short
      cases event with
      | content =>
        obtain ⟨forest, rest, rfl, ends⟩ := inductionHypothesis shorter closed
        exact ⟨.content forest, rest, rfl, ends⟩
      | selfClosing tag =>
        obtain ⟨forest, rest, rfl, ends⟩ := inductionHypothesis shorter closed
        exact ⟨.selfClosing tag forest, rest, rfl, ends⟩
      | opening tag =>
        obtain ⟨inside, _, rfl, following, rfl, closedAfter⟩ :=
          inductionHypothesis shorter closed
        have last : following.length ≤ count := by
          simp only [List.length_append, List.length_cons] at shorter
          omega
        obtain ⟨forest, rest, rfl, ends⟩ := inductionHypothesis last closedAfter
        refine ⟨.element tag inside forest, rest, ?_, ends⟩
        simp [Forest.events]
      | closing found =>
        refine ⟨.nil, .closing found :: events, rfl, ?_⟩
        cases opened with
        | nil => cases closed
        | cons expected outer =>
          rw [openAfter] at closed
          split at closed
          · next same =>
            rw [same]
            exact ⟨events, rfl, closed⟩
          · cases closed

/-- A text is well formed exactly if its markup is that of a forest. -/
theorem isWellFormed_iff {text : String} :
    IsWellFormed text ↔ ∃ forest : Forest, scan text.toList = ⟨forest.events, none⟩ := by
  constructor
  · intro wellFormed
    obtain ⟨forest, rest, split, none⟩ :=
      exists_forest_of_openAfter _ (Nat.le_refl _) wellFormed.closed
    refine ⟨forest, ?_⟩
    have shape : (scan text.toList).events = forest.events := by
      rw [split, none, List.append_nil]
    rw [← shape, ← wellFormed.faultless]
  · rintro ⟨forest, scanned⟩
    have closed := forest.openAfter_events [] []
    rw [List.append_nil] at closed
    exact ⟨by rw [scanned], by rw [scanned]; exact closed⟩

end Document

end NativePeer
