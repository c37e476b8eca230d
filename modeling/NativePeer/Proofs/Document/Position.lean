import NativePeer.Proofs.Document.Nesting
import NativePeer.Proofs.Document.Step

/-
This file says where the reader is by the names of the elements that are open.
-/

namespace NativePeer.Document

open Markup

/-- The reader is in a class exactly while an element of this name is open. `depth` counts the
elements that are open inside it. -/
def Reader.StandsIn (opened : List String) : Reader → Prop
  | .outside start => "class" ∉ opened ∧ ("model" ∈ opened → start.isSome = true)
  | .inClass _ _ depth =>
    ∃ inner outer, opened = inner ++ "class" :: outer ∧ inner.length = depth ∧ "class" ∉ outer
  | .inMethod _ _ _ depth =>
    ∃ inner outer, opened = inner ++ "method" :: "class" :: outer ∧ inner.length = depth ∧
      "class" ∉ outer

variable {opened after : List String} {event : Event} {next : Reader}

/-- The innermost element is the only one that an end tag closes. -/
theorem openAfter_closing {found : String}
    (nested : openAfter opened [.closing found] = some after) : opened = found :: after := by
  cases opened with
  | nil => cases nested
  | cons expected outer =>
    rw [openAfter] at nested
    split at nested
    · next same =>
      cases nested
      rw [same]
    · cases nested

/-- One event moves the reader as it opens and closes elements. -/
theorem step_standsIn {reader : Reader} (stands : reader.StandsIn opened)
    (nested : openAfter opened [event] = some after) (stepped : reader.step event = .ok next) :
    next.StandsIn after := by
  cases step_eq_ok.mp stepped with
  | pass | skipOutside =>
    cases nested
    exact stands
  | startModel named =>
    cases nested
    exact ⟨by simp [named, stands.1], fun _ => rfl⟩
  | startEmptyModel | emptyClass =>
    cases nested
    exact ⟨stands.1, fun _ => rfl⟩
  | startClass named =>
    cases nested
    exact ⟨[], opened, by rw [named]; rfl, rfl, stands.1⟩
  | enterOutside noModel noClass =>
    cases nested
    refine ⟨by simp [stands.1, Ne.symm noClass], fun member => stands.2 ?_⟩
    exact (List.mem_cons.mp member).resolve_left (Ne.symm noModel)
  | leaveOutside =>
    obtain ⟨classless, started⟩ := stands
    rw [openAfter_closing nested] at classless started
    exact ⟨fun member => classless (List.mem_cons_of_mem _ member),
      fun member => started (List.mem_cons_of_mem _ member)⟩
  | startMethod named =>
    obtain ⟨inner, outer, rfl, atOnce, classless⟩ := stands
    cases nested
    rw [List.eq_nil_of_length_eq_zero atOnce, named]
    exact ⟨[], outer, rfl, rfl, classless⟩
  | emptyMethod | emptyField | skipInClass | skipInMethod =>
    cases nested
    exact stands
  | startField | enterInClass | enterInMethod =>
    obtain ⟨inner, outer, rfl, deep, classless⟩ := stands
    cases nested
    exact ⟨_ :: inner, outer, rfl, congrArg Nat.succ deep, classless⟩
  | endClass =>
    obtain ⟨inner, outer, rfl, atOnce, classless⟩ := stands
    rw [List.eq_nil_of_length_eq_zero atOnce] at nested
    cases openAfter_closing nested
    exact ⟨classless, fun _ => rfl⟩
  | endMethod =>
    obtain ⟨inner, outer, rfl, atOnce, classless⟩ := stands
    rw [List.eq_nil_of_length_eq_zero atOnce] at nested
    cases openAfter_closing nested
    exact ⟨[], outer, rfl, rfl, classless⟩
  | leaveInClass | leaveInMethod =>
    obtain ⟨inner, outer, rfl, deep, classless⟩ := stands
    cases inner with
    | nil => cases deep
    | cons name inner =>
      cases openAfter_closing nested
      exact ⟨inner, outer, rfl, Nat.succ.inj deep, classless⟩

theorem run_standsIn {reader last : Reader} {events : List Event} (stands : reader.StandsIn opened)
    (nested : openAfter opened events = some after)
    (folded : events.foldlM Reader.step reader = .ok last) : last.StandsIn after := by
  induction events generalizing opened reader with
  | nil =>
    cases nested
    cases folded
    exact stands
  | cons event events inductionHypothesis =>
    rw [openAfter_cons] at nested
    obtain ⟨between, single, rest⟩ := Option.bind_eq_some_iff.mp nested
    rw [List.foldlM_cons] at folded
    obtain ⟨middle, stepped, others⟩ := except_bind_eq_ok.mp folded
    exact inductionHypothesis (step_standsIn stands single stepped) rest others

theorem start_standsIn : (Reader.outside none).StandsIn [] := ⟨nofun, nofun⟩

/-- Inside a model and outside of classes the reader holds a model. -/
theorem eq_outside_of_standsIn {reader : Reader} (stands : reader.StandsIn opened)
    (inModel : "model" ∈ opened) (classless : "class" ∉ opened) :
    ∃ started, reader = .outside (some started) := by
  cases reader with
  | outside start =>
    obtain ⟨started, rfl⟩ := Option.isSome_iff_exists.mp (stands.2 inModel)
    exact ⟨started, rfl⟩
  | inClass =>
    obtain ⟨inner, outer, rfl, _⟩ := stands
    exact (classless (List.mem_append_right _ List.mem_cons_self)).elim
  | inMethod =>
    obtain ⟨inner, outer, rfl, _⟩ := stands
    exact (classless (List.mem_append_right _ (List.mem_cons_of_mem _ List.mem_cons_self))).elim

end NativePeer.Document
