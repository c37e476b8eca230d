import NativePeer.Proofs.Document.Position
import NativePeer.Proofs.Markup.Extension

/-
This file says which beginnings of a document are documents themselves.
-/

namespace NativePeer

namespace Document

open Markup

/-- A document of one model element that ends with its end tag. -/
structure IsModelDocument (text : String) (tag : Tag) (inside : Forest) : Prop where
  named : tag.name = "model"
  scanned : ∃ prolog, (∀ event ∈ prolog, event = .content) ∧
    scan text.toList = ⟨prolog ++ (Forest.element tag inside .nil).events, none⟩

/-- The text stops between two pieces of markup, in a model and outside of its classes. -/
structure StopsBetweenClasses (text : String) : Prop where
  faultless : (scan text.toList).fault = none
  position : ∃ opened, openAfter [] (scan text.toList).events = some opened ∧
    "model" ∈ opened ∧ "class" ∉ opened

/-- The events of a forest never close an element around it. -/
theorem Forest.exists_openAfter_of_prefix (forest : Forest) {events : List Event}
    (begins : events <+: forest.events) (opened : List String) :
    ∃ inner, openAfter opened events = some (inner ++ opened) := by
  induction forest generalizing events opened with
  | nil =>
    rw [List.prefix_nil.mp begins]
    exact ⟨[], rfl⟩
  | content rest inductionHypothesis =>
    rcases List.prefix_cons_iff.mp begins with rfl | ⟨following, rfl, inRest⟩
    · exact ⟨[], rfl⟩
    · exact inductionHypothesis inRest opened
  | selfClosing tag rest inductionHypothesis =>
    rcases List.prefix_cons_iff.mp begins with rfl | ⟨following, rfl, inRest⟩
    · exact ⟨[], rfl⟩
    · exact inductionHypothesis inRest opened
  | element tag inside rest insideHypothesis restHypothesis =>
    rcases List.prefix_cons_iff.mp begins with rfl | ⟨following, rfl, after, same⟩
    · exact ⟨[], rfl⟩
    · rcases List.append_eq_append_iff.mp same with ⟨missing, whole, _⟩ | ⟨further, rfl, ends⟩
      · obtain ⟨inner, stack⟩ := insideHypothesis ⟨missing, whole.symm⟩ (tag.name :: opened)
        refine ⟨inner ++ [tag.name], ?_⟩
        rw [openAfter, stack, List.append_assoc]
        rfl
      · cases further with
        | nil =>
          refine ⟨[tag.name], ?_⟩
          rw [openAfter, inside.openAfter_events]
          rfl
        | cons event further =>
          cases (List.cons.inj ends).1
          obtain ⟨inner, stack⟩ := restHypothesis ⟨after, (List.cons.inj ends).2.symm⟩ opened
          refine ⟨inner, ?_⟩
          rw [openAfter, inside.openAfter_events, openAfter, if_pos rfl, stack]

/-- A proper beginning of the events of a model document holds no tag or leaves the model open. -/
theorem prefix_of_model_events {prolog events : List Event} {tag : Tag} {inside : Forest}
    (begins : events <+: prolog ++ (Forest.element tag inside .nil).events)
    (proper : events ≠ prolog ++ (Forest.element tag inside .nil).events) :
    events <+: prolog ∨ ∃ inner, events = prolog ++ .opening tag :: inner ∧
      inner <+: inside.events := by
  have shape : prolog ++ (Forest.element tag inside .nil).events =
      (prolog ++ .opening tag :: inside.events) ++ [.closing tag.name] := by
    simp [Forest.events]
  rw [shape] at begins proper
  obtain ⟨after, same⟩ := (List.prefix_concat_iff.mp begins).resolve_left proper
  rcases List.append_eq_append_iff.mp same with ⟨missing, whole, _⟩ | ⟨further, rfl, ends⟩
  · exact .inl ⟨missing, whole.symm⟩
  · cases further with
    | nil => exact .inl (by simp)
    | cons event inner =>
      cases (List.cons.inj ends).1
      exact .inr ⟨inner, rfl, after, (List.cons.inj ends).2.symm⟩

/-- The classes that the reader has built so far. -/
def Reader.classes : Reader → List ManagedClass
  | .outside none => []
  | .outside (some model) => model.classes
  | .inClass model _ _ => model.classes
  | .inMethod model _ _ _ => model.classes

/-- The tag of a model element makes the reader start again. -/
def startsModel : Event → Bool
  | .opening tag => tag.name = "model"
  | .selfClosing tag => tag.name = "model"
  | .closing _ => false
  | .content => false

theorem add_classes_prefix {model longer : ClassModel} {current : ManagedClass}
    (added : model.add current = .ok longer) : model.classes <+: longer.classes := by
  rw [ClassModel.classes_of_add added]
  exact List.prefix_append _ _

theorem step_classes_prefix {reader next : Reader} {event : Event}
    (goesOn : startsModel event = false) (stepped : reader.step event = .ok next) :
    reader.classes <+: next.classes := by
  cases step_eq_ok.mp stepped with
  | startModel named | startEmptyModel named => simp [startsModel, named] at goesOn
  | emptyClass _ _ added | endClass _ added => exact add_classes_prefix added
  | _ => exact List.prefix_rfl

/-- No class is lost while no model starts. -/
theorem run_classes_prefix {reader last : Reader} {events : List Event}
    (goesOn : ∀ event ∈ events, startsModel event = false)
    (folded : events.foldlM Reader.step reader = .ok last) : reader.classes <+: last.classes := by
  induction events generalizing reader with
  | nil =>
    cases folded
    exact List.prefix_rfl
  | cons event events inductionHypothesis =>
    rw [List.foldlM_cons] at folded
    obtain ⟨next, stepped, rest⟩ := except_bind_eq_ok.mp folded
    have kept := step_classes_prefix (goesOn event List.mem_cons_self) stepped
    exact kept.trans
      (inductionHypothesis (fun other member => goesOn other (List.mem_cons_of_mem _ member)) rest)

theorem readScan_eq_ok {scan : Scan} {model : ClassModel} :
    readScan scan = .ok model ↔ scan.fault = none ∧
      scan.events.foldlM Reader.step (.outside none) = .ok (.outside (some model)) := by
  unfold readScan
  rw [except_bind_eq_ok]
  constructor
  · rintro ⟨reader, folded, rest⟩
    split at rest
    · cases rest
    · next faultless =>
      refine ⟨faultless, ?_⟩
      unfold Reader.finish at rest
      split at rest <;> cases rest
      exact folded
  · rintro ⟨faultless, folded⟩
    refine ⟨_, folded, ?_⟩
    rw [faultless]
    rfl

theorem run_content {events : List Event} (content : ∀ event ∈ events, event = .content)
    (start : Option ClassModel) :
    events.foldlM Reader.step (.outside start) = .ok (.outside start) := by
  induction events with
  | nil => rfl
  | cons event events inductionHypothesis =>
    rw [List.foldlM_cons, content event List.mem_cons_self]
    exact inductionHypothesis fun other member => content other (List.mem_cons_of_mem _ member)

theorem openAfter_content {events : List Event} (content : ∀ event ∈ events, event = .content)
    (opened : List String) (rest : List Event) :
    openAfter opened (events ++ rest) = openAfter opened rest := by
  induction events with
  | nil => rfl
  | cons event events inductionHypothesis =>
    rw [content event List.mem_cons_self]
    exact inductionHypothesis fun other member => content other (List.mem_cons_of_mem _ member)

/-- A faultless beginning holds no tag or leaves the model open. -/
theorem IsModelDocument.beginning {text beginning : String} {prolog : List Event} {tag : Tag}
    {inside : Forest}
    (scanned : scan text.toList = ⟨prolog ++ (Forest.element tag inside .nil).events, none⟩)
    (begins : beginning.toList <+: text.toList) (proper : beginning ≠ text)
    (faultless : (scan beginning.toList).fault = none) :
    (scan beginning.toList).events <+: prolog ∨
      ∃ inner, (scan beginning.toList).events = prolog ++ .opening tag :: inner ∧
        inner <+: inside.events := by
  obtain ⟨more, whole⟩ := begins
  have longer : (scan (beginning.toList ++ more)).events =
      prolog ++ (Forest.element tag inside .nil).events := by
    rw [whole, scanned]
  refine prefix_of_model_events (longer ▸ scan_append_prefix faultless more) fun same => ?_
  have last : (scan beginning.toList).events.getLast? = some (.closing tag.name) := by
    rw [same, Forest.events, List.getLast?_append, List.getLast?_cons]
    simp [Forest.events]
  have nothing : more = [] := eq_nil_of_scan_append_events faultless (by rw [whole, scanned])
    (longer.trans same.symm) last (by simp)
  rw [nothing, List.append_nil] at whole
  exact proper (String.toList_inj.mp whole)

/-- A beginning of a model document is a document exactly if it stops between classes. If no other
model starts it has the first classes of the whole. -/
theorem read_beginning_iff {text beginning : String} {tag : Tag} {inside : Forest}
    {model : ClassModel} (document : IsModelDocument text tag inside)
    (accepted : Document.read text = .ok model) (begins : beginning.toList <+: text.toList)
    (proper : beginning ≠ text) :
    ((∃ smaller, Document.read beginning = .ok smaller) ↔ StopsBetweenClasses beginning) ∧
      ((∀ event ∈ inside.events, startsModel event = false) →
        ∀ smaller, Document.read beginning = .ok smaller → smaller.classes <+: model.classes) := by
  obtain ⟨prolog, content, scanned⟩ := document.scanned
  have opens {smaller : ClassModel} (read : Document.read beginning = .ok smaller) :
      ∃ inner, (scan beginning.toList).events = prolog ++ .opening tag :: inner ∧
        inner <+: inside.events := by
    obtain ⟨faultless, folded⟩ := readScan_eq_ok.mp read
    refine (IsModelDocument.beginning scanned begins proper faultless).resolve_left fun short => ?_
    rw [run_content fun event member => content event (short.subset member)] at folded
    cases folded
  obtain ⟨_, wholeFolded⟩ := readScan_eq_ok.mp accepted
  refine ⟨⟨?_, ?_⟩, ?_⟩
  · rintro ⟨smaller, read⟩
    obtain ⟨faultless, folded⟩ := readScan_eq_ok.mp read
    obtain ⟨inner, shape, inModel⟩ := opens read
    obtain ⟨within, stack⟩ := inside.exists_openAfter_of_prefix inModel [tag.name]
    have nested : openAfter [] (scan beginning.toList).events = some (within ++ [tag.name]) := by
      rw [shape, openAfter_content content]
      exact stack
    refine ⟨faultless, _, nested, ?_, (run_standsIn start_standsIn nested folded).1⟩
    exact List.mem_append_right _ (List.mem_singleton.mpr document.named.symm)
  · rintro ⟨faultless, opened, nested, inModel, classless⟩
    -- The whole document is accepted, so the reader gets through the beginning, and the elements
    -- that are open there say where it stands.
    obtain ⟨more, whole⟩ := begins
    obtain ⟨later, continued⟩ := scan_append_prefix faultless more
    rw [whole] at continued
    rw [← continued, List.foldlM_append] at wholeFolded
    obtain ⟨reader, folded, _⟩ := except_bind_eq_ok.mp wholeFolded
    obtain ⟨smaller, rfl⟩ :=
      eq_outside_of_standsIn (run_standsIn start_standsIn nested folded) inModel classless
    exact ⟨smaller, readScan_eq_ok.mpr ⟨faultless, folded⟩⟩
  · intro single smaller read
    obtain ⟨_, folded⟩ := readScan_eq_ok.mp read
    obtain ⟨inner, shape, missing, same⟩ := opens read
    have continued : (scan text.toList).events =
        (scan beginning.toList).events ++ (missing ++ [.closing tag.name]) := by
      simp only [scanned, shape, Forest.events, ← same, List.append_assoc, List.cons_append]
    rw [continued, List.foldlM_append, folded, except_ok_bind] at wholeFolded
    refine run_classes_prefix (fun event member => ?_) wholeFolded
    rcases List.mem_append.mp member with left | closing
    · exact single event (same ▸ List.mem_append_right _ left)
    · rw [List.mem_singleton.mp closing]
      rfl

/-- A document of two classes and its beginning that stops after the first. -/
def wholeDocument : String := "<model><class name=\"a.A\"/><class name=\"b.B\"/></model>"

def cutDocument : String := "<model><class name=\"a.A\"/>"

theorem read_beginning_iff_cut :
    ∃ smaller model, Document.read wholeDocument = .ok model ∧
      Document.read cutDocument = .ok smaller ∧ StopsBetweenClasses cutDocument ∧
      smaller.classes <+: model.classes ∧ smaller.classes ≠ model.classes := by
  let classTag (name : List Char) : Tag :=
    ⟨"class", Attribute.readAll (" name=\"".toList ++ name ++ "\"".toList)⟩
  let inside : Forest :=
    .selfClosing (classTag "a.A".toList) (.selfClosing (classTag "b.B".toList) .nil)
  have scanned : scan wholeDocument.toList =
      ⟨[] ++ (Forest.element ⟨"model", []⟩ inside .nil).events, none⟩ := by decide +kernel
  have document : IsModelDocument wholeDocument ⟨"model", []⟩ inside := ⟨rfl, [], nofun, scanned⟩
  have begins : cutDocument.toList <+: wholeDocument.toList := by decide +kernel
  have proper : cutDocument ≠ wholeDocument := by decide
  have counts : (Document.read wholeDocument).map ClassModel.size = .ok 9 ∧
      (Document.read cutDocument).map ClassModel.size = .ok 8 := by decide +kernel
  cases accepted : Document.read wholeDocument with
  | error error => simp [accepted, Except.map] at counts
  | ok model =>
    cases read : Document.read cutDocument with
    | error error => simp [read, Except.map] at counts
    | ok smaller =>
      obtain ⟨whenAccepted, kept⟩ := read_beginning_iff document accepted begins proper
      refine ⟨smaller, model, rfl, rfl, whenAccepted.mp ⟨smaller, read⟩,
        kept (by decide +kernel) smaller read, fun same => ?_⟩
      rw [accepted, read] at counts
      simp [Except.map, ClassModel.size, same] at counts
      omega

end Document

end NativePeer
