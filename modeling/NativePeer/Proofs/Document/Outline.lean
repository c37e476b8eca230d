import Mathlib.Data.List.DropRight
import Mathlib.Data.List.Forall2
import NativePeer.Proofs.Document.Nesting

/-
This file says which class elements of a document become classes of its model.
-/

namespace NativePeer.Document

open Markup

/-- A class element that lies in no other one. `isInside` tells whether it lies in a model. -/
structure ClassElement where
  isInside : Bool
  tag : Tag
  content : Forest
  deriving DecidableEq

def ClassElement.read (element : ClassElement) : Except DocumentError ManagedClass :=
  Forest.declaredBy element.tag element.content

/-- What the reader looks for outside of classes. -/
inductive Mark where
  | start
  | declared (element : ClassElement)
  deriving DecidableEq

def Mark.element? : Mark → Option ClassElement
  | start => none
  | declared element => some element

def Mark.step (start : Option ClassModel) : Mark → Except DocumentError (Option ClassModel)
  | .start => .ok (some .runtime)
  | declared element => Forest.addTo start element.tag element.content

namespace Forest

def startsOf (tag : Tag) : List Mark :=
  if tag.name = "model" then [.start] else []

/-- The marks of a document in their order. A class element is one mark with all that is in it. -/
def outline : Forest → Bool → List Mark
  | nil, _ => []
  | content rest, inside => rest.outline inside
  | selfClosing tag rest, inside =>
    if tag.name = "class" then .declared ⟨inside, tag, nil⟩ :: rest.outline inside
    else startsOf tag ++ rest.outline inside
  | element tag children rest, inside =>
    if tag.name = "class" then .declared ⟨inside, tag, children⟩ :: rest.outline inside
    else startsOf tag ++ (children.outline (inside || tag.name = "model") ++ rest.outline inside)

theorem foldlM_startsOf (start : Option ClassModel) (tag : Tag) :
    (startsOf tag).foldlM Mark.step start = .ok (startedBy start tag) := by
  unfold startsOf startedBy
  split <;> rfl

/-- The model depends on the marks alone, whether or not they lie in a model. -/
theorem model_eq_foldlM_outline (forest : Forest) (inside : Bool) (start : Option ClassModel) :
    forest.model start = (forest.outline inside).foldlM Mark.step start := by
  induction forest generalizing inside start with
  | nil => rfl
  | content rest inductionHypothesis => exact inductionHypothesis inside start
  | selfClosing tag rest inductionHypothesis =>
    rw [model, outline]
    by_cases isClass : tag.name = "class"
    · rw [if_pos isClass, if_pos isClass, List.foldlM_cons]
      congr 1
      funext next
      exact inductionHypothesis inside next
    · rw [if_neg isClass, if_neg isClass, List.foldlM_append, foldlM_startsOf, except_ok_bind]
      exact inductionHypothesis inside _
  | element tag children rest childrenHypothesis restHypothesis =>
    rw [model, outline]
    by_cases isClass : tag.name = "class"
    · rw [if_pos isClass, if_pos isClass, List.foldlM_cons]
      congr 1
      funext next
      exact restHypothesis inside next
    · rw [if_neg isClass, if_neg isClass, List.foldlM_append, foldlM_startsOf, except_ok_bind,
        List.foldlM_append, ← childrenHypothesis]
      congr 1
      funext next
      exact restHypothesis inside next

end Forest

def elementsOf (marks : List Mark) : List ClassElement :=
  marks.filterMap Mark.element?

/-- The class elements after the last start of a model. -/
def lastElements (marks : List Mark) : List ClassElement :=
  elementsOf (marks.rtakeWhile fun mark => mark.element?.isSome)

theorem lastElements_start (marks : List Mark) : lastElements (marks ++ [.start]) = [] := by
  rw [lastElements, List.rtakeWhile_concat_neg _ _ _ (by decide)]
  rfl

theorem lastElements_declared (marks : List Mark) (element : ClassElement) :
    lastElements (marks ++ [.declared element]) = lastElements marks ++ [element] := by
  rw [lastElements, List.rtakeWhile_concat_pos _ _ _ rfl, elementsOf, List.filterMap_append]
  rfl

theorem lastElements_suffix (marks : List Mark) : lastElements marks <:+ elementsOf marks :=
  (List.rtakeWhile_suffix _ marks).filterMap _

/-- A model holds the runtime classes and those of the elements after its start. -/
structure Holds (marks : List Mark) (model : ClassModel) (declared : List ManagedClass) : Prop where
  begun : marks.head? = some .start
  classes : model.classes = ClassModel.runtime.classes ++ declared
  read : List.Forall₂ (fun element declared => element.read = .ok declared) (lastElements marks)
    declared

/-- One mark starts the model again or adds its class. -/
theorem Holds.step {marks : List Mark} {model : ClassModel} {declared : List ManagedClass}
    (holds : Holds marks model declared) {mark : Mark} {final : Option ClassModel}
    (stepped : mark.step (some model) = .ok final) :
    ∃ next classes, final = some next ∧ Holds (marks ++ [mark]) next classes := by
  have begun : (marks ++ [mark]).head? = some .start := by
    rw [List.head?_append, holds.begun]
    rfl
  cases mark with
  | start =>
    cases stepped
    refine ⟨.runtime, [], rfl, begun, (List.append_nil _).symm, ?_⟩
    rw [lastElements_start]
    exact .nil
  | declared element =>
    obtain ⟨added, read, stepped⟩ := except_bind_eq_ok.mp stepped
    obtain ⟨next, succeeded, same⟩ := except_bind_eq_ok.mp stepped
    cases same
    refine ⟨next, declared ++ [added], rfl, begun, ?_, ?_⟩
    · rw [ClassModel.classes_of_add (mapError_eq_ok.mp succeeded), holds.classes, List.append_assoc]
    · rw [lastElements_declared]
      exact List.rel_append holds.read (.cons read .nil)

/-- Nothing is read before the first start of a model. -/
theorem holds_of_foldlM {marks : List Mark} {final : Option ClassModel}
    (succeeded : marks.foldlM Mark.step none = .ok final) :
    (marks = [] ∧ final = none) ∨
      ∃ model declared, final = some model ∧ Holds marks model declared := by
  induction marks using List.reverseRecOn generalizing final with
  | nil =>
    cases succeeded
    exact .inl ⟨rfl, rfl⟩
  | append_singleton marks mark inductionHypothesis =>
    rw [List.foldlM_append] at succeeded
    obtain ⟨middle, earlier, stepped⟩ := except_bind_eq_ok.mp succeeded
    rw [List.foldlM_cons] at stepped
    obtain ⟨last, stepped, same⟩ := except_bind_eq_ok.mp stepped
    cases same
    rcases inductionHypothesis earlier with ⟨rfl, rfl⟩ | ⟨model, declared, rfl, holds⟩
    · cases mark with
      | start =>
        cases stepped
        exact .inr ⟨.runtime, [], rfl, rfl, (List.append_nil _).symm, .nil⟩
      | declared element => cases stepped
    · exact .inr (holds.step stepped)

/-- The classes are those of all class elements that lie in a model, and no others are in the
document. -/
structure IsFaithful (marks : List Mark) (declared : List ManagedClass) : Prop where
  read : List.Forall₂ (fun element declared => element.read = .ok declared)
    ((elementsOf marks).filter ClassElement.isInside) declared
  inside : ∀ element ∈ elementsOf marks, element.isInside = true

/-- The reader is faithful exactly if no model starts after a class and every class element lies in
a model. -/
theorem Holds.isFaithful_iff {marks : List Mark} {model : ClassModel}
    {declared : List ManagedClass} (holds : Holds marks model declared) :
    IsFaithful marks declared ↔ lastElements marks = elementsOf marks ∧
      ∀ element ∈ elementsOf marks, element.isInside = true := by
  constructor
  · intro faithful
    have every := faithful.read
    rw [List.filter_eq_self.mpr faithful.inside] at every
    refine ⟨(lastElements_suffix marks).eq_of_length ?_, faithful.inside⟩
    rw [holds.read.length_eq, every.length_eq]
  · intro parts
    refine ⟨?_, parts.2⟩
    rw [List.filter_eq_self.mpr parts.2, ← parts.1]
    exact holds.read

/-- The model of a well-formed document holds the runtime classes and those of the class elements
after the last start of a model. -/
theorem read_classes {text : String} {model : ClassModel} (wellFormed : IsWellFormed text)
    (succeeded : Document.read text = .ok model) :
    ∃ forest : Forest, scan text.toList = ⟨forest.events, none⟩ ∧
      ∃ declared, Holds (forest.outline false) model declared ∧
        (IsFaithful (forest.outline false) declared ↔
          lastElements (forest.outline false) = elementsOf (forest.outline false) ∧
            ∀ element ∈ elementsOf (forest.outline false), element.isInside = true) := by
  obtain ⟨forest, scanned⟩ := isWellFormed_iff.mp wellFormed
  refine ⟨forest, scanned, ?_⟩
  rw [read_eq_of_forest scanned, Forest.read] at succeeded
  obtain ⟨final, found, finished⟩ := except_bind_eq_ok.mp succeeded
  rw [Forest.model_eq_foldlM_outline forest false] at found
  rcases holds_of_foldlM found with ⟨_, rfl⟩ | ⟨started, declared, rfl, holds⟩
  · cases finished
  · cases finished
    exact ⟨declared, holds, holds.isFaithful_iff⟩

/-- In this document a class stands after the end of the model. -/
def trailingDocument : String := "<r><model/><class name=\"a.A\"/></r>"

theorem read_classes_trailing :
    IsWellFormed trailingDocument ∧ ∃ model, Document.read trailingDocument = .ok model ∧
      ∃ forest : Forest, scan trailingDocument.toList = ⟨forest.events, none⟩ ∧
        ∃ declared, Holds (forest.outline false) model declared ∧
          ¬ IsFaithful (forest.outline false) declared := by
  let forest : Forest :=
    .element ⟨"r", []⟩
      (.selfClosing ⟨"model", []⟩
        (.selfClosing ⟨"class", Attribute.readAll " name=\"a.A\"".toList⟩ .nil)) .nil
  have scanned : scan trailingDocument.toList = ⟨forest.events, none⟩ := by decide +kernel
  have wellFormed : IsWellFormed trailingDocument := isWellFormed_iff.mpr ⟨forest, scanned⟩
  have read : (Document.read trailingDocument).toOption.isSome = true := by decide +kernel
  cases succeeded : Document.read trailingDocument with
  | error error => simp [succeeded, Except.toOption] at read
  | ok model =>
    obtain ⟨other, sameScan, declared, holds, _⟩ := read_classes wellFormed succeeded
    refine ⟨wellFormed, model, rfl, other, sameScan, declared, holds, fun faithful => ?_⟩
    have same : other = forest := by
      apply Forest.events_injective
      rw [scanned] at sameScan
      exact (Scan.mk.inj sameScan).1.symm
    rw [same] at faithful
    exact absurd faithful.inside (by decide)

end NativePeer.Document
