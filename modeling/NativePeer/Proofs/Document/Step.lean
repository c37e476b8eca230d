import NativePeer.Document.Reader
import NativePeer.Proofs.Computation

/-
This file lists what one event can do to a reader.
-/

namespace NativePeer.Document

open Markup

/-- One case for each way in which a step succeeds. -/
inductive Reader.Moves : Reader → Event → Reader → Prop where
  | pass (reader : Reader) : Moves reader .content reader
  | startModel {start : Option ClassModel} {tag : Tag} (named : tag.name = "model") :
    Moves (.outside start) (.opening tag) (.outside (some .runtime))
  | startEmptyModel {start : Option ClassModel} {tag : Tag} (named : tag.name = "model") :
    Moves (.outside start) (.selfClosing tag) (.outside (some .runtime))
  | startClass {model : ClassModel} {tag : Tag} {current : ManagedClass}
    (named : tag.name = "class") (read : readClass (Attribute.pairs tag.attributes) = .ok current) :
    Moves (.outside (some model)) (.opening tag) (.inClass model current 0)
  | emptyClass {model longer : ClassModel} {tag : Tag} {current : ManagedClass}
    (named : tag.name = "class") (read : readClass (Attribute.pairs tag.attributes) = .ok current)
    (added : model.add current = .ok longer) :
    Moves (.outside (some model)) (.selfClosing tag) (.outside (some longer))
  | enterOutside {start : Option ClassModel} {tag : Tag} (noModel : tag.name ≠ "model")
    (noClass : tag.name ≠ "class") : Moves (.outside start) (.opening tag) (.outside start)
  | skipOutside {start : Option ClassModel} {tag : Tag} (noModel : tag.name ≠ "model")
    (noClass : tag.name ≠ "class") : Moves (.outside start) (.selfClosing tag) (.outside start)
  | leaveOutside (start : Option ClassModel) (name : String) :
    Moves (.outside start) (.closing name) (.outside start)
  | startMethod {model : ClassModel} {current : ManagedClass} {tag : Tag} {method : Method}
    (named : tag.name = "method")
    (read : readMethod (Attribute.pairs tag.attributes) = .ok method) :
    Moves (.inClass model current 0) (.opening tag) (.inMethod model current method 0)
  | emptyMethod {model : ClassModel} {current : ManagedClass} {tag : Tag} {method : Method}
    (named : tag.name = "method")
    (read : readMethod (Attribute.pairs tag.attributes) = .ok method) :
    Moves (.inClass model current 0) (.selfClosing tag)
      (.inClass model (addMethod current method) 0)
  | startField {model : ClassModel} {current longer : ManagedClass} {tag : Tag}
    (named : tag.name = "field") (read : fieldOf current tag = .ok longer) :
    Moves (.inClass model current 0) (.opening tag) (.inClass model longer 1)
  | emptyField {model : ClassModel} {current longer : ManagedClass} {tag : Tag}
    (named : tag.name = "field") (read : fieldOf current tag = .ok longer) :
    Moves (.inClass model current 0) (.selfClosing tag) (.inClass model longer 0)
  | enterInClass {model : ClassModel} {current : ManagedClass} {depth : Nat} {tag : Tag}
    (noMethod : ¬ (depth = 0 ∧ tag.name = "method"))
    (noField : ¬ (depth = 0 ∧ tag.name = "field")) :
    Moves (.inClass model current depth) (.opening tag) (.inClass model current (depth + 1))
  | skipInClass {model : ClassModel} {current : ManagedClass} {depth : Nat} {tag : Tag}
    (noMethod : ¬ (depth = 0 ∧ tag.name = "method"))
    (noField : ¬ (depth = 0 ∧ tag.name = "field")) :
    Moves (.inClass model current depth) (.selfClosing tag) (.inClass model current depth)
  | endClass {model longer : ClassModel} {current : ManagedClass} (name : String)
    (added : model.add current = .ok longer) :
    Moves (.inClass model current 0) (.closing name) (.outside (some longer))
  | leaveInClass (model : ClassModel) (current : ManagedClass) (depth : Nat) (name : String) :
    Moves (.inClass model current (depth + 1)) (.closing name) (.inClass model current depth)
  | enterInMethod {model : ClassModel} {current : ManagedClass} {method longer : Method}
    {depth : Nat} {tag : Tag} (read : parameterOf method depth tag = .ok longer) :
    Moves (.inMethod model current method depth) (.opening tag)
      (.inMethod model current longer (depth + 1))
  | skipInMethod {model : ClassModel} {current : ManagedClass} {method longer : Method}
    {depth : Nat} {tag : Tag} (read : parameterOf method depth tag = .ok longer) :
    Moves (.inMethod model current method depth) (.selfClosing tag)
      (.inMethod model current longer depth)
  | endMethod (model : ClassModel) (current : ManagedClass) (method : Method) (name : String) :
    Moves (.inMethod model current method 0) (.closing name)
      (.inClass model (addMethod current method) 0)
  | leaveInMethod (model : ClassModel) (current : ManagedClass) (method : Method) (depth : Nat)
    (name : String) :
    Moves (.inMethod model current method (depth + 1)) (.closing name)
      (.inMethod model current method depth)

variable {event : Event} {next : Reader}

theorem addClass_eq_ok {model : ClassModel} {current : ManagedClass}
    (added : addClass model current = .ok next) :
    ∃ longer, model.add current = .ok longer ∧ next = .outside (some longer) := by
  unfold addClass at added
  split at added
  · cases added
  · next longer found =>
    cases added
    exact ⟨longer, found, rfl⟩

theorem classOf_eq_ok {start : Option ClassModel} {tag : Tag} {model : ClassModel}
    {current : ManagedClass} (read : classOf start tag = .ok (model, current)) :
    start = some model ∧ readClass (Attribute.pairs tag.attributes) = .ok current := by
  cases start with
  | none => cases read
  | some started =>
    obtain ⟨declared, found, same⟩ := except_map_eq_ok.mp read
    cases same
    exact ⟨rfl, found⟩

theorem moves_of_stepOutside {start : Option ClassModel}
    (stepped : stepOutside start event = .ok next) : (Reader.outside start).Moves event next := by
  cases event with
  | opening tag =>
    rw [stepOutside] at stepped
    split at stepped
    · next isModel =>
      cases stepped
      exact .startModel isModel
    · next noModel =>
      split at stepped
      · next isClass =>
        obtain ⟨⟨model, current⟩, read, same⟩ := except_bind_eq_ok.mp stepped
        cases same
        obtain ⟨rfl, found⟩ := classOf_eq_ok read
        exact .startClass isClass found
      · next noClass =>
        cases stepped
        exact .enterOutside noModel noClass
  | selfClosing tag =>
    rw [stepOutside] at stepped
    split at stepped
    · next isModel =>
      cases stepped
      exact .startEmptyModel isModel
    · next noModel =>
      split at stepped
      · next isClass =>
        obtain ⟨⟨model, current⟩, read, rest⟩ := except_bind_eq_ok.mp stepped
        obtain ⟨rfl, found⟩ := classOf_eq_ok read
        obtain ⟨longer, added, rfl⟩ := addClass_eq_ok rest
        exact .emptyClass isClass found added
      · next noClass =>
        cases stepped
        exact .skipOutside noModel noClass
  | closing name =>
    cases stepped
    exact .leaveOutside start name
  | content =>
    cases stepped
    exact .pass _

theorem moves_of_stepInClass {model : ClassModel} {current : ManagedClass} {depth : Nat}
    (stepped : stepInClass model current depth event = .ok next) :
    (Reader.inClass model current depth).Moves event next := by
  cases event with
  | opening tag =>
    rw [stepInClass] at stepped
    split at stepped
    · next isMethod =>
      obtain ⟨rfl, named⟩ := isMethod
      obtain ⟨method, read, same⟩ := except_bind_eq_ok.mp stepped
      cases same
      exact .startMethod named read
    · next noMethod =>
      split at stepped
      · next isField =>
        obtain ⟨rfl, named⟩ := isField
        obtain ⟨longer, read, same⟩ := except_bind_eq_ok.mp stepped
        cases same
        exact .startField named read
      · next noField =>
        cases stepped
        exact .enterInClass noMethod noField
  | selfClosing tag =>
    rw [stepInClass] at stepped
    split at stepped
    · next isMethod =>
      obtain ⟨rfl, named⟩ := isMethod
      obtain ⟨method, read, same⟩ := except_bind_eq_ok.mp stepped
      cases same
      exact .emptyMethod named read
    · next noMethod =>
      split at stepped
      · next isField =>
        obtain ⟨rfl, named⟩ := isField
        obtain ⟨longer, read, same⟩ := except_bind_eq_ok.mp stepped
        cases same
        exact .emptyField named read
      · next noField =>
        cases stepped
        exact .skipInClass noMethod noField
  | closing name =>
    cases depth with
    | zero =>
      obtain ⟨longer, added, rfl⟩ := addClass_eq_ok stepped
      exact .endClass name added
    | succ outer =>
      cases stepped
      exact .leaveInClass model current outer name
  | content =>
    cases stepped
    exact .pass _

theorem moves_of_stepInMethod {model : ClassModel} {current : ManagedClass} {method : Method}
    {depth : Nat} (stepped : stepInMethod model current method depth event = .ok next) :
    (Reader.inMethod model current method depth).Moves event next := by
  cases event with
  | opening tag =>
    obtain ⟨longer, read, same⟩ := except_bind_eq_ok.mp stepped
    cases same
    exact .enterInMethod read
  | selfClosing tag =>
    obtain ⟨longer, read, same⟩ := except_bind_eq_ok.mp stepped
    cases same
    exact .skipInMethod read
  | closing name =>
    cases depth with
    | zero =>
      cases stepped
      exact .endMethod model current method name
    | succ outer =>
      cases stepped
      exact .leaveInMethod model current method outer name
  | content =>
    cases stepped
    exact .pass _

theorem step_of_moves {reader : Reader} (moves : reader.Moves event next) :
    reader.step event = .ok next := by
  cases moves with
  | pass => cases next <;> rfl
  | startModel named | startEmptyModel named => exact if_pos named
  | startClass named read =>
    have noModel : "class" ≠ "model" := by decide
    rw [Reader.step, stepOutside, named, if_neg noModel, if_pos rfl, classOf, read]
    rfl
  | emptyClass named read added =>
    have noModel : "class" ≠ "model" := by decide
    rw [Reader.step, stepOutside, named, if_neg noModel, if_pos rfl, classOf, read]
    change addClass _ _ = _
    rw [addClass, added]
  | enterOutside noModel noClass | skipOutside noModel noClass =>
    rw [Reader.step, stepOutside, if_neg noModel, if_neg noClass]
  | startMethod named read | emptyMethod named read =>
    rw [Reader.step, stepInClass, if_pos ⟨rfl, named⟩, read]
    rfl
  | startField named read | emptyField named read =>
    have noMethod : ¬ ((0 : Nat) = 0 ∧ "field" = "method") := by decide
    rw [Reader.step, stepInClass, named, if_neg noMethod, if_pos ⟨rfl, rfl⟩, read]
    rfl
  | enterInClass noMethod noField | skipInClass noMethod noField =>
    rw [Reader.step, stepInClass, if_neg noMethod, if_neg noField]
  | endClass name added =>
    change addClass _ _ = _
    rw [addClass, added]
  | enterInMethod read | skipInMethod read =>
    rw [Reader.step, stepInMethod, read]
    rfl
  | leaveOutside | leaveInClass | endMethod | leaveInMethod => rfl

/-- The steps that succeed are the moves. -/
theorem step_eq_ok {reader : Reader} : reader.step event = .ok next ↔ reader.Moves event next := by
  constructor
  · intro stepped
    cases reader with
    | outside start => exact moves_of_stepOutside stepped
    | inClass model current depth => exact moves_of_stepInClass stepped
    | inMethod model current method depth => exact moves_of_stepInMethod stepped
  · exact step_of_moves

end NativePeer.Document
