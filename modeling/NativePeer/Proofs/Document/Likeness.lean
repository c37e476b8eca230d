import NativePeer.Document.Reader
import NativePeer.Proofs.Computation

/-
This file compares two runs of the reader over the same events. What the reader has built may differ
as long as it answers the same questions.
-/

namespace NativePeer

namespace Document

open Markup

/-- Relations between what two readers have built that every step of a reader keeps. -/
structure Likeness where
  models : ClassModel → ClassModel → Prop
  classes : ManagedClass → ManagedClass → Prop
  methods : Method → Method → Prop
  runtime : models .runtime .runtime
  header : ∀ declared, classes declared declared
  signature : ∀ method, methods method method
  className : ∀ {first second}, classes first second → first.qualifiedName = second.qualifiedName
  methodName : ∀ {first second}, methods first second → first.name = second.name
  add : ∀ {model other first second}, models model other → classes first second →
    Alike models (model.add first) (other.add second)
  addField : ∀ {first second} field, classes first second →
    Alike classes (Document.addField first field) (Document.addField second field)
  addMethod : ∀ {first second method other}, classes first second → methods method other →
    classes (Document.addMethod first method) (Document.addMethod second other)
  addParameter : ∀ {method other} parameter, methods method other →
    Alike methods (Document.addParameter method parameter) (Document.addParameter other parameter)

namespace Likeness

/-- Both readers are at the same place. -/
inductive Readers (like : Likeness) : Reader → Reader → Prop where
  | start : Readers like (.outside none) (.outside none)
  | outside {model other : ClassModel} (models : like.models model other) :
    Readers like (.outside (some model)) (.outside (some other))
  | inClass {model other : ClassModel} {first second : ManagedClass} {depth : Nat}
    (models : like.models model other) (classes : like.classes first second) :
    Readers like (.inClass model first depth) (.inClass other second depth)
  | inMethod {model other : ClassModel} {first second : ManagedClass} {method same : Method}
    {depth : Nat} (models : like.models model other) (classes : like.classes first second)
    (methods : like.methods method same) :
    Readers like (.inMethod model first method depth) (.inMethod other second same depth)

variable {like : Likeness} {model other : ClassModel} {first second : ManagedClass}
  {method same : Method}

theorem addClass_alike (models : like.models model other) (classes : like.classes first second) :
    Alike like.Readers (addClass model first) (addClass other second) := by
  have added := like.add models classes
  unfold addClass
  generalize model.add first = left at added ⊢
  generalize other.add second = right at added ⊢
  cases added with
  | failed repeated => exact .failed _
  | done longer => exact .done (.outside longer)

theorem fieldOf_alike (classes : like.classes first second) (tag : Tag) :
    Alike like.classes (fieldOf first tag) (fieldOf second tag) :=
  (Alike.refl fun _ => rfl).bind fun field _ same => same ▸ like.addField field classes

theorem parameterOf_alike (methods : like.methods method same) (depth : Nat) (tag : Tag) :
    Alike like.methods (parameterOf method depth tag) (parameterOf same depth tag) := by
  unfold parameterOf
  split
  · exact (Alike.refl fun _ => rfl).bind fun parameter _ same =>
      same ▸ like.addParameter parameter methods
  · exact .done methods

theorem classOf_alike (models : like.models model other) (tag : Tag) :
    Alike (fun left right => like.models left.1 right.1 ∧ left.2 = right.2)
      (classOf (some model) tag) (classOf (some other) tag) := by
  unfold classOf
  cases readClass (Attribute.pairs tag.attributes) with
  | error error => exact .failed error
  | ok header => exact .done ⟨models, rfl⟩

theorem stepOutside_alike (models : like.models model other) (event : Event) :
    Alike like.Readers (stepOutside (some model) event) (stepOutside (some other) event) := by
  cases event with
  | opening tag =>
    rw [stepOutside, stepOutside]
    split
    · exact .done (.outside like.runtime)
    · split
      · exact (classOf_alike models tag).bind fun left right both =>
          .done (.inClass both.1 (both.2 ▸ like.header left.2))
      · exact .done (.outside models)
  | selfClosing tag =>
    rw [stepOutside, stepOutside]
    split
    · exact .done (.outside like.runtime)
    · split
      · exact (classOf_alike models tag).bind fun left right both =>
          addClass_alike both.1 (both.2 ▸ like.header left.2)
      · exact .done (.outside models)
  | closing | content => exact .done (.outside models)

/-- Before a model starts there is nothing that differs. -/
theorem stepOutside_none_alike (event : Event) :
    Alike like.Readers (stepOutside none event) (stepOutside none event) := by
  cases event with
  | opening tag | selfClosing tag =>
    rw [stepOutside]
    split
    · exact .done (.outside like.runtime)
    · split
      · exact .failed _
      · exact .done .start
  | closing | content => exact .done .start

theorem stepInClass_alike (models : like.models model other) (classes : like.classes first second)
    (depth : Nat) (event : Event) :
    Alike like.Readers (stepInClass model first depth event)
      (stepInClass other second depth event) := by
  cases event with
  | opening tag =>
    rw [stepInClass, stepInClass]
    split
    · exact (Alike.refl fun _ => rfl).bind fun method _ same =>
        same ▸ .done (.inMethod models classes (like.signature method))
    · split
      · exact (fieldOf_alike classes tag).bind fun _ _ longer => .done (.inClass models longer)
      · exact .done (.inClass models classes)
  | selfClosing tag =>
    rw [stepInClass, stepInClass]
    split
    · exact (Alike.refl fun _ => rfl).bind fun method _ same =>
        same ▸ .done (.inClass models (like.addMethod classes (like.signature method)))
    · split
      · exact (fieldOf_alike classes tag).bind fun _ _ longer => .done (.inClass models longer)
      · exact .done (.inClass models classes)
  | closing =>
    cases depth with
    | zero => exact addClass_alike models classes
    | succ outer => exact .done (.inClass models classes)
  | content => exact .done (.inClass models classes)

theorem stepInMethod_alike (models : like.models model other)
    (classes : like.classes first second) (methods : like.methods method same) (depth : Nat)
    (event : Event) :
    Alike like.Readers (stepInMethod model first method depth event)
      (stepInMethod other second same depth event) := by
  cases event with
  | opening tag | selfClosing tag =>
    exact (parameterOf_alike methods depth tag).bind fun _ _ longer =>
      .done (.inMethod models classes longer)
  | closing =>
    cases depth with
    | zero => exact .done (.inClass models (like.addMethod classes methods))
    | succ outer => exact .done (.inMethod models classes methods)
  | content => exact .done (.inMethod models classes methods)

/-- One event keeps two readers alike. -/
theorem step_alike {reader twin : Reader} (readers : like.Readers reader twin) (event : Event) :
    Alike like.Readers (reader.step event) (twin.step event) := by
  cases readers with
  | start => exact stepOutside_none_alike event
  | outside models => exact stepOutside_alike models event
  | inClass models classes => exact stepInClass_alike models classes _ event
  | inMethod models classes methods => exact stepInMethod_alike models classes methods _ event

theorem run_alike {reader twin : Reader} (readers : like.Readers reader twin)
    (events : List Event) :
    Alike like.Readers (events.foldlM Reader.step reader) (events.foldlM Reader.step twin) := by
  induction events generalizing reader twin with
  | nil => exact .done readers
  | cons event events inductionHypothesis =>
    rw [List.foldlM_cons, List.foldlM_cons]
    exact (step_alike readers event).bind fun _ _ later => inductionHypothesis later

theorem finish_alike {reader twin : Reader} (readers : like.Readers reader twin) :
    Alike like.models reader.finish twin.finish := by
  cases readers with
  | start => exact .failed _
  | outside models => exact .done models
  | inClass models classes =>
    rw [Reader.finish, Reader.finish, like.className classes]
    exact .failed _
  | inMethod models classes methods =>
    rw [Reader.finish, Reader.finish, like.methodName methods]
    exact .failed _

end Likeness

/-- What the rest of a document makes of a reader. -/
def Reader.readRest (reader : Reader) (events : List Event) : Except DocumentError ClassModel := do
  let last ← events.foldlM Reader.step reader
  last.finish

theorem readScan_append {before after : List Event} {reader : Reader}
    (reached : before.foldlM Reader.step (.outside none) = .ok reader) :
    readScan ⟨before ++ after, none⟩ = reader.readRest after := by
  unfold readScan Reader.readRest
  rw [List.foldlM_append, reached, except_ok_bind]

theorem Likeness.readRest_alike {like : Likeness} {reader twin : Reader}
    (readers : like.Readers reader twin) (events : List Event) :
    Alike like.models (reader.readRest events) (twin.readRest events) :=
  (run_alike readers events).bind fun _ _ later => finish_alike later

/-- Equal readers. -/
def Likeness.equal : Likeness where
  models := Eq
  classes := Eq
  methods := Eq
  runtime := rfl
  header _ := rfl
  signature _ := rfl
  className same := by rw [same]
  methodName same := by rw [same]
  add := by
    rintro _ _ _ _ rfl rfl
    exact .refl fun _ => rfl
  addField := by
    rintro _ _ _ rfl
    exact .refl fun _ => rfl
  addMethod := by
    rintro _ _ _ _ rfl rfl
    rfl
  addParameter := by
    rintro _ _ _ rfl
    exact .refl fun _ => rfl

theorem Likeness.eq_of_equal {reader twin : Reader} (readers : Likeness.equal.Readers reader twin) :
    reader = twin := by
  cases readers with
  | start => rfl
  | outside models => cases models; rfl
  | inClass models classes => cases models; cases classes; rfl
  | inMethod models classes methods => cases models; cases classes; cases methods; rfl

end Document

end NativePeer
