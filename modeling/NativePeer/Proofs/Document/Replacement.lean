import NativePeer.Proofs.Document.Likeness

/-
This file compares two readers that meet different tags of one name.
-/

namespace NativePeer

/-- The second computation succeeds whenever the first one does, with a value that is related. -/
def Follows {E A B : Type} (related : A → B → Prop) (first : Except E A) (second : Except E B) :
    Prop :=
  ∀ value, first = .ok value → ∃ other, second = .ok other ∧ related value other

namespace Follows

variable {E A B C D : Type} {related : A → B → Prop} {later : C → D → Prop}
  {first : Except E A} {second : Except E B}

theorem failed (error : E) : Follows related (.error error) second := nofun

theorem done {value : A} {other : B} (same : related value other) :
    Follows (E := E) related (.ok value) (.ok other) := by
  rintro _ ⟨⟩
  exact ⟨other, rfl, same⟩

theorem bind (follows : Follows related first second) {next : A → Except E C}
    {other : B → Except E D}
    (continued : ∀ value same, related value same → Follows later (next value) (other same)) :
    Follows later (first >>= next) (second >>= other) := by
  intro last succeeded
  obtain ⟨value, found, rest⟩ := except_bind_eq_ok.mp succeeded
  obtain ⟨same, alsoFound, both⟩ := follows value found
  rw [alsoFound]
  exact continued value same both last rest

theorem map (follows : Follows related first second) {change : A → C} {other : B → D}
    (kept : ∀ value same, related value same → later (change value) (other same)) :
    Follows later (first.map change) (second.map other) := by
  rintro last succeeded
  cases found : first with
  | error error =>
    rw [found] at succeeded
    cases succeeded
  | ok value =>
    rw [found] at succeeded
    cases succeeded
    obtain ⟨same, alsoFound, both⟩ := follows value found
    rw [alsoFound]
    exact ⟨_, rfl, kept value same both⟩

end Follows

theorem Alike.follows {E A B : Type} {related : A → B → Prop} {first : Except E A}
    {second : Except E B} (alike : Alike related first second) : Follows related first second := by
  cases alike with
  | failed error => exact .failed error
  | done same => exact .done same

namespace Document

open Markup

/-- The event of a tag that may close itself. -/
def tagEvent (closes : Bool) (tag : Tag) : Event :=
  match closes with
  | false => .opening tag
  | true => .selfClosing tag

namespace Likeness

/-- What is read from the first tag can be read from the second one, with something alike. -/
structure Tags (like : Likeness) (tag other : Tag) : Prop where
  name : other.name = tag.name
  ofClass : tag.name = "class" →
    Follows like.classes (readClass (Attribute.pairs tag.attributes))
      (readClass (Attribute.pairs other.attributes))
  ofField : tag.name = "field" → ∀ current,
    Follows like.classes (fieldOf current tag) (fieldOf current other)
  ofMethod : tag.name = "method" →
    Follows like.methods (readMethod (Attribute.pairs tag.attributes))
      (readMethod (Attribute.pairs other.attributes))
  ofParameter : tag.name = "param" → ∀ method,
    Follows like.methods (parameterOf method 0 tag) (parameterOf method 0 other)

variable {like : Likeness} {tag other : Tag}

theorem Readers.refl (models : ∀ model, like.models model model) (reader : Reader) :
    like.Readers reader reader := by
  cases reader with
  | outside start =>
    cases start with
    | none => exact .start
    | some model => exact .outside (models model)
  | inClass model current => exact .inClass (models model) (like.header current)
  | inMethod model current method =>
    exact .inMethod (models model) (like.header current) (like.signature method)

theorem classOf_follows (tags : like.Tags tag other) (isClass : tag.name = "class")
    (start : Option ClassModel) :
    Follows (fun left right => left.1 = right.1 ∧ like.classes left.2 right.2)
      (classOf start tag) (classOf start other) := by
  cases start with
  | none => exact .failed _
  | some model => exact (tags.ofClass isClass).map fun _ _ alike => ⟨rfl, alike⟩

theorem stepOutside_follows (models : ∀ model, like.models model model)
    (tags : like.Tags tag other) (start : Option ClassModel) (closes : Bool) :
    Follows like.Readers (stepOutside start (tagEvent closes tag))
      (stepOutside start (tagEvent closes other)) := by
  cases closes with
  | false =>
    rw [tagEvent, tagEvent, stepOutside, stepOutside, tags.name]
    split
    · exact .done (.outside like.runtime)
    · split
      · next isClass =>
        refine (classOf_follows tags isClass start).bind fun left right both => ?_
        exact .done (.inClass (both.1 ▸ models left.1) both.2)
      · exact .done (Readers.refl models _)
  | true =>
    rw [tagEvent, tagEvent, stepOutside, stepOutside, tags.name]
    split
    · exact .done (.outside like.runtime)
    · split
      · next isClass =>
        refine (classOf_follows tags isClass start).bind fun left right both => ?_
        exact (addClass_alike (both.1 ▸ models left.1) both.2).follows
      · exact .done (Readers.refl models _)

theorem stepInClass_follows (models : ∀ model, like.models model model)
    (tags : like.Tags tag other) (model : ClassModel) (current : ManagedClass) (depth : Nat)
    (closes : Bool) :
    Follows like.Readers (stepInClass model current depth (tagEvent closes tag))
      (stepInClass model current depth (tagEvent closes other)) := by
  cases closes with
  | false =>
    rw [tagEvent, tagEvent, stepInClass, stepInClass, tags.name]
    split
    · next isMethod =>
      refine (tags.ofMethod isMethod.2).bind fun method same alike => ?_
      exact .done (.inMethod (models model) (like.header current) alike)
    · split
      · next isField =>
        refine (tags.ofField isField.2 current).bind fun longer same alike => ?_
        exact .done (.inClass (models model) alike)
      · exact .done (Readers.refl models _)
  | true =>
    rw [tagEvent, tagEvent, stepInClass, stepInClass, tags.name]
    split
    · next isMethod =>
      refine (tags.ofMethod isMethod.2).bind fun method same alike => ?_
      exact .done (.inClass (models model) (like.addMethod (like.header current) alike))
    · split
      · next isField =>
        refine (tags.ofField isField.2 current).bind fun longer same alike => ?_
        exact .done (.inClass (models model) alike)
      · exact .done (Readers.refl models _)

theorem parameterOf_follows (tags : like.Tags tag other) (method : Method) (depth : Nat) :
    Follows like.methods (parameterOf method depth tag) (parameterOf method depth other) := by
  by_cases both : depth = 0 ∧ tag.name = "param"
  · obtain ⟨rfl, isParameter⟩ := both
    exact tags.ofParameter isParameter method
  · rw [parameterOf, parameterOf, tags.name, if_neg both, if_neg both]
    exact .done (like.signature method)

theorem stepInMethod_follows (models : ∀ model, like.models model model)
    (tags : like.Tags tag other) (model : ClassModel) (current : ManagedClass) (method : Method)
    (depth : Nat) (closes : Bool) :
    Follows like.Readers (stepInMethod model current method depth (tagEvent closes tag))
      (stepInMethod model current method depth (tagEvent closes other)) := by
  cases closes with
  | false | true =>
    exact (parameterOf_follows tags method depth).bind fun _ _ alike =>
      .done (.inMethod (models model) (like.header current) alike)

/-- Wherever the reader is, it is alike after both tags. -/
theorem step_follows (models : ∀ model, like.models model model) (tags : like.Tags tag other)
    (reader : Reader) (closes : Bool) :
    Follows like.Readers (reader.step (tagEvent closes tag))
      (reader.step (tagEvent closes other)) := by
  cases reader with
  | outside start => exact stepOutside_follows models tags start closes
  | inClass model current depth =>
    exact stepInClass_follows models tags model current depth closes
  | inMethod model current method depth =>
    exact stepInMethod_follows models tags model current method depth closes

/-- A document in which one tag is replaced is read alike. -/
theorem readRest_follows (models : ∀ model, like.models model model) (tags : like.Tags tag other)
    (reader : Reader) (closes : Bool) (after : List Event) :
    Follows like.models (reader.readRest (tagEvent closes tag :: after))
      (reader.readRest (tagEvent closes other :: after)) := by
  rw [Reader.readRest, Reader.readRest, List.foldlM_cons, List.foldlM_cons]
  simp only [bind_assoc]
  exact (step_follows models tags reader closes).bind fun _ _ readers =>
    (readRest_alike readers after).follows

end Likeness

end Document

end NativePeer
