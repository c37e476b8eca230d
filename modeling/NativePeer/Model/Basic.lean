import NativePeer.Model.Registry

/-
This file holds the class model: all classes of a run in the order of their definition.
-/

namespace NativePeer

/-- No two classes share a qualified name, and the index is in step with the classes. -/
structure ClassModel extends Registry where
  index := Registry.placesOf classes
  distinct : (classes.map ManagedClass.qualifiedName).Nodup
  aligned : index = Registry.placesOf classes := by rfl

namespace ClassModel

theorem sound (model : ClassModel) : model.toRegistry.IsSound :=
  ⟨model.distinct, model.aligned⟩

def ofSound {registry : Registry} (sound : registry.IsSound) : ClassModel where
  toRegistry := registry
  distinct := sound.distinct
  aligned := sound.aligned

def empty : ClassModel := ofSound Registry.empty_sound

def runtime : ClassModel := ofSound Registry.runtime_sound

theorem runtime_classes : runtime.classes =
    runtimeClasses.map fun entry => { ManagedClass.named entry.1 with parent := entry.2 } :=
  rfl

def names (model : ClassModel) : List String :=
  model.classes.map ManagedClass.qualifiedName

def size (model : ClassModel) : Nat :=
  model.classes.length

def taggedClasses (model : ClassModel) : List ManagedClass :=
  model.classes.filter ManagedClass.isTagged

/-- A new class comes last. A name that is taken leaves the model as it is. -/
def add (model : ClassModel) (added : ManagedClass) : Except Duplicate ClassModel :=
  (model.toRegistry.add added).2.map fun _ => ofSound (model.sound.add added)

/-- The first name that is taken ends the additions. -/
def addAll (model : ClassModel) : List ManagedClass → Except Duplicate ClassModel
  | [] => .ok model
  | added :: rest =>
    match model.add added with
    | .error repeated => .error repeated
    | .ok next => next.addAll rest

theorem add_of_fresh (model : ClassModel) {added : ManagedClass}
    (fresh : added.qualifiedName ∉ model.names) :
    ∃ next, model.add added = .ok next ∧ next.classes = model.classes ++ [added] :=
  ⟨ofSound (model.sound.append fresh), by simp [add, model.sound.add_of_fresh fresh, Except.map],
    rfl⟩

theorem add_of_taken {model : ClassModel} {added : ManagedClass}
    (taken : added.qualifiedName ∈ model.names) :
    model.add added = .error (.managedClass added.qualifiedName) := by
  simp [add, model.sound.add_of_taken taken, Except.map]

theorem classes_of_add {model next : ClassModel} {added : ManagedClass}
    (succeeded : model.add added = .ok next) : next.classes = model.classes ++ [added] := by
  by_cases fresh : added.qualifiedName ∉ model.names
  · obtain ⟨longer, accepted, classes⟩ := model.add_of_fresh fresh
    cases accepted.symm.trans succeeded
    exact classes
  · cases (add_of_taken (Decidable.not_not.mp fresh)).symm.trans succeeded

/-- The classes of a model tell the rest of it. -/
theorem eq_of_classes {model other : ClassModel} (same : model.classes = other.classes) :
    model = other := by
  obtain ⟨⟨classes, index⟩, _, aligned⟩ := model
  obtain ⟨⟨others, otherIndex⟩, _, otherAligned⟩ := other
  dsimp only at same aligned otherAligned
  subst same aligned otherAligned
  rfl

theorem mem_of_get? {model : ClassModel} {name : String} {found : ManagedClass}
    (present : model.get? name = some found) : found ∈ model.classes :=
  (model.sound.get?_eq_some.mp present).1

theorem name_of_get? {model : ClassModel} {name : String} {found : ManagedClass}
    (present : model.get? name = some found) : found.qualifiedName = name :=
  (model.sound.get?_eq_some.mp present).2

theorem get?_eq_none {model : ClassModel} {name : String} :
    model.get? name = none ↔ name ∉ model.names :=
  model.sound.get?_eq_none

end ClassModel

end NativePeer
