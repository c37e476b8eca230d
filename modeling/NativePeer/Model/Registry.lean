import NativePeer.Class
import NativePeer.Model.Error

/-
This file keeps classes in the order of their definition, with an index of their names.
-/

namespace NativePeer

/-- The runtime classes with their parents. -/
def ClassModel.runtimeClasses : List (String × Option String) :=
  [(objectClass, none), (stringClass, some objectClass), (classClass, some objectClass),
    (throwableClass, some objectClass), ("java.lang.Exception", some throwableClass),
    ("java.lang.Error", some throwableClass),
    ("java.lang.RuntimeException", some "java.lang.Exception")]

/-- The index leads from a name to the place of its class. The newest entry of a name counts. -/
structure Registry where
  classes : List ManagedClass
  index : List (String × Nat)
  deriving DecidableEq

namespace Registry

def empty : Registry := ⟨[], []⟩

def place? (registry : Registry) (name : String) : Option Nat :=
  registry.index.lookup name

/-- The class is taken from the place that the index gives. -/
def get? (registry : Registry) (name : String) : Option ManagedClass :=
  (registry.place? name).bind fun place => registry.classes[place]?

/-- A class comes last, and its name leads to it from now on. -/
def append (registry : Registry) (added : ManagedClass) : Registry where
  classes := registry.classes ++ [added]
  index := (added.qualifiedName, registry.classes.length) :: registry.index

/-- A call leaves a registry and an answer. A name that is taken is refused. -/
def add (registry : Registry) (added : ManagedClass) : Registry × Except Duplicate Unit :=
  if (registry.place? added.qualifiedName).isSome then
    (registry, .error (.managedClass added.qualifiedName))
  else (registry.append added, .ok ())

/-- A class of the runtime is entered without a look at the names. -/
def seed (registry : Registry) (entry : String × Option String) : Registry :=
  let classes := registry.classes ++ [{ ManagedClass.named entry.1 with parent := entry.2 }]
  { classes, index := (entry.1, classes.length - 1) :: registry.index }

def runtime : Registry := ClassModel.runtimeClasses.foldl seed empty

/-- The names with the places of their classes, the newest first. -/
def placesOf (classes : List ManagedClass) : List (String × Nat) :=
  (classes.zipIdx.map fun entry => (entry.1.qualifiedName, entry.2)).reverse

/-- No two classes share a name, and the index tells where they are. -/
structure IsSound (registry : Registry) : Prop where
  distinct : (registry.classes.map ManagedClass.qualifiedName).Nodup
  aligned : registry.index = placesOf registry.classes

theorem placesOf_concat (classes : List ManagedClass) (added : ManagedClass) :
    placesOf (classes ++ [added]) =
      (added.qualifiedName, classes.length) :: placesOf classes := by
  simp [placesOf, List.zipIdx_append]

theorem mem_placesOf {classes : List ManagedClass} {name : String} {place : Nat} :
    (name, place) ∈ placesOf classes ↔
      (classes.map ManagedClass.qualifiedName)[place]? = some name := by
  simp [placesOf, List.mem_zipIdx_iff_getElem?]

namespace IsSound

variable {registry : Registry} (sound : registry.IsSound)

include sound

theorem place?_eq_none {name : String} :
    registry.place? name = none ↔ name ∉ registry.classes.map ManagedClass.qualifiedName := by
  rw [place?, sound.aligned, List.lookup_eq_none_iff, List.mem_iff_getElem?]
  constructor
  · rintro apart ⟨place, present⟩
    simpa using apart (name, place) (mem_placesOf.mpr present)
  · rintro absent ⟨other, place⟩ member
    rw [bne_iff_ne]
    rintro rfl
    exact absent ⟨place, mem_placesOf.mp member⟩

/-- The index leads to the place where a name stands. -/
theorem place?_eq_some {name : String} {place : Nat} :
    registry.place? name = some place ↔
      (registry.classes.map ManagedClass.qualifiedName)[place]? = some name := by
  have stands {place : Nat} (found : registry.place? name = some place) :
      (registry.classes.map ManagedClass.qualifiedName)[place]? = some name := by
    rw [place?, sound.aligned, List.lookup_eq_some_iff] at found
    obtain ⟨newer, older, shape, _⟩ := found
    exact mem_placesOf.mp (shape ▸ List.mem_append_cons_self)
  constructor
  · exact stands
  · intro present
    cases found : registry.place? name with
    | none => exact absurd (List.mem_of_getElem? present) (sound.place?_eq_none.mp found)
    | some other =>
      obtain ⟨inRange, _⟩ := List.getElem?_eq_some_iff.mp (stands found)
      have same := (List.getElem?_inj inRange sound.distinct).mp ((stands found).trans present.symm)
      rw [same]

/-- A name leads to the one class that has it. -/
theorem get?_eq_some {name : String} {declared : ManagedClass} :
    registry.get? name = some declared ↔
      declared ∈ registry.classes ∧ declared.qualifiedName = name := by
  simp only [get?, Option.bind_eq_some_iff, sound.place?_eq_some, List.getElem?_map]
  constructor
  · rintro ⟨place, present, found⟩
    rw [found] at present
    exact ⟨List.mem_of_getElem? found, Option.some.inj present⟩
  · rintro ⟨member, rfl⟩
    obtain ⟨place, found⟩ := List.mem_iff_getElem?.mp member
    exact ⟨place, by rw [found]; rfl, found⟩

theorem get?_eq_none {name : String} :
    registry.get? name = none ↔ name ∉ registry.classes.map ManagedClass.qualifiedName := by
  rw [Option.eq_none_iff_forall_ne_some]
  simp [sound.get?_eq_some]

/-- A new name keeps the names distinct and the index in step. -/
theorem append {added : ManagedClass}
    (fresh : added.qualifiedName ∉ registry.classes.map ManagedClass.qualifiedName) :
    (registry.append added).IsSound := by
  constructor
  · rw [Registry.append, List.map_append, List.nodup_append]
    refine ⟨sound.distinct, by simp, ?_⟩
    intro name member other single same
    rw [List.map_singleton, List.mem_singleton] at single
    exact fresh (single ▸ same ▸ member)
  · rw [Registry.append, placesOf_concat, sound.aligned]

theorem add_of_fresh {added : ManagedClass}
    (fresh : added.qualifiedName ∉ registry.classes.map ManagedClass.qualifiedName) :
    registry.add added = (registry.append added, .ok ()) := by
  rw [Registry.add, sound.place?_eq_none.mpr fresh]
  rfl

theorem add_of_taken {added : ManagedClass}
    (taken : added.qualifiedName ∈ registry.classes.map ManagedClass.qualifiedName) :
    registry.add added = (registry, .error (.managedClass added.qualifiedName)) := by
  have present : (registry.place? added.qualifiedName).isSome := by
    rw [Option.isSome_iff_ne_none]
    exact fun absent => sound.place?_eq_none.mp absent taken
  rw [Registry.add, if_pos present]

/-- Whatever a call answers, it leaves a sound registry. -/
theorem add (added : ManagedClass) : (registry.add added).1.IsSound := by
  by_cases fresh : added.qualifiedName ∉ registry.classes.map ManagedClass.qualifiedName
  · rw [sound.add_of_fresh fresh]
    exact sound.append fresh
  · rw [sound.add_of_taken (Decidable.not_not.mp fresh)]
    exact sound

end IsSound

theorem empty_sound : empty.IsSound := ⟨List.nodup_nil, rfl⟩

theorem runtime_sound : runtime.IsSound := ⟨by decide, by decide⟩

end Registry

end NativePeer
