import NativePeer.Model.Basic

/-
This file follows the parents of a class up to its root.
-/

namespace NativePeer.ClassModel

def parentOf (model : ClassModel) (declared : ManagedClass) :
    Except ModelError (Option ManagedClass) :=
  match declared.parent with
  | none => .ok none
  | some name =>
    match model.get? name with
    | none => .error (.unknownClass name)
    | some parent => .ok (some parent)

/-- The number of classes that a walk has not yet met. -/
def unmet (model : ClassModel) (met : List String) : Nat :=
  (model.names.filter (· ∉ met)).length

theorem parentOf_mem {model : ClassModel} {declared parent : ManagedClass}
    (found : model.parentOf declared = .ok (some parent)) : parent ∈ model.classes := by
  unfold parentOf at found
  split at found
  · cases found
  · split at found
    · cases found
    · next present =>
      cases found
      exact mem_of_get? present

theorem unmet_append_lt {model : ClassModel} {met : List String} {name : String}
    (member : name ∈ model.names) (fresh : name ∉ met) :
    model.unmet (met ++ [name]) < model.unmet met := by
  have smaller : model.names.filter (· ∉ met ++ [name]) =
      (model.names.filter (· ∉ met)).filter (· ≠ name) := by
    rw [List.filter_filter]
    apply List.filter_congr
    intro other _
    simp [and_comm]
  rw [unmet, unmet, smaller]
  apply List.length_filter_lt_length_iff_exists.mpr
  exact ⟨name, by simp [member, fresh], by simp⟩

/-- The walk goes on from `current` and has met the names in `met`, its own among them. -/
def walk (model : ClassModel) (met : List String) (current : ManagedClass) :
    Except ModelError (List ManagedClass) :=
  match _ : model.parentOf current with
  | .error error => .error error
  | .ok none => .ok [current]
  | .ok (some parent) =>
    if _ : parent.qualifiedName ∈ met then
      .error (.circularInheritance (met ++ [parent.qualifiedName]))
    else
      match walk model (met ++ [parent.qualifiedName]) parent with
      | .error error => .error error
      | .ok chain => .ok (current :: chain)
termination_by model.unmet met
decreasing_by
  exact unmet_append_lt (List.mem_map_of_mem (parentOf_mem ‹_›)) ‹_›

/-- The class itself comes first and its root last. -/
def ancestry (model : ClassModel) (declared : ManagedClass) :
    Except ModelError (List ManagedClass) :=
  model.walk [declared.qualifiedName] declared

/-- A name outside the model is related to itself alone. -/
def isSubclassOf (model : ClassModel) (name ancestor : String) : Except ModelError Bool :=
  if name = ancestor then .ok true
  else match model.get? name with
    | none => .ok false
    | some declared =>
      (model.ancestry declared).map fun chain =>
        chain.any fun member => member.qualifiedName = ancestor

/-- All fields of a class with the inherited ones, the root's first. -/
def flattenFields (model : ClassModel) (declared : ManagedClass) :
    Except ModelError (List Field) :=
  (model.ancestry declared).map fun chain => chain.reverse.flatMap ManagedClass.fields

end NativePeer.ClassModel
