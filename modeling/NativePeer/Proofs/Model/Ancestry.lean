import NativePeer.Model.Validation

/-
This file says what the parent of a class is and how the walk to its root goes on.
-/

namespace NativePeer.ClassModel

variable {model : ClassModel} {declared parent : ManagedClass}

theorem parentOf_eq_none : model.parentOf declared = .ok none ↔ declared.parent = none := by
  unfold parentOf
  cases declared.parent with
  | none => simp
  | some name => cases found : model.get? name <;> simp [found]

theorem parentOf_eq_some :
    model.parentOf declared = .ok (some parent) ↔
      parent ∈ model.classes ∧ declared.parent = some parent.qualifiedName := by
  unfold parentOf
  cases declared.parent with
  | none => simp
  | some name =>
    cases found : model.get? name with
    | none =>
      have absent := get?_eq_none.mp found
      simp only [found, reduceCtorEq, Option.some.injEq, false_iff, not_and]
      rintro member rfl
      exact absent (List.mem_map_of_mem member)
    | some other =>
      simp only [found, Except.ok.injEq, Option.some.injEq]
      constructor
      · rintro rfl
        exact ⟨mem_of_get? found, (name_of_get? found).symm⟩
      · rintro ⟨member, rfl⟩
        exact Option.some.inj (found.symm.trans (model.sound.get?_eq_some.mpr ⟨member, rfl⟩))

theorem parentOf_eq_error {error : ModelError} :
    model.parentOf declared = .error error ↔
      ∃ name, declared.parent = some name ∧ name ∉ model.names ∧ error = .unknownClass name := by
  unfold parentOf
  cases declared.parent with
  | none => simp
  | some name =>
    cases found : model.get? name with
    | none => simp [found, get?_eq_none.mp found, eq_comm]
    | some other =>
      have present : name ∈ model.names := Decidable.not_not.mp fun absent =>
        nomatch found.symm.trans (get?_eq_none.mpr absent)
      simp [found, present]

/-- A walk goes on from the parent, and a name that comes again ends it. -/
theorem walk_eq (met : List String) (current : ManagedClass) :
    model.walk met current =
      match model.parentOf current with
      | .error error => .error error
      | .ok none => .ok [current]
      | .ok (some parent) =>
        if parent.qualifiedName ∈ met then
          .error (.circularInheritance (met ++ [parent.qualifiedName]))
        else (model.walk (met ++ [parent.qualifiedName]) parent).map (current :: ·) := by
  rw [walk]
  split
  · next failed => rw [failed]
  · next root => rw [root]
  · next parent found =>
    rw [found]
    split
    · next circular => simp only [circular, if_true]
    · next fresh =>
      simp only [fresh, if_false]
      cases model.walk (met ++ [parent.qualifiedName]) parent <;> rfl

/-- A class without a parent is its own root. -/
theorem ancestry_of_root (root : declared.parent = none) :
    model.ancestry declared = .ok [declared] := by
  rw [ancestry, walk_eq, parentOf_eq_none.mpr root]

end NativePeer.ClassModel
