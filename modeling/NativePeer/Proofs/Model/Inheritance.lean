import NativePeer.Proofs.Model.Consistency

/-
This file shows how the ancestry of a class goes on from that of its parent, and that every class
of an ancestry has the rest of it as its own.
-/

namespace NativePeer.ClassModel

variable {model : ClassModel} {declared parent other last : ManagedClass}
  {chain above before after : List ManagedClass}

namespace IsLine

/-- A line may begin at any of its classes. -/
theorem suffix (line : model.IsLine declared (before ++ other :: after) last) :
    model.IsLine other (other :: after) last where
  starts := rfl
  links := line.links.right_of_append
  ends := by
    rw [← line.ends, List.getLast?_append_of_ne_nil _ (List.cons_ne_nil other after)]
  distinct := by
    have distinct := line.distinct
    rw [List.map_append] at distinct
    exact distinct.of_append_right

/-- A class with a new name may stand below the line of its parent. -/
theorem below (line : model.IsLine parent above last)
    (found : model.parentOf declared = .ok (some parent))
    (fresh : declared.qualifiedName ∉ above.map ManagedClass.qualifiedName) :
    model.IsLine declared (declared :: above) last where
  starts := rfl
  links := by
    rw [List.isChain_cons]
    refine ⟨?_, line.links⟩
    intro first begins
    cases line.starts.symm.trans begins
    exact found
  ends := by
    cases above with
    | nil => cases line.starts
    | cons first rest => exact List.getLast?_cons_cons.trans line.ends
  distinct := List.nodup_cons.mpr ⟨fresh, line.distinct⟩

/-- The rest of a line that goes on over a parent is the line of that parent. -/
theorem exists_above (line : model.IsLine declared chain last) (root : last.parent = none)
    (found : model.parentOf declared = .ok (some parent)) :
    ∃ above, chain = declared :: above ∧ model.IsLine parent above last ∧
      declared.qualifiedName ∉ above.map ManagedClass.qualifiedName := by
  cases chain with
  | nil => cases line.starts
  | cons first rest =>
    cases line.starts
    cases rest with
    | nil =>
      cases line.ends
      cases found.symm.trans (parentOf_eq_none.mpr root)
    | cons second rest =>
      have linked := (List.isChain_cons_cons.mp line.links).1
      cases found.symm.trans linked
      have upper : model.IsLine declared ([declared] ++ parent :: rest) last := line
      exact ⟨parent :: rest, rfl, upper.suffix, (List.nodup_cons.mp line.distinct).1⟩

end IsLine

/-- A class of an ancestry has the rest of it as its own ancestry. -/
theorem ancestry_suffix (walked : model.ancestry declared = .ok (before ++ other :: after)) :
    model.ancestry other = .ok (other :: after) := by
  obtain ⟨root, line, parentless⟩ := ancestry_eq_ok.mp walked
  exact ancestry_eq_ok.mpr ⟨root, line.suffix, parentless⟩

/-- The ancestry of a class is the class and the ancestry of its parent, in which the name of the
class does not come again. -/
theorem ancestry_of_parent (found : model.parentOf declared = .ok (some parent)) :
    model.ancestry declared = .ok chain ↔
      ∃ above, model.ancestry parent = .ok above ∧
        declared.qualifiedName ∉ above.map ManagedClass.qualifiedName ∧
        chain = declared :: above := by
  simp only [ancestry_eq_ok]
  constructor
  · rintro ⟨root, line, parentless⟩
    obtain ⟨above, rfl, rest, fresh⟩ := line.exists_above parentless found
    exact ⟨above, ⟨root, rest, parentless⟩, fresh, rfl⟩
  · rintro ⟨above, ⟨root, line, parentless⟩, fresh, rfl⟩
    exact ⟨root, line.below found fresh, parentless⟩

end NativePeer.ClassModel
