import Mathlib.Data.List.Nodup
import NativePeer.Proofs.Model.Ancestry
import NativePeer.Proofs.Model.Validation

/-
This file shows that a model is known by the classes that its names lead to.
-/

namespace NativePeer.ClassModel

variable {model other : ClassModel}

/-- A name leads to the one class that has it. -/
theorem get?_eq_some {name : String} {declared : ManagedClass} :
    model.get? name = some declared ↔
      declared ∈ model.classes ∧ declared.qualifiedName = name :=
  model.sound.get?_eq_some

/-- The added classes come after those of the seed. -/
theorem addAll_eq_ok {seed : ClassModel} {added : List ManagedClass} :
    seed.addAll added = .ok model ↔ model.classes = seed.classes ++ added := by
  induction added generalizing seed with
  | nil =>
    rw [addAll, Except.ok.injEq, List.append_nil]
    exact ⟨fun same => same ▸ rfl, fun same => eq_of_classes same.symm⟩
  | cons declared added inductionHypothesis =>
    rw [addAll]
    by_cases fresh : declared.qualifiedName ∉ seed.names
    · obtain ⟨next, accepted, classes⟩ := seed.add_of_fresh fresh
      rw [accepted]
      dsimp only
      rw [inductionHypothesis, classes, List.append_assoc, List.singleton_append]
    · have taken := Decidable.not_not.mp fresh
      rw [add_of_taken taken]
      dsimp only
      constructor
      · intro impossible
        cases impossible
      · intro same
        have distinct := model.distinct
        rw [same, List.map_append, List.nodup_append] at distinct
        have twice := distinct.2.2 declared.qualifiedName taken declared.qualifiedName (by simp)
        exact absurd rfl twice

/-- Models agree if every name leads to the same class in both. -/
def Agrees (model other : ClassModel) : Prop :=
  ∀ name, model.get? name = other.get? name

/-- The order of the classes makes no difference to the names. -/
theorem agrees_of_perm (permutation : model.classes.Perm other.classes) : model.Agrees other := by
  intro name
  ext declared
  rw [get?_eq_some, get?_eq_some, permutation.mem_iff]

namespace Agrees

variable (agree : model.Agrees other)

include agree

theorem parentOf (declared : ManagedClass) :
    model.parentOf declared = other.parentOf declared := by
  unfold ClassModel.parentOf
  simp only [agree _]

theorem walk (met : List String) (current : ManagedClass) :
    model.walk met current = other.walk met current := by
  induction met, current using walk.induct model with
  | case1 met current error failed =>
    rw [walk_eq, walk_eq, ← agree.parentOf, failed]
  | case2 met current root =>
    rw [walk_eq, walk_eq, ← agree.parentOf, root]
  | case3 met current parent found circular =>
    rw [walk_eq, walk_eq, ← agree.parentOf, found]
    simp only [circular, if_true]
  | case4 met current parent found fresh error failed inductionHypothesis =>
    rw [walk_eq, walk_eq, ← agree.parentOf, found]
    simp only [fresh, if_false, inductionHypothesis]
  | case5 met current parent found fresh chain walked inductionHypothesis =>
    rw [walk_eq, walk_eq, ← agree.parentOf, found]
    simp only [fresh, if_false, inductionHypothesis]

theorem ancestry (declared : ManagedClass) : model.ancestry declared = other.ancestry declared :=
  agree.walk _ declared

theorem isSubclassOf (name ancestor : String) :
    model.isSubclassOf name ancestor = other.isSubclassOf name ancestor := by
  unfold ClassModel.isSubclassOf
  simp only [agree _, agree.ancestry]

theorem flattenFields (declared : ManagedClass) :
    model.flattenFields declared = other.flattenFields declared := by
  rw [ClassModel.flattenFields, ClassModel.flattenFields, agree.ancestry]

theorem checkType (used : ManagedType) : model.checkType used = other.checkType used := by
  unfold ClassModel.checkType
  simp only [agree _]

theorem checkClass (declared : ManagedClass) :
    model.checkClass declared = other.checkClass declared := by
  have sameCheck : model.checkType = other.checkType := funext agree.checkType
  rw [ClassModel.checkClass, ClassModel.checkClass, agree.ancestry, sameCheck]

end Agrees

/-- Models with the same classes are consistent together. -/
theorem validate_perm (permutation : model.classes.Perm other.classes) :
    model.validate = .ok () ↔ other.validate = .ok () := by
  have agree := agrees_of_perm permutation
  simp only [validate, forM_eq_ok, agree.checkClass, permutation.mem_iff]

end NativePeer.ClassModel
