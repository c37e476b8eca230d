import NativePeer.Proofs.Model.Agreement
import NativePeer.Proofs.Model.Inheritance

/-
This file shows that inheritance orders names like a tree, also where parents of other classes are
missing or form a cycle.
-/

namespace NativePeer

/-- All that stands above one element of a tree is in line. -/
structure IsTreeOrder {A : Type} (relation : A → A → Prop) : Prop
    extends IsPartialOrder A relation where
  comparable : ∀ low first second, relation low first → relation low second →
    relation first second ∨ relation second first

namespace ClassModel

open Relation

/-- The comparison of the names succeeds and holds. -/
def Inherits (model : ClassModel) (name ancestor : String) : Prop :=
  model.isSubclassOf name ancestor = .ok true

/-- Parents lead from a name to a class without parent. -/
def HasRoot (model : ClassModel) (name : String) : Prop :=
  ∃ root ∈ model.classes, root.parent = none ∧
    ReflTransGen model.Extends name root.qualifiedName

variable {model larger : ClassModel} {declared last : ManagedClass} {chain : List ManagedClass}
  {name ancestor : String}

theorem IsLine.reaches (line : model.IsLine declared chain last)
    (member : declared ∈ model.classes) : ∀ other ∈ chain, other ∈ model.classes ∧
      ReflTransGen model.Extends declared.qualifiedName other.qualifiedName := by
  refine line.induction ⟨member, .refl⟩ ?_
  rintro child parent found ⟨childMember, reached⟩
  obtain ⟨parentMember, above⟩ := parentOf_eq_some.mp found
  exact ⟨parentMember, reached.tail ((extends_iff childMember).mpr above)⟩

/-- An ancestry leaves out no parent of its classes. -/
theorem mem_ancestry_of_extends (member : declared ∈ model.classes)
    (walked : model.ancestry declared = .ok chain) {child parent : String}
    (listed : child ∈ chain.map ManagedClass.qualifiedName)
    (above : model.Extends child parent) : parent ∈ chain.map ManagedClass.qualifiedName := by
  obtain ⟨other, inside, rfl⟩ := List.mem_map.mp listed
  obtain ⟨before, after, rfl⟩ := List.append_of_mem inside
  obtain ⟨_, wholeLine, _⟩ := ancestry_eq_ok.mp walked
  have stands := (extends_iff (wholeLine.mem_classes member other inside)).mp above
  obtain ⟨root, line, parentless⟩ := ancestry_eq_ok.mp (ancestry_suffix walked)
  cases after with
  | nil =>
    cases line.ends
    cases parentless.symm.trans stands
  | cons next rest =>
    have linked := (List.isChain_cons_cons.mp line.links).1
    cases (parentOf_eq_some.mp linked).2.symm.trans stands
    exact List.mem_map_of_mem (by simp)

/-- All names above a class are in its ancestry. -/
theorem mem_ancestry_of_reaches (member : declared ∈ model.classes)
    (walked : model.ancestry declared = .ok chain)
    (reached : ReflTransGen model.Extends declared.qualifiedName ancestor) :
    ancestor ∈ chain.map ManagedClass.qualifiedName := by
  induction reached with
  | refl =>
    obtain ⟨_, line, _⟩ := ancestry_eq_ok.mp walked
    exact List.mem_map_of_mem (List.mem_of_mem_head? line.starts)
  | tail _ step inductionHypothesis =>
    exact mem_ancestry_of_extends member walked inductionHypothesis step

/-- A name has a root exactly if it leads to a class with an ancestry. -/
theorem hasRoot_iff : model.HasRoot name ↔
    ∃ declared chain, model.get? name = some declared ∧ model.ancestry declared = .ok chain := by
  constructor
  · rintro ⟨root, member, parentless, reached⟩
    induction reached using ReflTransGen.head_induction_on with
    | refl => exact ⟨root, [root], get?_eq_some.mpr ⟨member, rfl⟩, ancestry_of_root parentless⟩
    | head step _ inductionHypothesis =>
      obtain ⟨parent, above, present, walked⟩ := inductionHypothesis
      obtain ⟨parentMember, rfl⟩ := get?_eq_some.mp present
      obtain ⟨child, childMember, rfl, stands⟩ := step
      have found : model.parentOf child = .ok (some parent) :=
        parentOf_eq_some.mpr ⟨parentMember, stands⟩
      by_cases fresh : child.qualifiedName ∈ above.map ManagedClass.qualifiedName
      · obtain ⟨other, inside, same⟩ := List.mem_map.mp fresh
        obtain ⟨_, line, _⟩ := ancestry_eq_ok.mp walked
        have otherMember := line.mem_classes parentMember other inside
        obtain ⟨before, after, rfl⟩ := List.append_of_mem inside
        exact ⟨other, other :: after, get?_eq_some.mpr ⟨otherMember, same⟩, ancestry_suffix walked⟩
      · exact ⟨child, child :: above, get?_eq_some.mpr ⟨childMember, rfl⟩,
          (ancestry_of_parent found).mpr ⟨above, walked, fresh, rfl⟩⟩
  · rintro ⟨declared, chain, present, walked⟩
    obtain ⟨member, rfl⟩ := get?_eq_some.mp present
    obtain ⟨root, line, parentless⟩ := ancestry_eq_ok.mp walked
    obtain ⟨rootMember, reached⟩ := line.reaches member root (List.mem_of_getLast? line.ends)
    exact ⟨root, rootMember, parentless, reached⟩

theorem HasRoot.below (rooted : model.HasRoot ancestor)
    (reached : ReflTransGen model.Extends name ancestor) : model.HasRoot name := by
  obtain ⟨root, member, parentless, above⟩ := rooted
  exact ⟨root, member, parentless, reached.trans above⟩

/-- What stands above a cycle is on it. -/
theorem onCycle_of_reaches (cycle : TransGen model.Extends name name)
    (reached : ReflTransGen model.Extends name ancestor) :
    TransGen model.Extends ancestor ancestor := by
  induction reached with
  | refl => exact cycle
  | tail _ step inductionHypothesis => exact onCycle_of_extends inductionHypothesis step

theorem HasRoot.acyclic (rooted : model.HasRoot name) : ¬ TransGen model.Extends name name := by
  obtain ⟨root, member, parentless, reached⟩ := rooted
  exact fun cycle => not_onCycle_of_root member parentless (onCycle_of_reaches cycle reached)

theorem isSubclassOf_of_get? (apart : name ≠ ancestor) (present : model.get? name = some declared) :
    model.isSubclassOf name ancestor = (model.ancestry declared).map fun chain =>
      chain.any fun member => member.qualifiedName = ancestor := by
  rw [isSubclassOf, if_neg apart, present]

theorem inherits_self (model : ClassModel) (name : String) : model.Inherits name name :=
  if_pos rfl

/-- Parents lead from a name over all of its other ancestors to a root. -/
theorem inherits_iff : model.Inherits name ancestor ↔
    name = ancestor ∨ ReflTransGen model.Extends name ancestor ∧ model.HasRoot ancestor := by
  by_cases same : name = ancestor
  · exact iff_of_true (same ▸ inherits_self model name) (.inl same)
  · rw [or_iff_right same]
    constructor
    · intro inherits
      cases present : model.get? name with
      | none =>
        rw [Inherits, isSubclassOf, if_neg same, present] at inherits
        cases inherits
      | some declared =>
        rw [Inherits, isSubclassOf_of_get? same present, except_map_eq_ok] at inherits
        obtain ⟨chain, walked, listed⟩ := inherits
        obtain ⟨other, inside, named⟩ := List.any_eq_true.mp listed
        obtain rfl := of_decide_eq_true named
        obtain ⟨member, rfl⟩ := get?_eq_some.mp present
        obtain ⟨_, line, _⟩ := ancestry_eq_ok.mp walked
        obtain ⟨otherMember, reached⟩ := line.reaches member other inside
        obtain ⟨before, after, rfl⟩ := List.append_of_mem inside
        exact ⟨reached, hasRoot_iff.mpr
          ⟨other, other :: after, get?_eq_some.mpr ⟨otherMember, rfl⟩, ancestry_suffix walked⟩⟩
    · rintro ⟨reached, rooted⟩
      obtain ⟨declared, chain, present, walked⟩ := hasRoot_iff.mp (rooted.below reached)
      obtain ⟨member, rfl⟩ := get?_eq_some.mp present
      have listed := mem_ancestry_of_reaches member walked reached
      rw [Inherits, isSubclassOf_of_get? same present, walked]
      simpa [Except.map] using listed

theorem inherits_isTreeOrder (model : ClassModel) : IsTreeOrder model.Inherits where
  refl := inherits_self model
  trans low middle high first second := by
    rw [inherits_iff] at first second ⊢
    obtain rfl | ⟨lower, _⟩ := first
    · exact second
    · obtain rfl | ⟨upper, rooted⟩ := second
      · exact .inr ⟨lower, ‹_›⟩
      · exact .inr ⟨lower.trans upper, rooted⟩
  antisymm first second up down := by
    rw [inherits_iff] at up down
    obtain same | ⟨upward, _⟩ := up
    · exact same
    · obtain same | ⟨downward, rooted⟩ := down
      · exact same.symm
      · by_contra apart
        have strict := (reflTransGen_iff_eq_or_transGen.mp upward).resolve_left (Ne.symm apart)
        exact rooted.acyclic (strict.trans_left downward)
  comparable low first second up other := by
    rw [inherits_iff] at up other
    obtain rfl | ⟨upward, rooted⟩ := up
    · exact .inl (inherits_iff.mpr other)
    · obtain rfl | ⟨otherUpward, otherRooted⟩ := other
      · exact .inr (inherits_iff.mpr (.inr ⟨upward, rooted⟩))
      · obtain above | below :=
          ReflTransGen.total_of_right_unique model.extends_rightUnique upward otherUpward
        · exact .inl (inherits_iff.mpr (.inr ⟨above, otherRooted⟩))
        · exact .inr (inherits_iff.mpr (.inr ⟨below, rooted⟩))

section Growth

variable (included : model.classes ⊆ larger.classes)

include included

theorem get?_of_subset (present : model.get? name = some declared) :
    larger.get? name = some declared := by
  rw [get?_eq_some] at present ⊢
  exact ⟨included present.1, present.2⟩

theorem ancestry_of_subset (walked : model.ancestry declared = .ok chain) :
    larger.ancestry declared = .ok chain := by
  rw [ancestry_eq_ok] at walked ⊢
  obtain ⟨root, line, parentless⟩ := walked
  have links : chain.IsChain fun child parent => larger.parentOf child = .ok (some parent) := by
    refine line.links.imp ?_
    intro child parent found
    rw [parentOf_eq_some] at found ⊢
    exact ⟨included found.1, found.2⟩
  exact ⟨root, ⟨line.starts, links, line.ends, line.distinct⟩, parentless⟩

/-- More classes change no answer about a name that had a class before. -/
theorem isSubclassOf_of_subset (known : name ∈ model.names) {answer : Bool}
    (answered : model.isSubclassOf name ancestor = .ok answer) :
    larger.isSubclassOf name ancestor = .ok answer := by
  by_cases same : name = ancestor
  · rw [isSubclassOf, if_pos same] at answered ⊢
    exact answered
  · obtain ⟨declared, present⟩ := Option.isSome_iff_exists.mp (isSome_get?.mpr known)
    rw [isSubclassOf_of_get? same present, except_map_eq_ok] at answered
    obtain ⟨chain, walked, tested⟩ := answered
    rw [isSubclassOf_of_get? same (get?_of_subset included present),
      ancestry_of_subset included walked, ← tested]
    rfl

end Growth

/-- A name inherits from another one exactly if they are the same or if parents lead from it over
the other one to a root. This orders all names like a tree, whatever parents the classes have. A
further class changes no answer about a name that is in the model. In a consistent model there is
always an answer. -/
theorem isSubclassOf_treeOrder (model : ClassModel) :
    (∀ name ancestor, model.Inherits name ancestor ↔
      name = ancestor ∨ ReflTransGen model.Extends name ancestor ∧ model.HasRoot ancestor) ∧
      IsTreeOrder model.Inherits ∧
      (∀ added larger, model.add added = .ok larger →
        ∀ name ∈ model.names, ∀ ancestor answer, model.isSubclassOf name ancestor = .ok answer →
          larger.isSubclassOf name ancestor = .ok answer) ∧
      (model.validate = .ok () →
        (∀ name ancestor, ∃ answer, model.isSubclassOf name ancestor = .ok answer) ∧
          ∀ added larger, model.add added = .ok larger → ∀ name ∈ model.names, ∀ ancestor,
            larger.isSubclassOf name ancestor = model.isSubclassOf name ancestor) := by
  have kept : ∀ added larger, model.add added = .ok larger → ∀ name ∈ model.names,
      ∀ ancestor answer, model.isSubclassOf name ancestor = .ok answer →
        larger.isSubclassOf name ancestor = .ok answer := by
    intro added larger succeeded name known ancestor answer answered
    have included : model.classes ⊆ larger.classes := by
      rw [classes_of_add succeeded]
      exact List.subset_append_left _ _
    exact isSubclassOf_of_subset included known answered
  refine ⟨fun _ _ => inherits_iff, inherits_isTreeOrder model, kept, ?_⟩
  intro valid
  refine ⟨isSubclassOf_ok valid, ?_⟩
  intro added larger succeeded name known ancestor
  obtain ⟨answer, answered⟩ := isSubclassOf_ok valid name ancestor
  rw [answered]
  exact kept added larger succeeded name known ancestor answer answered

/-- A line of three classes, and a class beside it. -/
def carLine : ClassModel where
  classes :=
    [{ ManagedClass.named "a.SportsCar" with parent := some "a.Car" },
      { ManagedClass.named "a.Car" with parent := some "a.Vehicle" },
      ManagedClass.named "a.Vehicle", ManagedClass.named "a.Road"]
  distinct := by decide

theorem isSubclassOf_treeOrder_carLine :
    carLine.validate = .ok () ∧
      (carLine.Inherits "a.Car" "a.Vehicle" ∨ carLine.Inherits "a.Vehicle" "a.Car") ∧
      ∃ larger, carLine.add (.named "a.Van") = .ok larger ∧
        larger.isSubclassOf "a.SportsCar" "a.Vehicle" = .ok true ∧
        larger.isSubclassOf "a.SportsCar" "a.Van" = .ok false := by
  obtain ⟨_, ordered, _, answers⟩ := isSubclassOf_treeOrder carLine
  have valid : carLine.validate = .ok () := by decide +kernel
  have car : carLine.isSubclassOf "a.SportsCar" "a.Car" = .ok true := by decide +kernel
  have vehicle : carLine.isSubclassOf "a.SportsCar" "a.Vehicle" = .ok true := by decide +kernel
  have van : carLine.isSubclassOf "a.SportsCar" "a.Van" = .ok false := by decide +kernel
  have fresh : (ManagedClass.named "a.Van").qualifiedName ∉ carLine.names := by decide
  obtain ⟨larger, added, _⟩ := carLine.add_of_fresh fresh
  have known : "a.SportsCar" ∈ carLine.names := by decide
  have kept := (answers valid).2 _ larger added _ known
  exact ⟨valid, ordered.comparable _ _ _ car vehicle, larger, added, (kept _).trans vehicle,
    (kept _).trans van⟩

end ClassModel

end NativePeer
