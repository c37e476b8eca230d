import NativePeer.Proofs.Model.Ancestry
import NativePeer.Proofs.Computation
import Mathlib.Data.List.Chain
import Mathlib.Data.List.Nodup
import Mathlib.Data.List.Perm.Basic
import Mathlib.Logic.Function.Iterate

/-
This file shows that the search for the root of a class ends, and that it ends with the line of
parents or with the place where the line breaks or closes.
-/

namespace NativePeer.ClassModel

/-- A search has collected a chain of classes up to the current one, or it is over. -/
inductive Search where
  | underway (chain : List ManagedClass) (current : ManagedClass)
  | finished (result : Except ModelError (List ManagedClass))

/-- A step looks one parent up. -/
def Search.step (model : ClassModel) : Search → Search
  | .underway chain current =>
    match model.parentOf current with
    | .error error => .finished (.error error)
    | .ok none => .finished (.ok chain)
    | .ok (some parent) =>
      if parent.qualifiedName ∈ chain.map ManagedClass.qualifiedName then
        .finished (.error (.circularInheritance
          (chain.map ManagedClass.qualifiedName ++ [parent.qualifiedName])))
      else .underway (chain ++ [parent]) parent
  | .finished result => .finished result

/-- A line leads from a class over parents to the last one, and no name comes twice. -/
structure IsLine (model : ClassModel) (declared : ManagedClass) (chain : List ManagedClass)
    (last : ManagedClass) : Prop where
  starts : chain.head? = some declared
  links : chain.IsChain fun child parent => model.parentOf child = .ok (some parent)
  ends : chain.getLast? = some last
  distinct : (chain.map ManagedClass.qualifiedName).Nodup

variable {model : ClassModel} {declared last parent : ManagedClass} {chain : List ManagedClass}

namespace IsLine

theorem start (model : ClassModel) (declared : ManagedClass) :
    model.IsLine declared [declared] declared :=
  ⟨rfl, List.isChain_singleton declared, rfl, List.nodup_singleton _⟩

/-- A parent with a new name continues the line. -/
theorem next (line : model.IsLine declared chain last)
    (found : model.parentOf last = .ok (some parent))
    (fresh : parent.qualifiedName ∉ chain.map ManagedClass.qualifiedName) :
    model.IsLine declared (chain ++ [parent]) parent where
  starts := by rw [List.head?_append, line.starts]; rfl
  links := by
    rw [List.isChain_append]
    refine ⟨line.links, List.isChain_singleton parent, ?_⟩
    intro child ending other only
    rw [line.ends] at ending
    cases ending
    cases only
    exact found
  ends := List.getLast?_concat
  distinct := by
    rw [List.map_append, List.map_singleton, ← List.concat_eq_append]
    exact line.distinct.concat fresh

/-- A line that is more than its start continues another. -/
theorem start_or_next (line : model.IsLine declared (chain ++ [parent]) last) :
    last = parent ∧ (chain = [] ∧ declared = parent ∨
      ∃ previous, model.IsLine declared chain previous ∧
        model.parentOf previous = .ok (some parent) ∧
        parent.qualifiedName ∉ chain.map ManagedClass.qualifiedName) := by
  have same : parent = last := Option.some.inj (List.getLast?_concat.symm.trans line.ends)
  refine ⟨same.symm, ?_⟩
  cases ending : chain.getLast? with
  | none =>
    have nothing := List.getLast?_eq_none_iff.mp ending
    have starts := line.starts
    subst nothing
    cases starts
    exact .inl ⟨rfl, rfl⟩
  | some previous =>
    have filled : chain ≠ [] := by
      rintro rfl
      cases ending
    obtain ⟨links, -, joint⟩ := List.isChain_append.mp line.links
    have distinct := line.distinct
    rw [List.map_append, List.nodup_append] at distinct
    obtain ⟨apart, -, fresh⟩ := distinct
    refine .inr ⟨previous, ⟨?_, links, ending, apart⟩, joint previous ending parent rfl, ?_⟩
    · rw [← line.starts, List.head?_append_of_ne_nil _ filled]
    · exact fun member => fresh _ member _ (List.mem_singleton.mpr rfl) rfl

/-- What holds of the first class and goes over to parents holds on the whole line. -/
theorem induction {holds : ManagedClass → Prop} (line : model.IsLine declared chain last)
    (start : holds declared)
    (carries : ∀ child parent, model.parentOf child = .ok (some parent) → holds child →
      holds parent) : ∀ other ∈ chain, holds other := by
  apply line.links.induction holds
  · exact carries
  · intro filled
    have first := line.starts
    rw [List.head?_eq_some_head filled] at first
    exact Option.some.inj first ▸ start

/-- Every class of a line but the first is in the model. -/
theorem length_le (line : model.IsLine declared chain last) : chain.length ≤ model.size + 1 := by
  obtain ⟨starts, links, -, distinct⟩ := line
  cases chain with
  | nil => exact Nat.zero_le _
  | cons first rest =>
    have members : rest ⊆ model.classes := by
      apply links.tail.induction (· ∈ model.classes)
      · exact fun _ _ found _ => parentOf_mem found
      · exact fun filled => parentOf_mem (links.rel_head? (List.head_mem_head? filled))
    have apart : rest.Nodup := (List.Nodup.of_map _ distinct).of_cons
    exact Nat.succ_le_succ (List.subperm_of_subset apart members).length_le

end IsLine

namespace Search

theorem iterate_finished (result : Except ModelError (List ManagedClass)) (count : Nat) :
    (step model)^[count] (.finished result) = .finished result :=
  Function.iterate_fixed rfl count

theorem step_underway (found : model.parentOf last = .ok (some parent))
    (fresh : parent.qualifiedName ∉ chain.map ManagedClass.qualifiedName) :
    step model (.underway chain last) = .underway (chain ++ [parent]) parent := by
  simp only [step, found, fresh, if_false]

/-- Every class of a line after the first costs one step. -/
theorem iterate_line (line : model.IsLine declared chain last) :
    (step model)^[chain.length - 1] (.underway [declared] declared) = .underway chain last := by
  -- A step adds a class at the end, so the induction takes the line from there.
  induction chain using List.reverseRecOn generalizing last with
  | nil => cases line.starts
  | append_singleton chain parent inductionHypothesis =>
    obtain ⟨rfl, ⟨rfl, rfl⟩ | ⟨previous, earlier, found, fresh⟩⟩ := line.start_or_next
    · rfl
    · have filled : 0 < chain.length := by
        cases chain with
        | nil => cases earlier.starts
        | cons => exact Nat.succ_pos _
      have one : (chain ++ [last]).length - 1 = chain.length - 1 + 1 := by
        rw [List.length_append, List.length_singleton]
        omega
      rw [one, Function.iterate_succ_apply', inductionHypothesis earlier,
        step_underway found fresh]

/-- A search whose line stops is over when every class could have been met. -/
theorem iterate_stop {result : Except ModelError (List ManagedClass)}
    (line : model.IsLine declared chain last)
    (stop : step model (.underway chain last) = .finished result) :
    (step model)^[model.size + 1] (.underway [declared] declared) = .finished result := by
  have bound := line.length_le
  obtain ⟨rest, total⟩ : ∃ rest, model.size + 1 = rest + 1 + (chain.length - 1) := by
    exact ⟨model.size - (chain.length - 1), by omega⟩
  rw [total, Function.iterate_add_apply, iterate_line line, Function.iterate_succ_apply, stop,
    iterate_finished]

end Search

/-- A walk that has come to the end of a line goes on along it until it stops. -/
theorem exists_stop (chain : List ManagedClass) (last : ManagedClass)
    (line : model.IsLine declared chain last) :
    ∃ longer final, model.IsLine declared longer final ∧
      Search.step model (.underway longer final) =
        .finished ((model.walk (chain.map ManagedClass.qualifiedName) last).map
          (chain.dropLast ++ ·)) := by
  have whole : chain.dropLast ++ [last] = chain := List.dropLast_append_getLast? last line.ends
  rw [walk_eq]
  cases looked : model.parentOf last with
  | error error =>
    refine ⟨chain, last, line, ?_⟩
    simp only [Search.step, looked, Except.map]
  | ok ancestor =>
    cases ancestor with
    | none =>
      refine ⟨chain, last, line, ?_⟩
      simp only [Search.step, looked, Except.map, whole]
    | some parent =>
      by_cases circular : parent.qualifiedName ∈ chain.map ManagedClass.qualifiedName
      · refine ⟨chain, last, line, ?_⟩
        simp only [Search.step, looked, Except.map, circular, if_true]
      · have fewer := unmet_append_lt (List.mem_map_of_mem (parentOf_mem looked)) circular
        obtain ⟨longer, final, continued, stop⟩ := exists_stop _ _ (line.next looked circular)
        refine ⟨longer, final, continued, ?_⟩
        rw [stop, List.map_append, List.map_singleton, List.dropLast_concat]
        simp only [circular, if_false]
        cases
          model.walk (chain.map ManagedClass.qualifiedName ++ [parent.qualifiedName]) parent with
        | error error => rfl
        | ok rest =>
          have joined : chain.dropLast ++ last :: rest = chain ++ rest := by
            rw [List.append_cons, whole]
          simp only [Except.map, joined]
termination_by model.unmet (chain.map ManagedClass.qualifiedName)
decreasing_by
  rw [List.map_append]
  exact fewer

/-- The search from a class gives its ancestry. -/
theorem exists_stop_ancestry (model : ClassModel) (declared : ManagedClass) :
    ∃ chain last, model.IsLine declared chain last ∧
      Search.step model (.underway chain last) = .finished (model.ancestry declared) := by
  obtain ⟨chain, last, line, stop⟩ := exists_stop [declared] declared (.start model declared)
  refine ⟨chain, last, line, stop.trans ?_⟩
  change Search.finished ((model.ancestry declared).map id) = _
  rw [Except.map_id]
  rfl

theorem iterate_ancestry (model : ClassModel) (declared : ManagedClass) :
    (Search.step model)^[model.size + 1] (.underway [declared] declared) =
      .finished (model.ancestry declared) := by
  obtain ⟨chain, last, line, stop⟩ := model.exists_stop_ancestry declared
  exact Search.iterate_stop line stop

/-- A line stops at a root, where it leaves the model, or where a name comes again. -/
inductive Stops (model : ClassModel) (chain : List ManagedClass) (last : ManagedClass) :
    Except ModelError (List ManagedClass) → Prop where
  | root (parentless : last.parent = none) : Stops model chain last (.ok chain)
  | unknown (name : String) (above : last.parent = some name) (absent : name ∉ model.names) :
    Stops model chain last (.error (.unknownClass name))
  | circular (name : String) (above : last.parent = some name) (known : name ∈ model.names)
    (again : name ∈ chain.map ManagedClass.qualifiedName) :
    Stops model chain last
      (.error (.circularInheritance (chain.map ManagedClass.qualifiedName ++ [name])))

theorem Search.step_eq_finished {result : Except ModelError (List ManagedClass)} :
    step model (.underway chain last) = .finished result ↔ model.Stops chain last result := by
  constructor
  · intro stop
    rw [step] at stop
    split at stop
    · next error failed =>
      cases stop
      obtain ⟨name, above, absent, rfl⟩ := parentOf_eq_error.mp failed
      exact .unknown name above absent
    · next root =>
      cases stop
      exact .root (parentOf_eq_none.mp root)
    · next parent found =>
      obtain ⟨member, above⟩ := parentOf_eq_some.mp found
      split at stop
      · next again =>
        cases stop
        exact .circular _ above (List.mem_map_of_mem member) again
      · cases stop
  · intro stops
    cases stops with
    | root parentless => rw [step, parentOf_eq_none.mpr parentless]
    | unknown name above absent =>
      rw [step, parentOf_eq_error.mpr ⟨name, above, absent, rfl⟩]
    | circular name above known again =>
      obtain ⟨parent, member, rfl⟩ := List.mem_map.mp known
      rw [step, parentOf_eq_some.mpr ⟨member, above⟩]
      exact if_pos again

/-- The line on which the search stops decides the ancestry. -/
theorem ancestry_eq_iff {result : Except ModelError (List ManagedClass)} :
    model.ancestry declared = result ↔
      ∃ chain last, model.IsLine declared chain last ∧ model.Stops chain last result := by
  constructor
  · rintro rfl
    obtain ⟨chain, last, line, stop⟩ := model.exists_stop_ancestry declared
    exact ⟨chain, last, line, Search.step_eq_finished.mp stop⟩
  · rintro ⟨chain, last, line, stops⟩
    have stop := Search.step_eq_finished.mpr stops
    exact Search.finished.inj ((model.iterate_ancestry declared).symm.trans
      (Search.iterate_stop line stop))

theorem ancestry_eq_ok :
    model.ancestry declared = .ok chain ↔
      ∃ root, model.IsLine declared chain root ∧ root.parent = none := by
  rw [ancestry_eq_iff]
  constructor
  · rintro ⟨_, root, line, stops⟩
    cases stops with
    | root parentless => exact ⟨root, line, parentless⟩
  · rintro ⟨root, line, parentless⟩
    exact ⟨chain, root, line, .root parentless⟩

/-- The search for the root of a class is over after one step for each class of the model and one
more. It succeeds exactly with the line to a class without parent. It fails exactly when a parent
is not in the model, or when a name comes again, and then its path tells the names up to the one
that came again. -/
theorem ancestry_walk (model : ClassModel) (declared : ManagedClass) :
    (Search.step model)^[model.size + 1] (.underway [declared] declared) =
        .finished (model.ancestry declared) ∧
      (∀ chain, model.ancestry declared = .ok chain ↔
        ∃ root, model.IsLine declared chain root ∧ root.parent = none) ∧
      (∀ name, model.ancestry declared = .error (.unknownClass name) ↔
        ∃ chain last, model.IsLine declared chain last ∧ last.parent = some name ∧
          name ∉ model.names) ∧
      (∀ path, model.ancestry declared = .error (.circularInheritance path) ↔
        ∃ chain last again, model.IsLine declared chain last ∧ last.parent = some again ∧
          again ∈ model.names ∧ again ∈ chain.map ManagedClass.qualifiedName ∧
          path = chain.map ManagedClass.qualifiedName ++ [again]) ∧
      ∀ error, model.ancestry declared = .error error →
        (∃ name, error = .unknownClass name) ∨ ∃ path, error = .circularInheritance path := by
  refine ⟨model.iterate_ancestry declared, fun _ => ancestry_eq_ok, ?_, ?_, ?_⟩
  · intro name
    rw [ancestry_eq_iff]
    constructor
    · rintro ⟨chain, last, line, stops⟩
      cases stops with
      | unknown _ above absent => exact ⟨chain, last, line, above, absent⟩
    · rintro ⟨chain, last, line, above, absent⟩
      exact ⟨chain, last, line, .unknown name above absent⟩
  · intro path
    rw [ancestry_eq_iff]
    constructor
    · rintro ⟨chain, last, line, stops⟩
      cases stops with
      | circular again above known came =>
        exact ⟨chain, last, again, line, above, known, came, rfl⟩
    · rintro ⟨chain, last, again, line, above, known, came, rfl⟩
      exact ⟨chain, last, line, .circular again above known came⟩
  · intro error failed
    obtain ⟨chain, last, line, stops⟩ := ancestry_eq_iff.mp failed
    cases stops with
    | unknown name => exact .inl ⟨name, rfl⟩
    | circular => exact .inr ⟨_, rfl⟩

end NativePeer.ClassModel
