import NativePeer.Proofs.Text.Letters

/-
This file counts the braces that are open in a text.
-/

namespace NativePeer.Text

/-- A brace that closes needs one that is open. -/
def depthStep? (depth : Nat) (letter : Char) : Option Nat :=
  if letter = '\x7b' then some (depth + 1)
  else if letter = '\x7d' then
    match depth with
    | 0 => none
    | depth + 1 => some depth
  else some depth

/-- The number of open braces after a text. -/
def depthAfter? (depth : Nat) (letters : List Char) : Option Nat :=
  letters.foldlM depthStep? depth

theorem depthAfter?_append {depth middle : Nat} {first : List Char}
    (reached : depthAfter? depth first = some middle) (second : List Char) :
    depthAfter? depth (first ++ second) = depthAfter? middle second := by
  rw [depthAfter?, List.foldlM_append, ← depthAfter?, reached]
  rfl

theorem depthAfter?_opening (depth : Nat) (letters : List Char) :
    depthAfter? depth ('\x7b' :: letters) = depthAfter? (depth + 1) letters := rfl

theorem depthAfter?_closing (depth : Nat) (letters : List Char) :
    depthAfter? (depth + 1) ('\x7d' :: letters) = depthAfter? depth letters := rfl

theorem depthStep?_flat {letter : Char} (flat : isBrace letter = false) (depth : Nat) :
    depthStep? depth letter = some depth := by
  rw [isBrace, Bool.or_eq_false_iff, decide_eq_false_iff_not, decide_eq_false_iff_not] at flat
  unfold depthStep?
  rw [if_neg flat.1, if_neg flat.2]

theorem depthAfter?_cons_flat {letter : Char} (flat : isBrace letter = false) (depth : Nat)
    (letters : List Char) : depthAfter? depth (letter :: letters) = depthAfter? depth letters := by
  rw [depthAfter?, List.foldlM_cons, depthStep?_flat flat]
  rfl

theorem depthAfter?_flat {letters : List Char}
    (flat : ∀ letter ∈ letters, isBrace letter = false) (depth : Nat) :
    depthAfter? depth letters = some depth := by
  induction letters with
  | nil => rfl
  | cons letter letters inductionHypothesis =>
    rw [List.forall_mem_cons] at flat
    rw [depthAfter?_cons_flat flat.1, inductionHypothesis flat.2]

theorem depthAfter?_replicate (depth count : Nat) :
    depthAfter? (depth + count) (List.replicate count '\x7d') = some depth := by
  induction count with
  | zero => rfl
  | succ count inductionHypothesis =>
    rw [List.replicate_succ, ← Nat.add_assoc, depthAfter?_closing, inductionHypothesis]

/-- What a text does to the braces it does inside any scopes. -/
theorem depthAfter?_add {depth reached : Nat} {letters : List Char}
    (read : depthAfter? depth letters = some reached) (outer : Nat) :
    depthAfter? (depth + outer) letters = some (reached + outer) := by
  induction letters generalizing depth with
  | nil =>
    cases read
    rfl
  | cons letter letters inductionHypothesis =>
    obtain ⟨next, stepped, rest⟩ := Option.bind_eq_some_iff.mp read
    have deeper : depthStep? (depth + outer) letter = some (next + outer) := by
      unfold depthStep? at stepped ⊢
      grind
    rw [depthAfter?, List.foldlM_cons, deeper]
    exact inductionHypothesis rest

/-- Braces that can be counted in a text can be counted in all that it begins with. -/
theorem depthAfter?_prefix {depth reached : Nat} {initial letters : List Char}
    (begins : initial <+: letters) (read : depthAfter? depth letters = some reached) :
    ∃ middle, depthAfter? depth initial = some middle := by
  obtain ⟨rest, rfl⟩ := begins
  rw [depthAfter?, List.foldlM_append] at read
  obtain ⟨middle, found, _⟩ := Option.bind_eq_some_iff.mp read
  exact ⟨middle, found⟩

/-- Every brace has its partner, and the first one is closed by the last one. -/
structure IsNested (letters : List Char) : Prop where
  closed : depthAfter? 0 letters = some 0
  enclosed : ∀ initial rest, initial ++ rest = letters → '\x7b' ∈ initial → '\x7d' ∈ rest →
    ∃ depth, depthAfter? 0 initial = some (depth + 1)

theorem not_mem_of_flat {letters : List Char} (flat : ∀ letter ∈ letters, isBrace letter = false) :
    '\x7b' ∉ letters ∧ '\x7d' ∉ letters :=
  ⟨fun member => Bool.false_ne_true (flat _ member).symm, fun member =>
    Bool.false_ne_true (flat _ member).symm⟩

/-- A part that goes on after the first mark and stops before the last one ends between them. -/
theorem exists_between {first last : Char} {before middle after initial rest : List Char}
    (early : first ∉ before) (late : last ∉ after)
    (same : initial ++ rest = before ++ first :: (middle ++ last :: after))
    (opened : first ∈ initial) (closing : last ∈ rest) :
    ∃ inner, initial = before ++ first :: inner ∧ inner <+: middle := by
  rcases List.append_eq_append_iff.mp same with ⟨_, rfl, _⟩ | ⟨tail, rfl, inside⟩
  · exact absurd (List.mem_append_left _ opened) early
  · rcases List.cons_eq_append_iff.mp inside with ⟨rfl, _⟩ | ⟨inner, rfl, split⟩
    · exact absurd (List.append_nil before ▸ opened) early
    · refine ⟨inner, rfl, ?_⟩
      rcases List.append_eq_append_iff.mp split with ⟨ending, rfl, ended⟩ | ⟨_, rfl, _⟩
      · rcases List.cons_eq_append_iff.mp ended with ⟨rfl, _⟩ | ⟨_, _, rfl⟩
        · exact (List.append_nil middle).symm ▸ List.prefix_refl middle
        · exact absurd (List.mem_append_right _ closing) late
      · exact List.prefix_append _ _

/-- A scope around a text that closes all of its own scopes. -/
theorem isNested_of_enclosed {before middle after : List Char}
    (flatBefore : ∀ letter ∈ before, isBrace letter = false)
    (closed : depthAfter? 0 middle = some 0)
    (flatAfter : ∀ letter ∈ after, isBrace letter = false) :
    IsNested (before ++ '\x7b' :: (middle ++ '\x7d' :: after)) where
  closed := by
    rw [depthAfter?_append (depthAfter?_flat flatBefore 0), depthAfter?_opening,
      depthAfter?_append (depthAfter?_add closed 1), depthAfter?_closing,
      depthAfter?_flat flatAfter]
  enclosed := by
    intro initial rest same opened closing
    obtain ⟨inner, rfl, begins⟩ := exists_between (not_mem_of_flat flatBefore).1
      (not_mem_of_flat flatAfter).2 same opened closing
    obtain ⟨depth, read⟩ := depthAfter?_prefix begins closed
    refine ⟨depth, ?_⟩
    rw [depthAfter?_append (depthAfter?_flat flatBefore 0), depthAfter?_opening,
      depthAfter?_add read 1]

end NativePeer.Text
