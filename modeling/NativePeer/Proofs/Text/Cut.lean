import Mathlib.Data.List.Forall2
import NativePeer.Text.Split

/-
This file shows that what has been put together is cut into the same parts again.
-/

namespace NativePeer.Text

section Cuts

variable {A : Type} [DecidableEq A] {mark : A} {before after : List A} (unmarked : mark ∉ before)

include unmarked

theorem dropWhile_ne_append_cons :
    (before ++ mark :: after).dropWhile (· ≠ mark) = mark :: after := by
  have other : ∀ value ∈ before, decide (value ≠ mark) = true := fun value member =>
    decide_eq_true fun same => unmarked (same ▸ member)
  rw [List.dropWhile_append_of_pos other, List.dropWhile_cons_of_neg (by simp)]

theorem takeWhile_ne_append_cons : (before ++ mark :: after).takeWhile (· ≠ mark) = before := by
  have other : ∀ value ∈ before, decide (value ≠ mark) = true := fun value member =>
    decide_eq_true fun same => unmarked (same ▸ member)
  rw [List.takeWhile_append_of_pos other, List.takeWhile_cons_of_neg (by simp), List.append_nil]

end Cuts

/-- A mark ends what comes before it. -/
theorem append_cons_cancel {A : Type} [DecidableEq A] {mark : A}
    {first second firstRest secondRest : List A} (firstUnmarked : mark ∉ first)
    (secondUnmarked : mark ∉ second)
    (same : first ++ mark :: firstRest = second ++ mark :: secondRest) :
    first = second ∧ firstRest = secondRest := by
  have sameBefore := congrArg (List.takeWhile (· ≠ mark)) same
  rw [takeWhile_ne_append_cons firstUnmarked, takeWhile_ne_append_cons secondUnmarked] at sameBefore
  have sameAfter := congrArg (List.dropWhile (· ≠ mark)) same
  rw [dropWhile_ne_append_cons firstUnmarked, dropWhile_ne_append_cons secondUnmarked] at sameAfter
  exact ⟨sameBefore, (List.cons.inj sameAfter).2⟩

/-- Text without a separator joins the first of the pieces after it. -/
theorem pieces_append {separator : Char} {first : List Char} (absent : separator ∉ first)
    (second : List Char) :
    pieces separator (first ++ second) =
      (pieces separator second).modifyHead (first ++ ·) := by
  induction first with
  | nil => exact (congrFun List.modifyHead_id (pieces separator second)).symm
  | cons letter letters inductionHypothesis =>
    rw [List.mem_cons, not_or] at absent
    rw [List.cons_append, pieces, if_neg (Ne.symm absent.1), inductionHypothesis absent.2]
    have nonempty := pieces_ne_nil separator second
    cases shape : pieces separator second with
    | nil => exact absurd shape nonempty
    | cons piece rest => rfl

/-- A separated sequence is cut at the first letter of its separators. -/
theorem pieces_intercalate {separator : String} {mark : Char} {between : List Char}
    (begun : separator.toList = mark :: between) {text : String} {texts : List String}
    (unmarked : ∀ part ∈ text :: texts, mark ∉ part.toList) (free : mark ∉ between) :
    pieces mark (separator.intercalate (text :: texts)).toList =
      text.toList :: texts.map fun part => between ++ part.toList := by
  induction texts generalizing text with
  | nil =>
    rw [String.intercalate_singleton, pieces_of_not_mem (unmarked text List.mem_cons_self)]
    rfl
  | cons next texts inductionHypothesis =>
    rw [List.forall_mem_cons] at unmarked
    rw [String.intercalate_cons_cons, String.toList_append, String.toList_append, begun,
      List.append_assoc, List.cons_append, pieces_append_cons, pieces_of_not_mem unmarked.1,
      pieces_append free, inductionHypothesis unmarked.2]
    rfl

/-- A sequence of nonempty texts is told by its separated form. -/
theorem intercalate_injective {separator : String} {mark : Char} {between : List Char}
    (begun : separator.toList = mark :: between) (free : mark ∉ between)
    {firsts seconds : List String} (firstPlain : ∀ text ∈ firsts, text ≠ "" ∧ mark ∉ text.toList)
    (secondPlain : ∀ text ∈ seconds, text ≠ "" ∧ mark ∉ text.toList)
    (same : separator.intercalate firsts = separator.intercalate seconds) : firsts = seconds := by
  have cut {text : String} {texts : List String}
      (plain : ∀ part ∈ text :: texts, part ≠ "" ∧ mark ∉ part.toList) :=
    pieces_intercalate begun (fun part member => (plain part member).2) free
  have filled {text : String} {texts : List String}
      (plain : ∀ part ∈ text :: texts, part ≠ "" ∧ mark ∉ part.toList) :
      separator.intercalate (text :: texts) ≠ "" := by
    intro empty
    have read := cut plain
    rw [empty] at read
    exact (plain text List.mem_cons_self).1 (String.toList_injective (List.cons.inj read).1.symm)
  cases firsts with
  | nil =>
    cases seconds with
    | nil => rfl
    | cons second seconds => exact absurd same.symm (filled secondPlain)
  | cons first firsts =>
    cases seconds with
    | nil => exact absurd same (filled firstPlain)
    | cons second seconds =>
      have read := (cut firstPlain).symm.trans ((congrArg (fun text => pieces mark text.toList)
        same).trans (cut secondPlain))
      obtain ⟨sameFirst, sameRest⟩ := List.cons.inj read
      have injective (left right : String)
          (equal : between ++ left.toList = between ++ right.toList) : left = right :=
        String.toList_injective (List.append_cancel_left equal)
      rw [String.toList_injective sameFirst, (List.map_inj_right injective).mp sameRest]

/-- Sequences of blocks of one length are told apart by their blocks. -/
theorem forall₂_of_flatMap_eq {A B : Type} {block : A → List B} {size : Nat}
    (sized : ∀ value, (block value).length = size + 1) {firsts seconds : List A}
    (same : firsts.flatMap block = seconds.flatMap block) :
    List.Forall₂ (fun first second => block first = block second) firsts seconds := by
  induction firsts generalizing seconds with
  | nil =>
    cases seconds with
    | nil => exact .nil
    | cons second seconds =>
      have lengths := congrArg List.length same
      simp only [List.flatMap_nil, List.flatMap_cons, List.length_nil, List.length_append,
        sized] at lengths
      omega
  | cons first firsts inductionHypothesis =>
    cases seconds with
    | nil =>
      have lengths := congrArg List.length same
      simp only [List.flatMap_nil, List.flatMap_cons, List.length_nil, List.length_append,
        sized] at lengths
      omega
    | cons second seconds =>
      rw [List.flatMap_cons, List.flatMap_cons] at same
      obtain ⟨sameBlock, rest⟩ := List.append_inj same ((sized first).trans (sized second).symm)
      exact .cons sameBlock (inductionHypothesis rest)

end NativePeer.Text
