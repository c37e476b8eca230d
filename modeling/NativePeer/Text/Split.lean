/-
This file cuts text at a separator.
-/

namespace NativePeer.Text

/-- There is one piece more than there are separators. -/
def pieces (separator : Char) : List Char → List (List Char)
  | [] => [[]]
  | letter :: letters =>
    if letter = separator then [] :: pieces separator letters
    else match pieces separator letters with
      | [] => [[letter]]
      | piece :: rest => (letter :: piece) :: rest

theorem pieces_ne_nil (separator : Char) (letters : List Char) :
    pieces separator letters ≠ [] := by
  cases letters with
  | nil => simp [pieces]
  | cons letter letters =>
    rw [pieces]
    split
    · simp
    · split <;> simp

/-- The pieces make up the text if a separator follows each of them but the last. -/
theorem flatMap_pieces (separator : Char) (letters : List Char) :
    (pieces separator letters).flatMap (· ++ [separator]) = letters ++ [separator] := by
  induction letters with
  | nil => simp [pieces]
  | cons letter letters inductionHypothesis =>
    rw [pieces]
    split
    · next same => rw [List.flatMap_cons, inductionHypothesis, same]; rfl
    · cases shape : pieces separator letters with
      | nil => exact absurd shape (pieces_ne_nil separator letters)
      | cons piece rest =>
        rw [shape] at inductionHypothesis
        exact congrArg (letter :: ·) inductionHypothesis

theorem not_mem_of_mem_pieces {separator : Char} {letters piece : List Char}
    (member : piece ∈ pieces separator letters) : separator ∉ piece := by
  induction letters generalizing piece with
  | nil => simp_all [pieces]
  | cons letter letters inductionHypothesis =>
    rw [pieces] at member
    split at member
    · rcases List.mem_cons.mp member with rfl | later
      · exact List.not_mem_nil
      · exact inductionHypothesis later
    · next other =>
      cases shape : pieces separator letters with
      | nil => exact absurd shape (pieces_ne_nil separator letters)
      | cons first rest =>
        rw [shape] at member inductionHypothesis
        rcases List.mem_cons.mp member with rfl | later
        · rw [List.mem_cons, not_or]
          exact ⟨Ne.symm other, inductionHypothesis List.mem_cons_self⟩
        · exact inductionHypothesis (List.mem_cons_of_mem _ later)

theorem pieces_of_not_mem {separator : Char} {letters : List Char} (absent : separator ∉ letters) :
    pieces separator letters = [letters] := by
  induction letters with
  | nil => rfl
  | cons letter letters inductionHypothesis =>
    simp only [List.mem_cons, not_or] at absent
    rw [pieces, if_neg (Ne.symm absent.1), inductionHypothesis absent.2]

theorem pieces_append_cons {separator : Char} (first second : List Char) :
    pieces separator (first ++ separator :: second) =
      pieces separator first ++ pieces separator second := by
  induction first with
  | nil => simp [pieces]
  | cons letter letters inductionHypothesis =>
    rw [List.cons_append, pieces, pieces, inductionHypothesis]
    have nonempty := pieces_ne_nil separator letters
    cases shape : pieces separator letters with
    | nil => exact absurd shape nonempty
    | cons piece rest => split <;> simp

/-- The piece after the last separator. -/
def lastPiece (separator : Char) (letters : List Char) : List Char :=
  (pieces separator letters).getLast (pieces_ne_nil separator letters)

end NativePeer.Text
