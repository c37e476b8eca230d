import Mathlib.Data.List.TakeWhile
import NativePeer.Text.Blank

/-
This file says what trimming leaves of a text.
-/

namespace NativePeer.Text

def AllBlank (letters : List Char) : Prop :=
  ∀ letter ∈ letters, isBlank letter = true

instance (letters : List Char) : Decidable (AllBlank letters) :=
  List.decidableBAll (isBlank · = true) letters

theorem isBlank_of_visible {letter : Char} (above : 0x20 < letter.toNat)
    (below : letter.toNat < 0x7F) : isBlank letter = false := by
  simp [isBlank, blankRanges]
  omega

/-- Text that neither begins nor ends with white space. -/
structure IsTrimmed (letters : List Char) : Prop where
  head : ∀ letter ∈ letters.head?, isBlank letter = false
  last : ∀ letter ∈ letters.getLast?, isBlank letter = false

theorem IsTrimmed.reverse {letters : List Char} (trimmed : IsTrimmed letters) :
    IsTrimmed letters.reverse where
  head := by simpa using trimmed.last
  last := by simpa using trimmed.head

theorem AllBlank.reverse {letters : List Char} (blank : AllBlank letters) :
    AllBlank letters.reverse := by
  simpa [AllBlank] using blank

theorem dropBlanks_append {blanks : List Char} (blank : AllBlank blanks) (letters : List Char) :
    dropBlanks (blanks ++ letters) = dropBlanks letters :=
  List.dropWhile_append_of_pos blank

theorem dropBlanks_of_head {letters : List Char}
    (head : ∀ letter ∈ letters.head?, isBlank letter = false) : dropBlanks letters = letters := by
  cases letters with
  | nil => rfl
  | cons letter letters =>
    have visible := head letter (by simp)
    rw [dropBlanks, List.dropWhile_cons_of_neg (by simp [visible])]

theorem head_dropBlanks (letters : List Char) :
    ∀ letter ∈ (dropBlanks letters).head?, isBlank letter = false := by
  intro letter first
  have stops := List.head?_dropWhile_not isBlank letters
  rw [← dropBlanks, Option.mem_def.mp first] at stops
  exact stops

theorem exists_dropBlanks (letters : List Char) :
    ∃ blanks, AllBlank blanks ∧ letters = blanks ++ dropBlanks letters :=
  ⟨letters.takeWhile isBlank, fun _ member => List.mem_takeWhile_imp member,
    List.takeWhile_append_dropWhile.symm⟩

/-- Of white space nothing is left. -/
theorem trim_of_allBlank {letters : List Char} (blank : AllBlank letters) : trim letters = [] := by
  have nothing := dropBlanks_append blank []
  rw [List.append_nil] at nothing
  rw [trim, nothing]
  rfl

/-- White space around trimmed text is taken away. -/
theorem trim_append {before letters after : List Char} (begun : AllBlank before)
    (ended : AllBlank after) (trimmed : IsTrimmed letters) :
    trim (before ++ letters ++ after) = letters := by
  by_cases empty : letters = []
  · rw [empty, List.append_nil]
    exact trim_of_allBlank (List.forall_mem_append.mpr ⟨begun, ended⟩)
  · have head : ∀ letter ∈ (letters ++ after).head?, isBlank letter = false := by
      obtain ⟨first, rest, rfl⟩ := List.exists_cons_of_ne_nil empty
      simpa using trimmed.head
    rw [trim, List.append_assoc, dropBlanks_append begun, dropBlanks_of_head head,
      dropFinalBlanks, List.reverse_append, dropBlanks_append ended.reverse,
      dropBlanks_of_head trimmed.reverse.head, List.reverse_reverse]

theorem trim_of_isTrimmed {letters : List Char} (trimmed : IsTrimmed letters) :
    trim letters = letters := by
  have whole := trim_append (List.forall_mem_nil _) (List.forall_mem_nil _) trimmed
  rwa [List.nil_append, List.append_nil] at whole

/-- Trimming takes white space away at both ends and leaves trimmed text. -/
theorem exists_trim (letters : List Char) :
    IsTrimmed (trim letters) ∧ ∃ before after, AllBlank before ∧ AllBlank after ∧
      letters = before ++ trim letters ++ after := by
  obtain ⟨before, begun, split⟩ := exists_dropBlanks letters
  obtain ⟨final, ended, finalSplit⟩ := exists_dropBlanks (dropBlanks letters).reverse
  have cut : dropBlanks letters = trim letters ++ final.reverse := by
    rw [trim, dropFinalBlanks, ← List.reverse_append, ← finalSplit, List.reverse_reverse]
  have visible := head_dropBlanks letters
  rw [cut] at visible
  refine ⟨⟨?_, ?_⟩, before, final.reverse, begun, ended.reverse, ?_⟩
  · intro letter first
    apply visible
    rw [List.head?_append, Option.mem_def.mp first]
    rfl
  · rw [trim, dropFinalBlanks, List.getLast?_reverse]
    exact head_dropBlanks _
  · rw [List.append_assoc, ← cut, ← split]

end NativePeer.Text
