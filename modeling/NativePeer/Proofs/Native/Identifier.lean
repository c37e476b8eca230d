import NativePeer.Namespace
import NativePeer.Proofs.Text.Letters

/-
This file says which texts are native identifiers.
-/

namespace NativePeer

def IsIdentifierStart (letter : Char) : Prop :=
  'A' ≤ letter ∧ letter ≤ 'Z' ∨ 'a' ≤ letter ∧ letter ≤ 'z' ∨ letter = '_'

def IsIdentifierPart (letter : Char) : Prop :=
  IsIdentifierStart letter ∨ '0' ≤ letter ∧ letter ≤ '9'

instance (letter : Char) : Decidable (IsIdentifierStart letter) :=
  inferInstanceAs (Decidable (_ ∨ _))

/-- An identifier consists of ASCII letters, digits and underscores and begins with no digit. -/
structure IsIdentifier (text : String) : Prop where
  starts : ∃ first ∈ text.toList.head?, IsIdentifierStart first
  letters : Text.Within IsIdentifierPart text

theorem isLetter_iff {letter : Char} :
    Namespace.isLetter letter = true ↔ IsIdentifierStart letter := by
  rw [Namespace.isLetter, IsIdentifierStart]
  delta Char.isAlpha Char.isUpper Char.isLower
  simp only [Bool.or_eq_true, Bool.and_eq_true, decide_eq_true_eq, or_assoc]
  rfl

theorem isDigit_iff {letter : Char} : letter.isDigit = true ↔ '0' ≤ letter ∧ letter ≤ '9' := by
  delta Char.isDigit
  simp only [Bool.and_eq_true, decide_eq_true_eq]
  rfl

/-- The letters of a symbol are those of an identifier. -/
theorem isSymbolLetter_iff {letter : Char} :
    isSymbolLetter letter = true ↔ IsIdentifierPart letter := by
  simp only [IsIdentifierPart, ← isLetter_iff, ← isDigit_iff, isSymbolLetter, Namespace.isLetter,
    Char.isAlphanum, Bool.or_eq_true]
  exact or_right_comm

theorem isIdentifier_iff {text : String} :
    Namespace.isIdentifier text.toList = true ↔ IsIdentifier text := by
  have parts : IsIdentifier text ↔ (∃ first ∈ text.toList.head?, IsIdentifierStart first) ∧
      ∀ letter ∈ text.toList, IsIdentifierPart letter :=
    ⟨fun whole => ⟨whole.starts, whole.letters⟩, fun both => ⟨both.1, both.2⟩⟩
  rw [parts]
  cases text.toList with
  | nil => simp [Namespace.isIdentifier]
  | cons first rest =>
    simp only [Namespace.isIdentifier, Bool.and_eq_true, List.all_eq_true, Bool.or_eq_true,
      isLetter_iff, isDigit_iff, List.head?_cons, Option.mem_some_iff, exists_eq_left',
      List.forall_mem_cons]
    exact ⟨fun both => ⟨both.1, .inl both.1, both.2⟩, fun both => ⟨both.1, both.2.2⟩⟩

instance (text : String) : Decidable (IsIdentifier text) :=
  decidable_of_iff _ isIdentifier_iff

theorem isValid_iff {home : Namespace} :
    home.isValid = true ↔ ∀ segment ∈ home.segments, IsIdentifier segment := by
  simp only [Namespace.isValid, List.all_eq_true, isIdentifier_iff]

end NativePeer
