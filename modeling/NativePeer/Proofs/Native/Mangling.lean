import NativePeer.Native.Mangling

/-
This file shows which letters a mangled name has and how long it is.
-/

namespace NativePeer

/-- The letters of every native symbol. -/
def isSymbolLetter (letter : Char) : Bool :=
  letter.isAlphanum || letter = '_'

namespace SymbolRole

variable (role : SymbolRole)

@[simp] theorem toList_mangle (name : String) :
    (role.mangle name).toList = name.toList.flatMap role.mangleLetter := by
  simp [mangle]

theorem isAlphanum_digitChar (code : Nat) : (Nat.digitChar (code % 16)).isAlphanum = true := by
  have inRange : code % 16 < 16 := Nat.mod_lt _ (by decide)
  have everyDigit : ∀ digit < 16, (Nat.digitChar digit).isAlphanum = true := by decide
  exact everyDigit _ inRange

theorem isSymbolLetter_of_mem_hexDigits {unit : Nat} {shown : Char}
    (member : shown ∈ Text.hexDigits unit) : isSymbolLetter shown = true := by
  simp only [Text.hexDigits, List.mem_cons, List.not_mem_nil, or_false] at member
  rcases member with same | same | same | same <;>
    rw [same, isSymbolLetter, isAlphanum_digitChar, Bool.true_or]

/-- Every replacement is an underscore, alone or with one more letter. -/
theorem replacement?_letters {letter : Char} {text : String}
    (replaced : role.replacement? letter = some text) :
    text.toList ≠ [] ∧ ∀ shown ∈ text.toList, isSymbolLetter shown = true := by
  have checked : text.toList ≠ [] ∧ text.toList.all isSymbolLetter = true := by
    unfold replacement? at replaced
    split at replaced <;> cases replaced <;> exact ⟨by decide, by decide⟩
  exact ⟨checked.1, List.all_eq_true.mp checked.2⟩

theorem mangleLetter_ne_nil (letter : Char) : role.mangleLetter letter ≠ [] := by
  unfold mangleLetter
  split
  · simp
  · split
    · next replaced => exact (role.replacement?_letters replaced).1
    · unfold Text.codeUnits
      split <;> simp

theorem isSymbolLetter_of_mem_mangleLetter {letter shown : Char}
    (member : shown ∈ role.mangleLetter letter) : isSymbolLetter shown = true := by
  unfold mangleLetter at member
  split at member
  · next plain =>
    rw [List.mem_singleton.mp member, isSymbolLetter, plain, Bool.true_or]
  · split at member
    · next replaced => exact (role.replacement?_letters replaced).2 shown member
    · obtain ⟨unit, _, written⟩ := List.mem_flatMap.mp member
      simp only [List.mem_cons] at written
      rcases written with same | same | digit
      · rw [same]; decide
      · rw [same]; decide
      · exact isSymbolLetter_of_mem_hexDigits digit

/-- A mangled name consists of ASCII letters, digits and underscores. -/
theorem isSymbolLetter_of_mem_mangle {name : String} {shown : Char}
    (member : shown ∈ (role.mangle name).toList) : isSymbolLetter shown = true := by
  rw [toList_mangle] at member
  obtain ⟨letter, _, written⟩ := List.mem_flatMap.mp member
  exact role.isSymbolLetter_of_mem_mangleLetter written

/-- A letter is written with at least one letter. -/
theorem one_le_length_mangleLetter (letter : Char) : 1 ≤ (role.mangleLetter letter).length :=
  List.length_pos_iff.mpr (role.mangleLetter_ne_nil letter)

theorem length_le_length_flatMap_mangleLetter (letters : List Char) :
    letters.length ≤ (letters.flatMap role.mangleLetter).length := by
  induction letters with
  | nil => exact Nat.le_refl 0
  | cons letter letters inductionHypothesis =>
    calc (letter :: letters).length
        = letters.length + 1 := List.length_cons
      _ ≤ (letters.flatMap role.mangleLetter).length + (role.mangleLetter letter).length :=
          Nat.add_le_add inductionHypothesis (role.one_le_length_mangleLetter letter)
      _ = ((letter :: letters).flatMap role.mangleLetter).length := by
          rw [List.flatMap_cons, List.length_append, Nat.add_comm]

/-- Mangling never shortens a name. -/
theorem length_le_length_mangle (name : String) :
    name.length ≤ (role.mangle name).length := by
  simpa [← String.length_toList] using role.length_le_length_flatMap_mangleLetter name.toList

end SymbolRole

end NativePeer
