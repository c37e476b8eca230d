import NativePeer.Constant
import NativePeer.Proofs.Number.Numeral
import NativePeer.Proofs.Text.Blank

/-
This file says which texts are character constants.
-/

namespace NativePeer

namespace Text

/-- The text consists of a body and white space around it. -/
def Surrounds (text : String) (body : List Char) : Prop :=
  ∃ before after, AllBlank before ∧ AllBlank after ∧ text.toList = before ++ body ++ after

theorem trim_of_surrounds {text : String} {body : List Char} (surrounds : Surrounds text body)
    (trimmed : IsTrimmed body) : trim text.toList = body := by
  obtain ⟨before, after, begun, ended, whole⟩ := surrounds
  rw [whole]
  exact trim_append begun ended trimmed

theorem surrounds_trim (text : String) : Surrounds text (trim text.toList) := by
  obtain ⟨_, before, after, begun, ended, whole⟩ := exists_trim text.toList
  exact ⟨before, after, begun, ended, whole⟩

/-- With a blank body the text is nothing but white space. -/
theorem trim_of_surrounds_blank {text : String} {letter : Char}
    (surrounds : Surrounds text [letter]) (blank : isBlank letter = true) :
    trim text.toList = [] := by
  obtain ⟨before, after, begun, ended, whole⟩ := surrounds
  refine trim_of_allBlank ?_
  rw [whole, AllBlank, List.forall_mem_append, List.forall_mem_append, List.forall_mem_singleton]
  exact ⟨⟨begun, blank⟩, ended⟩

end Text

open Text Number

/-- White space is no part of a numeral. -/
theorem Number.Numeral.isTrimmed_letters (numeral : Numeral) : IsTrimmed numeral.letters := by
  have visible : ∀ letter ∈ numeral.letters, isBlank letter = false := by
    intro letter member
    have shape : letter = '+' ∨ letter.isDigit = true := by
      rw [Numeral.letters] at member
      split at member
      · exact (List.mem_cons.mp member).imp_right (numeral.numeric letter)
      · exact .inr (numeral.numeric letter member)
    rcases shape with rfl | digit
    · decide
    · obtain ⟨above, below⟩ := Char.isDigit_iff_toNat.mp digit
      exact isBlank_of_visible (Nat.lt_of_lt_of_le (by decide) above)
        (Nat.lt_of_le_of_lt below (by decide))
  exact ⟨fun letter first => visible letter (List.mem_of_mem_head? first),
    fun letter last => visible letter (List.mem_of_getLast? last)⟩

namespace Constant

theorem natural?_singleton {letter : Char} (other : letter.isDigit = false) :
    natural? [letter] = none := by
  cases read : natural? [letter] with
  | none => rfl
  | some value =>
    obtain ⟨⟨signed, digits, filled, numeric⟩, single, _⟩ := exists_numeral read
    cases signed with
    | true => exact absurd (List.cons.inj single).2 filled
    | false =>
      change digits = [letter] at single
      rw [single, List.forall_mem_singleton, other] at numeric
      cases numeric

theorem codeUnit?_singleton {letter : Char} (other : letter.isDigit = false) :
    codeUnit? [letter] = singleUnit? letter := by
  unfold codeUnit?
  rw [natural?_singleton other]
  rfl

/-- A numeral is never taken for a letter. -/
theorem codeUnit?_letters (numeral : Numeral) :
    codeUnit? numeral.letters =
      if numeral.value < 0x10000 then some numeral.value.toUInt16 else none := by
  unfold codeUnit?
  rw [natural?_letters, Option.filter_some]
  by_cases small : numeral.value < 0x10000
  · simp [small]
  · rw [if_neg small]
    simp only [small, decide_false, Bool.false_eq_true, if_false]
    cases shape : numeral.letters with
    | nil => rfl
    | cons letter letters =>
      cases letters with
      | nil => exact absurd (numeral.value_lt_ten shape) (by omega)
      | cons => rfl

theorem codeUnit?_eq_none {letters : List Char} (unread : natural? letters = none)
    (supplementary : ∀ letter, letters = [letter] → 0x10000 ≤ letter.toNat) :
    codeUnit? letters = none := by
  unfold codeUnit?
  rw [unread, Option.filter_none]
  match letters with
  | [] => rfl
  | [letter] => exact if_neg (Nat.not_lt.mpr (supplementary letter rfl))
  | _ :: _ :: _ => rfl

theorem parse?_char (text : String) :
    parse? .char text = (codeUnit? (trim text.toList)).map .char := rfl

/-- A letter that is no digit stands for its code unit unless it is white space, a numeral stands
for its value if that is a code unit, and no other text is a character. -/
theorem parse?_char_texts (text : String) :
    (∀ letter, Surrounds text [letter] → letter.isDigit = false → letter.toNat < 0x10000 →
      parse? .char text =
        if isBlank letter then none else some (.char letter.toNat.toUInt16)) ∧
    (∀ numeral : Numeral, Surrounds text numeral.letters →
      parse? .char text =
        if numeral.value < 0x10000 then some (.char numeral.value.toUInt16) else none) ∧
    ((∀ letter, Surrounds text [letter] → 0x10000 ≤ letter.toNat) →
      (∀ numeral : Numeral, ¬ Surrounds text numeral.letters) → parse? .char text = none) := by
  refine ⟨?_, ?_, ?_⟩
  · intro letter surrounds other plain
    rw [parse?_char]
    cases blank : isBlank letter with
    | true =>
      rw [trim_of_surrounds_blank surrounds blank]
      rfl
    | false =>
      have trimmed : IsTrimmed [letter] := ⟨by simpa using blank, by simpa using blank⟩
      rw [trim_of_surrounds surrounds trimmed, codeUnit?_singleton other]
      simp [singleUnit?, plain]
  · intro numeral surrounds
    rw [parse?_char, trim_of_surrounds surrounds numeral.isTrimmed_letters, codeUnit?_letters]
    split <;> rfl
  · intro unlettered unnumbered
    have surrounds := surrounds_trim text
    have unread : natural? (trim text.toList) = none := by
      cases read : natural? (trim text.toList) with
      | none => rfl
      | some value =>
        obtain ⟨numeral, same, _⟩ := exists_numeral read
        exact absurd (same ▸ surrounds) (unnumbered numeral)
    rw [parse?_char, codeUnit?_eq_none unread fun letter single =>
      unlettered letter (single ▸ surrounds)]
    rfl

/-- White space around a letter does not count, but white space is no letter. -/
theorem parse?_char_texts_spaced :
    parse? .char " \u20AC\t" = some (.char 0x20AC) ∧ parse? .char " \t" = none ∧
      parse? .char " +00065" = some (.char 65) ∧ parse? .char "" = none := by
  refine ⟨?_, ?_, ?_, ?_⟩
  · exact (parse?_char_texts " \u20AC\t").1 '\u20AC'
      ⟨[' '], ['\t'], by decide, by decide, by decide⟩ (by decide) (by decide)
  · exact (parse?_char_texts " \t").1 ' ' ⟨[], ['\t'], by decide, by decide, by decide⟩
      (by decide) (by decide)
  · exact (parse?_char_texts " +00065").2.1
      ⟨true, ['0', '0', '0', '6', '5'], by decide, List.all_eq_true.mp rfl⟩
      ⟨[' '], [], by decide, by decide, by decide⟩
  · apply (parse?_char_texts "").2.2
    · rintro letter ⟨before, after, _, _, whole⟩
      simp at whole
    · rintro numeral ⟨before, after, _, _, whole⟩
      have empty := (List.append_eq_nil_iff.mp (List.append_eq_nil_iff.mp whole.symm).1).2
      exact numeral.letters_ne_nil empty

end Constant

end NativePeer
