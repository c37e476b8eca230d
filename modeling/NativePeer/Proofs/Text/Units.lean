import NativePeer.Text.Units

/-
This file shows that code units read back from their digits and characters from their code units.
-/

namespace NativePeer.Text

/-- No word of the code goes on after another one, so that a text tells where its words end. -/
def PrefixFree {A B : Type} (allowed : A → Prop) (code : A → List B) : Prop :=
  ∀ first second, allowed first → allowed second → ∀ firstRest secondRest,
    code first ++ firstRest = code second ++ secondRest →
      first = second ∧ firstRest = secondRest

namespace PrefixFree

variable {A B C : Type} {allowed : A → Prop} {code : A → List B}

/-- Two sequences of words agree up to the end of the shorter one. -/
theorem split (free : PrefixFree allowed code) {firsts seconds : List A}
    (firstAllowed : ∀ value ∈ firsts, allowed value)
    (secondAllowed : ∀ value ∈ seconds, allowed value) {firstRest secondRest : List B}
    (same : firsts.flatMap code ++ firstRest = seconds.flatMap code ++ secondRest) :
    ∃ more, (firsts = seconds ++ more ∧ more.flatMap code ++ firstRest = secondRest) ∨
      (seconds = firsts ++ more ∧ firstRest = more.flatMap code ++ secondRest) := by
  induction firsts generalizing seconds with
  | nil => exact ⟨seconds, .inr ⟨rfl, same⟩⟩
  | cons first firsts inductionHypothesis =>
    cases seconds with
    | nil => exact ⟨first :: firsts, .inl ⟨rfl, same⟩⟩
    | cons second seconds =>
      rw [List.forall_mem_cons] at firstAllowed secondAllowed
      rw [List.flatMap_cons, List.flatMap_cons, List.append_assoc, List.append_assoc] at same
      obtain ⟨rfl, sameRest⟩ := free first second firstAllowed.1 secondAllowed.1 _ _ same
      obtain ⟨more, longer⟩ := inductionHypothesis firstAllowed.2 secondAllowed.2 sameRest
      refine ⟨more, ?_⟩
      simpa only [List.cons_append, List.cons.injEq, true_and] using longer

/-- Words may stand side by side. -/
theorem eq_of_flatMap_eq (free : PrefixFree allowed code) (nonempty : ∀ value, code value ≠ [])
    {firsts seconds : List A} (firstAllowed : ∀ value ∈ firsts, allowed value)
    (secondAllowed : ∀ value ∈ seconds, allowed value)
    (same : firsts.flatMap code = seconds.flatMap code) : firsts = seconds := by
  have padded : firsts.flatMap code ++ [] = seconds.flatMap code ++ [] := by rw [same]
  have empty {more : List A} (none : more.flatMap code = []) : more = [] := by
    cases more with
    | nil => rfl
    | cons value others =>
      rw [List.flatMap_cons] at none
      exact absurd (List.append_eq_nil_iff.mp none).1 (nonempty value)
  obtain ⟨more, ⟨longer, rest⟩ | ⟨longer, rest⟩⟩ := free.split firstAllowed secondAllowed padded
  · have none : more = [] := empty (by simpa using rest)
    rw [longer, none, List.append_nil]
  · have none : more = [] := empty (by simpa using rest.symm)
    rw [longer, none, List.append_nil]

/-- A prefix-free code may be spelled in another one. -/
theorem spell {small : B → Prop} {spelling : B → List C} (free : PrefixFree allowed code)
    (spelled : PrefixFree small spelling) (within : ∀ value, ∀ part ∈ code value, small part) :
    PrefixFree allowed fun value => (code value).flatMap spelling := by
  intro first second firstAllowed secondAllowed firstRest secondRest same
  obtain ⟨more, ⟨longer, rest⟩ | ⟨longer, rest⟩⟩ :=
    spelled.split (within first) (within second) same
  · obtain ⟨sameValue, none⟩ := free first second firstAllowed secondAllowed [] more (by simpa)
    rw [← none] at rest
    exact ⟨sameValue, rest⟩
  · obtain ⟨sameValue, none⟩ :=
      free first second firstAllowed secondAllowed more [] (by simp [longer])
    rw [none] at rest
    exact ⟨sameValue, rest⟩

end PrefixFree

theorem digitChar_injective {first second : Nat} (firstSmall : first < 16)
    (secondSmall : second < 16) (same : Nat.digitChar first = Nat.digitChar second) :
    first = second := by
  have distinct : ∀ digit < 16, ∀ other < 16,
      Nat.digitChar digit = Nat.digitChar other → digit = other := by decide
  exact distinct first firstSmall second secondSmall same

/-- Four digits tell a code unit. -/
theorem hexDigits_prefixFree : PrefixFree (· < 0x10000) hexDigits := by
  intro first second firstSmall secondSmall firstRest secondRest same
  simp only [hexDigits, List.cons_append, List.nil_append, List.cons.injEq] at same
  obtain ⟨thousands, hundreds, tens, units, sameRest⟩ := same
  have digit (code : Nat) : code % 16 < 16 := Nat.mod_lt _ (by decide)
  have sameThousands := digitChar_injective (digit _) (digit _) thousands
  have sameHundreds := digitChar_injective (digit _) (digit _) hundreds
  have sameTens := digitChar_injective (digit _) (digit _) tens
  have sameUnits := digitChar_injective (digit _) (digit _) units
  exact ⟨by omega, sameRest⟩

/-- A character has one code unit below the surrogates or above them, or a pair of surrogates. -/
theorem codeUnits_cases (letter : Char) :
    (codeUnits letter = [letter.toNat] ∧ letter.toNat < 0x10000 ∧
        (letter.toNat < 0xD800 ∨ 0xDFFF < letter.toNat)) ∨
      ∃ offset < 0x100000, letter.toNat = 0x10000 + offset ∧
        codeUnits letter = [0xD800 + offset / 0x400, 0xDC00 + offset % 0x400] := by
  have valid : letter.toNat < 0xD800 ∨ 0xDFFF < letter.toNat ∧ letter.toNat < 0x110000 :=
    letter.valid
  unfold codeUnits
  split
  · next small => exact .inl ⟨rfl, small, by omega⟩
  · next large => exact .inr ⟨letter.toNat - 0x10000, by omega, by omega, rfl⟩

theorem lt_of_mem_codeUnits {letter : Char} {unit : Nat} (member : unit ∈ codeUnits letter) :
    unit < 0x10000 := by
  rcases codeUnits_cases letter with ⟨single, small, _⟩ | ⟨offset, inRange, _, pair⟩
  · rw [single, List.mem_singleton] at member
    omega
  · simp only [pair, List.mem_cons, List.not_mem_nil, or_false] at member
    omega

/-- The first unit of a character tells whether there is a second one. -/
theorem codeUnits_prefixFree : PrefixFree (fun _ => True) codeUnits := by
  intro first second _ _ firstRest secondRest same
  rcases codeUnits_cases first with ⟨firstUnits, _, firstOutside⟩ |
      ⟨firstOffset, firstInside, firstCode, firstUnits⟩ <;>
    rcases codeUnits_cases second with ⟨secondUnits, _, secondOutside⟩ |
      ⟨secondOffset, secondInside, secondCode, secondUnits⟩ <;>
    rw [firstUnits, secondUnits] at same <;>
    simp only [List.cons_append, List.nil_append, List.cons.injEq] at same
  · exact ⟨Char.toNat_inj.mp same.1, same.2⟩
  · omega
  · omega
  · exact ⟨Char.toNat_inj.mp (by omega), same.2.2⟩

theorem codeUnits_ne_nil (letter : Char) : codeUnits letter ≠ [] := by
  unfold codeUnits
  split <;> simp

end NativePeer.Text
