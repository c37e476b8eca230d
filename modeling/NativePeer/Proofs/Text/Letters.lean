import NativePeer.Proofs.Native.Mangling

/-
This file says which letters stand in a text.
-/

namespace NativePeer

namespace Text

/-- Whether every letter of a text is allowed. -/
def Within (allowed : Char → Prop) (text : String) : Prop :=
  ∀ letter ∈ text.toList, allowed letter

instance (allowed : Char → Prop) [DecidablePred allowed] (text : String) :
    Decidable (Within allowed text) :=
  decidable_of_iff (text.toList.all fun letter => decide (allowed letter)) (by simp [Within])

section Within

variable {allowed : Char → Prop}

theorem within_append {first second : String} :
    Within allowed (first ++ second) ↔ Within allowed first ∧ Within allowed second := by
  rw [Within, String.toList_append, List.forall_mem_append]
  rfl

theorem within_join {texts : List String} (every : ∀ text ∈ texts, Within allowed text) :
    Within allowed (String.join texts) := by
  intro letter member
  rw [String.toList_join] at member
  obtain ⟨text, listed, inside⟩ := List.mem_flatMap.mp member
  exact every text listed letter inside

theorem within_intercalate {separator : String} {texts : List String}
    (between : Within allowed separator) (every : ∀ text ∈ texts, Within allowed text) :
    Within allowed (separator.intercalate texts) := by
  induction texts with
  | nil => simp [Within]
  | cons text texts inductionHypothesis =>
    rw [List.forall_mem_cons] at every
    cases texts with
    | nil => simpa using every.1
    | cons next texts =>
      rw [String.intercalate_cons_cons, within_append, within_append]
      exact ⟨⟨every.1, between⟩, inductionHypothesis every.2⟩

theorem Within.mono {other : Char → Prop} {text : String} (within : Within allowed text)
    (weaker : ∀ letter, allowed letter → other letter) : Within other text :=
  fun letter member => weaker letter (within letter member)

end Within

theorem Within.not_mem {allowed : Char → Bool} {text : String}
    (within : Within (allowed · = true) text) {mark : Char} (other : allowed mark = false) :
    mark ∉ text.toList :=
  fun member => Bool.false_ne_true (other.symm.trans (within mark member))

/-- The letters of the templates: tabs and the printable letters of ASCII. -/
def isTemplateLetter (letter : Char) : Bool :=
  letter = '\t' || (0x20 ≤ letter.toNat && letter.toNat < 0x7F)

theorem lt_of_isTemplateLetter {letter : Char} (template : isTemplateLetter letter = true) :
    letter.toNat < 0x7F ∧ letter ≠ '\n' ∧ letter ≠ '\r' := by
  simp only [isTemplateLetter, Bool.or_eq_true, Bool.and_eq_true, decide_eq_true_eq] at template
  rcases template with rfl | ⟨atLeast, small⟩
  · decide
  · refine ⟨small, ?_, ?_⟩ <;> rintro rfl <;> exact absurd atLeast (by decide)

theorem isTemplateLetter_of_isSymbolLetter {letter : Char}
    (symbolic : isSymbolLetter letter = true) : isTemplateLetter letter = true := by
  simp only [isSymbolLetter, Bool.or_eq_true, decide_eq_true_eq] at symbolic
  rcases symbolic with alphanumeric | rfl
  · have code : letter.toNat = letter.val.toNat := rfl
    delta Char.isAlphanum Char.isAlpha Char.isUpper Char.isLower Char.isDigit at alphanumeric
    simp only [Bool.or_eq_true, Bool.and_eq_true, decide_eq_true_eq, ge_iff_le,
      UInt32.le_iff_toNat_le] at alphanumeric
    simp only [isTemplateLetter, Bool.or_eq_true, Bool.and_eq_true, decide_eq_true_eq, code]
    refine .inr ?_
    simp only [Char.isValue, Char.reduceVal, UInt32.reduceToNat, Char.toNat_val] at alphanumeric
    omega
  · decide

/-- A letter that a file shows as it is and that does not end a line. -/
def isPlainLetter (letter : Char) : Bool :=
  letter.toNat < 0x100 && letter ≠ '\n'

theorem isPlainLetter_of_isTemplateLetter {letter : Char}
    (template : isTemplateLetter letter = true) : isPlainLetter letter = true := by
  obtain ⟨small, other, _⟩ := lt_of_isTemplateLetter template
  have shown : letter.toNat < 0x100 := Nat.lt_trans small (by decide)
  rw [isPlainLetter, decide_eq_true shown, decide_eq_true other]
  rfl

/-- A brace opens or closes a scope. -/
def isBrace (letter : Char) : Bool :=
  letter = '\x7b' || letter = '\x7d'

/-- The letters of the templates that neither open nor close a scope. -/
def isFlatLetter (letter : Char) : Bool :=
  isTemplateLetter letter && !isBrace letter

theorem isTemplateLetter_of_isFlatLetter {letter : Char} (flat : isFlatLetter letter = true) :
    isTemplateLetter letter = true :=
  (Bool.and_eq_true_iff.mp flat).1

theorem isBrace_of_isFlatLetter {letter : Char} (flat : isFlatLetter letter = true) :
    isBrace letter = false :=
  Bool.not_eq_true' _ ▸ (Bool.and_eq_true_iff.mp flat).2

theorem isFlatLetter_of_isSymbolLetter {letter : Char} (symbolic : isSymbolLetter letter = true) :
    isFlatLetter letter = true := by
  rw [isFlatLetter, isTemplateLetter_of_isSymbolLetter symbolic, Bool.true_and,
    Bool.not_eq_true', isBrace, Bool.or_eq_false_iff, decide_eq_false_iff_not,
    decide_eq_false_iff_not]
  constructor
  · rintro rfl
    exact absurd symbolic (by decide)
  · rintro rfl
    exact absurd symbolic (by decide)

/-- What is allowed of the templates is allowed of their flat parts. -/
theorem flat_of_template {allowed : Char → Prop}
    (template : ∀ letter, isTemplateLetter letter = true → allowed letter) :
    ∀ letter, isFlatLetter letter = true → allowed letter :=
  fun letter flat => template letter (isTemplateLetter_of_isFlatLetter flat)

theorem isPlainLetter_of_isFlatLetter :
    ∀ letter, isFlatLetter letter = true → isPlainLetter letter = true :=
  flat_of_template fun _ => isPlainLetter_of_isTemplateLetter

/-- The letters of a literal are checked in its list of letters. To read them out of the text is
slow to evaluate. -/
theorem within_ofList {plain : Char → Bool} {letters : List Char}
    (written : letters.all plain = true) : Within (plain · = true) (String.ofList letters) := by
  rw [Within, String.toList_ofList]
  exact List.all_eq_true.mp written

/-- A text of plain letters is allowed where these are. -/
theorem within_of_template {allowed : Char → Prop} {plain : Char → Bool}
    (template : ∀ letter, plain letter = true → allowed letter) {text : String}
    (written : Within (plain · = true) text) : Within allowed text :=
  written.mono template

theorem within_of_letters {allowed : Char → Prop} {plain : Char → Bool}
    (template : ∀ letter, plain letter = true → allowed letter) {letters : List Char}
    (written : letters.all plain = true) : Within allowed (String.ofList letters) :=
  within_of_template template (within_ofList written)

theorem within_of_name {allowed : Char → Prop}
    (flat : ∀ letter, isFlatLetter letter = true → allowed letter) {text : String}
    (symbolic : Within (isSymbolLetter · = true) text) : Within allowed text :=
  symbolic.mono fun letter shown => flat letter (isFlatLetter_of_isSymbolLetter shown)

theorem within_of_symbol {allowed : Char → Prop}
    (template : ∀ letter, isTemplateLetter letter = true → allowed letter) {text : String}
    (symbolic : Within (isSymbolLetter · = true) text) : Within allowed text :=
  within_of_name (flat_of_template template) symbolic

end Text

open Text

theorem SymbolRole.within_mangle (role : SymbolRole) (name : String) :
    Within (isSymbolLetter · = true) (role.mangle name) :=
  fun _ member => role.isSymbolLetter_of_mem_mangle member

end NativePeer
