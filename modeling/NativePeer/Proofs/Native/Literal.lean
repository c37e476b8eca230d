import NativePeer.Native.Literal
import NativePeer.Proofs.Text.Letters

/-
This file says which letters stand in literals.
-/

namespace NativePeer

open Text

open Number

/-- The letters of literals: ASCII letters, digits, signs and points. -/
def Text.isLiteralLetter (letter : Char) : Bool :=
  letter.isAlphanum || letter = '-' || letter = '.'

theorem Text.isFlatLetter_of_isLiteralLetter {letter : Char}
    (literal : isLiteralLetter letter = true) : isFlatLetter letter = true := by
  simp only [isLiteralLetter, Bool.or_eq_true, decide_eq_true_eq] at literal
  rcases literal with (alphanumeric | rfl) | rfl
  · apply isFlatLetter_of_isSymbolLetter
    rw [isSymbolLetter, alphanumeric, Bool.true_or]
  · decide
  · decide

theorem isLiteralLetter_of_isDigit {letter : Char} (digit : letter.isDigit = true) :
    isLiteralLetter letter = true := by
  rw [isLiteralLetter, Char.isAlphanum, digit, Bool.or_true, Bool.true_or, Bool.true_or]

theorem literal_toDigits (value : Nat) :
    ∀ letter ∈ Nat.toDigits 10 value, isLiteralLetter letter = true := fun _ member =>
  isLiteralLetter_of_isDigit (Nat.isDigit_of_mem_toDigits (by decide) (by decide) member)

theorem literal_integerText (value : Int) :
    ∀ letter ∈ integerText value, isLiteralLetter letter = true := by
  cases value with
  | ofNat value => exact literal_toDigits value
  | negSucc value => exact List.forall_mem_cons.mpr ⟨by decide, literal_toDigits (value + 1)⟩

theorem literal_shortest (format : BinaryFormat) (magnitude : Nat) :
    ∀ letter ∈ (format.shortest magnitude).digits, isLiteralLetter letter = true := by
  unfold BinaryFormat.shortest
  split
  · exact List.forall_mem_singleton.mpr (by decide)
  · intro letter member
    rw [Scientific.ofFixed, List.mem_reverse] at member
    exact literal_toDigits _ letter
      (List.mem_reverse.mp ((List.dropWhile_sublist _).subset member))

section Scientific

variable {digits : List Char} (written : ∀ letter ∈ digits, isLiteralLetter letter = true)

include written

theorem literal_wholeText (whole : Nat) :
    ∀ letter ∈ Scientific.wholeText digits whole, isLiteralLetter letter = true := by
  unfold Scientific.wholeText
  split
  · rw [List.forall_mem_append, List.forall_mem_append, List.forall_mem_cons,
      List.forall_mem_singleton]
    refine ⟨⟨written, fun letter member => ?_⟩, by decide, by decide⟩
    rw [List.eq_of_mem_replicate member]
    decide
  · rw [List.forall_mem_append, List.forall_mem_cons]
    exact ⟨fun letter member => written letter (List.mem_of_mem_take member), by decide,
      fun letter member => written letter (List.mem_of_mem_drop member)⟩

theorem literal_fractionText (zeros : Nat) :
    ∀ letter ∈ Scientific.fractionText digits zeros, isLiteralLetter letter = true := by
  rw [Scientific.fractionText, List.forall_mem_cons, List.forall_mem_cons, List.forall_mem_append]
  refine ⟨by decide, by decide, fun letter member => ?_, written⟩
  rw [List.eq_of_mem_replicate member]
  decide

theorem literal_exponentText (exponent : Int) :
    ∀ letter ∈ Scientific.exponentText digits exponent, isLiteralLetter letter = true := by
  rw [Scientific.exponentText, List.forall_mem_append, List.forall_mem_cons]
  exact ⟨literal_wholeText written 1, by decide, literal_integerText exponent⟩

end Scientific

theorem literal_text (negative : Bool) {decimal : Scientific}
    (written : ∀ letter ∈ decimal.digits, isLiteralLetter letter = true) :
    ∀ letter ∈ decimal.text negative, isLiteralLetter letter = true := by
  have magnitude : ∀ letter ∈ decimal.magnitudeText, isLiteralLetter letter = true := by
    unfold Scientific.magnitudeText
    split
    · exact literal_wholeText written _
    · split
      · exact literal_fractionText written _
      · exact literal_exponentText written _
  cases negative with
  | true => exact List.forall_mem_cons.mpr ⟨by decide, magnitude⟩
  | false => exact magnitude

theorem Constant.within_literal (host : Host) (constant : Constant) :
    Within (isLiteralLetter · = true) (constant.literal host) := by
  have ofLetters {letters : List Char} {suffix : String}
      (written : ∀ letter ∈ letters, isLiteralLetter letter = true)
      (ended : Within (isLiteralLetter · = true) suffix) :
      Within (isLiteralLetter · = true) (String.ofList letters ++ suffix) := by
    refine within_append.mpr ⟨fun letter member => ?_, ended⟩
    exact written letter (by rwa [String.toList_ofList] at member)
  have float (format : BinaryFormat) (words : FloatWords) (pattern : Nat)
      (infinite : Within (isLiteralLetter · = true) words.infinity)
      (undefined : Within (isLiteralLetter · = true) words.notANumber)
      (ended : Within (isLiteralLetter · = true) words.suffix) :
      Within (isLiteralLetter · = true) (floatLiteral format words pattern) := by
    unfold floatLiteral
    dsimp only
    split
    · split
      · exact within_append.mpr ⟨by decide, infinite⟩
      · exact infinite
    · split
      · exact undefined
      · exact ofLetters (literal_text _ (literal_shortest format _)) ended
  have suffix : Within (isLiteralLetter · = true) host.longSuffix := by cases host <;> decide
  cases constant with
  | boolean value =>
    have words : Within (isLiteralLetter · = true) (if value then "1L" else "0L") := by
      cases value <;> decide
    exact words
  | long value => exact ofLetters (literal_integerText _) suffix
  | byte value | char value | short value | int value =>
    exact ofLetters (literal_integerText _) (by decide)
  | float bits => exact float .single singleWords _ (by decide) (by decide) (by decide)
  | double bits => exact float .double doubleWords _ (by decide) (by decide) (by decide)

/-- The literal of a constant stands in a file as it is. -/
theorem Constant.template_literal (host : Host) (constant : Constant) :
    Within (isTemplateLetter · = true) (constant.literal host) :=
  (constant.within_literal host).mono fun _ literal =>
    isTemplateLetter_of_isFlatLetter (isFlatLetter_of_isLiteralLetter literal)

end NativePeer
