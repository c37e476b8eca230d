import NativePeer.Text.Units

/-
This file spells out the control characters that steer a terminal.
-/

namespace NativePeer.Text

/-- The bell, backspace, form feed, escape and delete. -/
def steeringCodes : List Nat :=
  [0x07, 0x08, 0x0C, 0x1B, 0x7F]

/-- The controls of the second set stand from `U+0080` to `U+009F`. -/
def isSecondControl (letter : Char) : Bool :=
  0x80 ≤ letter.toNat && letter.toNat ≤ 0x9F

def isSteering (letter : Char) : Bool :=
  letter.toNat ∈ steeringCodes || isSecondControl letter

/-- Two lower-case hexadecimal digits of a code below 256. -/
def hexPair (code : Nat) : List Char :=
  [Nat.digitChar (code / 0x10 % 16), Nat.digitChar (code % 16)]

/-- Braces stand around the code of a control of the second set. -/
def spellLetter (letter : Char) : List Char :=
  if letter.toNat ∈ steeringCodes then '\\' :: 'x' :: hexPair letter.toNat
  else if isSecondControl letter then
    '\\' :: 'u' :: '\x7b' :: (hexPair letter.toNat ++ ['\x7d'])
  else [letter]

/-- All other letters stay, tabs and line ends among them. -/
def spellControls (text : String) : String :=
  String.ofList (text.toList.flatMap spellLetter)

theorem spellLetter_of_not_steering {letter : Char} (plain : isSteering letter = false) :
    spellLetter letter = [letter] := by
  simp only [isSteering, Bool.or_eq_false_iff, decide_eq_false_iff_not] at plain
  simp [spellLetter, plain.1, plain.2]

theorem isSteering_digitChar (code : Nat) :
    isSteering (Nat.digitChar (code % 16)) = false := by
  have inRange : code % 16 < 16 := Nat.mod_lt _ (by decide)
  have everyDigit : ∀ digit < 16, isSteering (Nat.digitChar digit) = false := by decide
  exact everyDigit _ inRange

theorem isSteering_of_mem_spellLetter {letter shown : Char}
    (member : shown ∈ spellLetter letter) : isSteering shown = false := by
  have digits : ∀ other ∈ hexPair letter.toNat, isSteering other = false := by
    intro other pairMember
    simp only [hexPair, List.mem_cons, List.not_mem_nil, or_false] at pairMember
    rcases pairMember with same | same <;> rw [same] <;> exact isSteering_digitChar _
  unfold spellLetter at member
  split at member
  · simp only [List.mem_cons] at member
    rcases member with same | same | pairMember
    · rw [same]; decide
    · rw [same]; decide
    · exact digits shown pairMember
  · next notFirst =>
    split at member
    · simp only [List.mem_cons, List.mem_append, List.not_mem_nil, or_false] at member
      rcases member with same | same | same | pairMember | same
      · rw [same]; decide
      · rw [same]; decide
      · rw [same]; decide
      · exact digits shown pairMember
      · rw [same]; decide
    · next notSecond =>
      simp only [List.mem_singleton] at member
      rw [member]
      simp [isSteering, notFirst, notSecond]

/-- No text steers a terminal once its controls are spelled out. -/
theorem isSteering_of_mem_spellControls {text : String} {shown : Char}
    (member : shown ∈ (spellControls text).toList) : isSteering shown = false := by
  rw [spellControls, String.toList_ofList] at member
  obtain ⟨letter, _, written⟩ := List.mem_flatMap.mp member
  exact isSteering_of_mem_spellLetter written

theorem flatMap_spellLetter_of_not_steering {letters : List Char}
    (plain : ∀ letter ∈ letters, isSteering letter = false) :
    letters.flatMap spellLetter = letters := by
  induction letters with
  | nil => rfl
  | cons letter letters inductionHypothesis =>
    rw [List.forall_mem_cons] at plain
    rw [List.flatMap_cons, spellLetter_of_not_steering plain.1, inductionHypothesis plain.2,
      List.singleton_append]

/-- A text that steers nothing stays. -/
theorem spellControls_of_not_steering {text : String}
    (plain : ∀ letter ∈ text.toList, isSteering letter = false) : spellControls text = text := by
  rw [spellControls, flatMap_spellLetter_of_not_steering plain, String.ofList_toList]

end NativePeer.Text
