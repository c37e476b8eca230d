import NativePeer.Markup.Fault

/-
This file cuts markup text at its delimiters. Every cut leaves a suffix of the text.
-/

namespace NativePeer.Markup

def isSpace (letter : Char) : Bool :=
  letter = ' ' || letter = '\t' || letter = '\r' || letter = '\n'

def isQuote (letter : Char) : Bool :=
  letter = '\'' || letter = '"'

/-- The text after a mark at its beginning. -/
def strip? : List Char → List Char → Option (List Char)
  | [], letters => some letters
  | _ :: _, [] => none
  | first :: mark, letter :: letters => if first = letter then strip? mark letters else none

/-- The text before the first occurrence of a mark and the text after it. -/
def cutAt? (mark : List Char) : List Char → Option (List Char × List Char)
  | [] => none
  | letter :: letters =>
    match strip? mark (letter :: letters) with
    | some after => some ([], after)
    | none => (cutAt? mark letters).map fun (before, after) => (letter :: before, after)

/-- The text after the first occurrence of a mark. -/
def after? (mark : List Char) (letters : List Char) : Option (List Char) :=
  (cutAt? mark letters).map Prod.snd

/-- A quote is open up to the next quote of its kind. -/
def nextQuote : Option Char → Char → Option Char
  | none, letter => if isQuote letter then some letter else none
  | some quote, letter => if letter = quote then none else some quote

/-- The text up to the first closing bracket outside quotes and the text after it. -/
def cutTag (quote : Option Char) : List Char → Except Fault (List Char × List Char)
  | [] => .error (quote.elim .openTag .openQuote)
  | letter :: letters =>
    if letter = '>' ∧ quote = none then .ok ([], letters)
    else (cutTag (nextQuote quote letter) letters).map fun (text, rest) => (letter :: text, rest)

theorem strip?_eq_some {mark letters after : List Char} :
    strip? mark letters = some after ↔ letters = mark ++ after := by
  induction mark generalizing letters with
  | nil => simp [strip?, eq_comm]
  | cons first mark inductionHypothesis =>
    cases letters with
    | nil => simp [strip?]
    | cons letter letters =>
      by_cases same : first = letter
      · simp [strip?, same, inductionHypothesis]
      · simp [strip?, same, Ne.symm same]

theorem cutAt?_suffix {mark letters before after : List Char}
    (found : cutAt? mark letters = some (before, after)) : after <:+ letters := by
  induction letters generalizing before after with
  | nil => simp [cutAt?] at found
  | cons letter letters inductionHypothesis =>
    rw [cutAt?] at found
    split at found
    · next rest present =>
      cases found
      exact ⟨mark, (strip?_eq_some.mp present).symm⟩
    · obtain ⟨⟨inner, rest⟩, cut, same⟩ := Option.map_eq_some_iff.mp found
      cases same
      exact (inductionHypothesis cut).trans (List.suffix_cons letter letters)

theorem after?_suffix {mark letters after : List Char}
    (found : after? mark letters = some after) : after <:+ letters := by
  obtain ⟨⟨before, rest⟩, cut, same⟩ := Option.map_eq_some_iff.mp found
  cases same
  exact cutAt?_suffix cut

theorem cutTag_suffix {quote : Option Char} {letters text rest : List Char}
    (found : cutTag quote letters = .ok (text, rest)) : rest <:+ letters := by
  induction letters generalizing quote text rest with
  | nil => cases found
  | cons letter letters inductionHypothesis =>
    rw [cutTag] at found
    split at found
    · cases found
      exact List.suffix_cons letter letters
    · cases cut : cutTag (nextQuote quote letter) letters with
      | error fault => rw [cut] at found; cases found
      | ok pair =>
        rw [cut] at found
        cases found
        exact (inductionHypothesis cut).trans (List.suffix_cons letter letters)

end NativePeer.Markup
