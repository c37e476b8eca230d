import NativePeer.Markup.Cut

/-
This file finds the end of a document type declaration.
-/

namespace NativePeer.Markup

/-- The declarations that hide brackets in quotes. -/
def quotedDeclarations : List (List Char) :=
  ["!ENTITY".toList, "!ATTLIST".toList, "!NOTATION".toList]

/-- The text after one piece of markup inside the internal subset. -/
def afterDeclaration? (letters : List Char) : Option (List Char) :=
  match strip? "?".toList letters, strip? "!--".toList letters with
  | some instruction, _ => after? "?>".toList instruction
  | none, some comment => after? "-->".toList comment
  | none, none =>
    if quotedDeclarations.any fun word => (strip? word letters).isSome then
      (cutTag none letters).toOption.map Prod.snd
    else after? ">".toList letters

theorem afterDeclaration?_suffix {letters rest : List Char}
    (found : afterDeclaration? letters = some rest) : rest <:+ letters := by
  unfold afterDeclaration? at found
  split at found
  · next present => exact (after?_suffix found).trans ⟨_, (strip?_eq_some.mp present).symm⟩
  · next present => exact (after?_suffix found).trans ⟨_, (strip?_eq_some.mp present).symm⟩
  · split at found
    · obtain ⟨⟨text, after⟩, cut, same⟩ := Option.map_eq_some_iff.mp found
      cases same
      cases whole : cutTag none letters with
      | error fault => rw [whole] at cut; cases cut
      | ok pair =>
        rw [whole] at cut
        cases cut
        exact cutTag_suffix whole
    · exact after?_suffix found

/-- The text after a document type whose internal subset is open. Once the subset is closed the
next bracket ends the declaration. -/
def afterSubset? (letters : List Char) : Option (List Char) :=
  match letters with
  | [] => none
  | letter :: following =>
    if letter = ']' then after? ">".toList following
    else if letter = '<' then
      match _ : afterDeclaration? following with
      | none => none
      | some rest => afterSubset? rest
    else afterSubset? following
termination_by letters.length
decreasing_by
  · have := (afterDeclaration?_suffix ‹_›).length_le
    simp only [List.length_cons]
    omega
  · simp

/-- The text after a document type. Quotes hide everything to the matching quote. -/
def afterDocumentType? (letters : List Char) : Option (List Char) :=
  match letters with
  | [] => none
  | letter :: following =>
    if letter = '>' then some following
    else if letter = '[' then afterSubset? following
    else if isQuote letter then
      match _ : after? [letter] following with
      | none => none
      | some rest => afterDocumentType? rest
    else afterDocumentType? following
termination_by letters.length
decreasing_by
  · have := (after?_suffix ‹_›).length_le
    simp only [List.length_cons]
    omega
  · simp

theorem afterSubset?_suffix {letters rest : List Char}
    (found : afterSubset? letters = some rest) : rest <:+ letters := by
  fun_induction afterSubset? letters with
  | case1 => cases found
  | case2 => exact (after?_suffix found).trans (List.suffix_cons _ _)
  | case3 => cases found
  | case4 following _ present _ inductionHypothesis =>
    exact ((inductionHypothesis found).trans (afterDeclaration?_suffix present)).trans
      (List.suffix_cons _ _)
  | case5 letter following _ _ inductionHypothesis =>
    exact (inductionHypothesis found).trans (List.suffix_cons _ _)

theorem afterDocumentType?_suffix {letters rest : List Char}
    (found : afterDocumentType? letters = some rest) : rest <:+ letters := by
  fun_induction afterDocumentType? letters with
  | case1 => cases found
  | case2 =>
    cases found
    exact List.suffix_cons _ _
  | case3 => exact (afterSubset?_suffix found).trans (List.suffix_cons _ _)
  | case4 => cases found
  | case5 _ _ _ _ _ after present inductionHypothesis =>
    exact ((inductionHypothesis found).trans (after?_suffix present)).trans
      (List.suffix_cons _ _)
  | case6 _ _ _ _ _ inductionHypothesis =>
    exact (inductionHypothesis found).trans (List.suffix_cons _ _)

end NativePeer.Markup
