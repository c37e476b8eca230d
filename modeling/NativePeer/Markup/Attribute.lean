import NativePeer.Markup.Cut

/-
This file reads the attributes of a tag.
-/

namespace NativePeer.Markup

/-- An item that is no attribute keeps its place in the list. -/
inductive Attribute where
  | pair (key value : String)
  | repeated (key : String)
  | malformed
  deriving DecidableEq

namespace Attribute

/-- The keys that have been followed by an equals sign so far are in `seen`. -/
structure Step where
  item : Attribute
  seen : List String
  rest : List Char

def endsKey (letter : Char) : Bool :=
  letter = '=' || isSpace letter

/-- A quoted value stands after the equals sign. Anything else is left up to the next space. -/
def readValue (seen : List String) (key : String) (letters : List Char) : Step :=
  match letters.dropWhile isSpace with
  | [] => ⟨.malformed, seen, []⟩
  | quote :: body =>
    if isQuote quote then
      match cutAt? [quote] body with
      | none => ⟨.malformed, seen, []⟩
      | some (value, rest) => ⟨.pair key (String.ofList value), seen, rest⟩
    else ⟨.malformed, seen, body.dropWhile (!isSpace ·)⟩

/-- The first letter of a key is not looked at. A key that comes again is left up to the next
space. -/
def readItem (seen : List String) (first : Char) (letters : List Char) : Step :=
  let key := String.ofList (first :: letters.takeWhile (!endsKey ·))
  match (letters.dropWhile (!endsKey ·)).dropWhile isSpace with
  | [] => ⟨.malformed, seen, []⟩
  | next :: value =>
    if next = '=' then
      if key ∈ seen then ⟨.repeated key, seen, value.dropWhile (!isSpace ·)⟩
      else readValue (key :: seen) key value
    else ⟨.malformed, seen, next :: value⟩

theorem readValue_suffix (seen : List String) (key : String) (letters : List Char) :
    (readValue seen key letters).rest <:+ letters := by
  have spaces := List.dropWhile_suffix isSpace (l := letters)
  unfold readValue
  split
  · exact List.nil_suffix
  · next quote body shape =>
    rw [shape] at spaces
    have inside := (List.suffix_cons quote body).trans spaces
    split
    · split
      · exact List.nil_suffix
      · next cut => exact (cutAt?_suffix cut).trans inside
    · exact (List.dropWhile_suffix _).trans inside

theorem readItem_suffix (seen : List String) (first : Char) (letters : List Char) :
    (readItem seen first letters).rest <:+ letters := by
  have spaces := (List.dropWhile_suffix isSpace (l := letters.dropWhile (!endsKey ·))).trans
    (List.dropWhile_suffix _)
  unfold readItem
  dsimp only
  split
  · exact List.nil_suffix
  · next next value shape =>
    rw [shape] at spaces
    have inside := (List.suffix_cons next value).trans spaces
    split
    · split
      · exact (List.dropWhile_suffix _).trans inside
      · exact (readValue_suffix _ _ _).trans inside
    · exact spaces

def readFrom (seen : List String) (letters : List Char) : List Attribute :=
  match _ : letters.dropWhile isSpace with
  | [] => []
  | first :: following =>
    let step := readItem seen first following
    step.item :: readFrom step.seen step.rest
termination_by letters.length
decreasing_by
  have spaces := (List.dropWhile_suffix isSpace (l := letters)).length_le
  have inside := (readItem_suffix seen first following).length_le
  simp_all only [List.length_cons]
  omega

/-- The items of the text after the name of a tag. -/
def readAll (letters : List Char) : List Attribute :=
  readFrom [] letters

/-- The keys and values of the items that are attributes. -/
def pairs (items : List Attribute) : List (String × String) :=
  items.filterMap fun
    | .pair key value => some (key, value)
    | .repeated _ | .malformed => none

end Attribute

end NativePeer.Markup
