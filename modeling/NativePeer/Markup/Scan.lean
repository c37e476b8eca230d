import NativePeer.Markup.Attribute
import NativePeer.Markup.DocumentType

/-
This file turns a text into the events of its markup.
-/

namespace NativePeer.Markup

structure Tag where
  name : String
  attributes : List Attribute
  deriving DecidableEq

/-- Text, references, comments and all declarations are content. -/
inductive Event where
  | opening (tag : Tag)
  | selfClosing (tag : Tag)
  | closing (name : String)
  | content
  deriving DecidableEq

/-- The events up to the end of the text or to the first fault. -/
structure Scan where
  events : List Event
  fault : Option Fault
  deriving DecidableEq

/-- One event, the names of the elements open after it and the text that follows it. -/
structure Step where
  event : Event
  opened : List String
  rest : List Char

/-- The end of the name of an end tag may be followed by spaces. -/
def closingName (letters : List Char) : String :=
  let trimmed := (letters.reverse.dropWhile isSpace).reverse
  String.ofList (if trimmed = [] then letters else trimmed)

/-- The name ends at the first space. -/
def openingTag (letters : List Char) : Tag where
  name := String.ofList (letters.takeWhile (!isSpace ·))
  attributes := Attribute.readAll (letters.dropWhile (!isSpace ·))

/-- An end tag closes the innermost open element. -/
def closeElement (opened : List String) (found : String) (rest : List Char) :
    Except Fault Step :=
  match opened with
  | [] => .error (.unmatchedEnd found)
  | expected :: outer =>
    if found = expected then .ok ⟨.closing found, outer, rest⟩
    else .error (.mismatchedEnd expected found)

/-- A tag that ends with a slash closes itself. -/
def openElement (opened : List String) (text rest : List Char) : Step :=
  if text.getLast? = some '/' then ⟨.selfClosing (openingTag text.dropLast), opened, rest⟩
  else
    let tag := openingTag text
    ⟨.opening tag, tag.name :: opened, rest⟩

def scanTag (opened : List String) (letters : List Char) : Except Fault Step :=
  match cutTag none letters with
  | .error fault => .error fault
  | .ok ('/' :: text, rest) => closeElement opened (closingName text) rest
  | .ok (text, rest) => .ok (openElement opened text rest)

/-- Content that ends where `rest?` begins. -/
def contentTo (opened : List String) (fault : Fault) (rest? : Option (List Char)) :
    Except Fault Step :=
  match rest? with
  | none => .error fault
  | some rest => .ok ⟨.content, opened, rest⟩

/-- The keyword may be written in any case. A name has to follow, with or without a space. -/
def scanDocumentType (opened : List String) (letters : List Char) : Except Fault Step :=
  if String.ofList ((letters.take 7).map Char.toLower) ≠ "doctype" then
    .error .openDocumentType
  else if ((letters.drop 7).dropWhile isSpace).head? = some '>' then
    .error .namelessDocumentType
  else contentTo opened .openDocumentType (afterDocumentType? (letters.drop 7))

/-- The letter after the exclamation mark decides what is declared. -/
def scanDeclaration (opened : List String) (letters : List Char) : Except Fault Step :=
  match letters.head? with
  | some '[' => contentTo opened .openCharacterData
    ((strip? "[CDATA[".toList letters).bind (after? "]]>".toList))
  | some '-' => contentTo opened .openComment
    ((strip? "--".toList letters).bind (after? "-->".toList))
  | some 'D' | some 'd' => scanDocumentType opened letters
  | _ => .error .unknownMarkup

/-- Whether an instruction that does not end is the declaration of the document. -/
def isXmlDeclaration (letters : List Char) : Bool :=
  match strip? "xml".toList letters with
  | none => false
  | some [] => true
  | some (letter :: _) => isSpace letter || letter = '?'

def scanInstruction (opened : List String) (letters : List Char) : Except Fault Step :=
  if letters.head? = some '>' then .error .openInstruction
  else contentTo opened
    (if isXmlDeclaration letters then .openDeclaration else .openInstruction)
    (after? "?>".toList letters)

def scanMarkup (opened : List String) : List Char → Except Fault Step
  | '!' :: letters => scanDeclaration opened letters
  | '?' :: letters => scanInstruction opened letters
  | letters => scanTag opened letters

/-- A reference ends with a semicolon. The next mark of any kind comes before its end otherwise. -/
def scanReference (opened : List String) (letters : List Char) : Except Fault Step :=
  match letters.dropWhile fun letter => letter ≠ ';' ∧ letter ≠ '&' ∧ letter ≠ '<' with
  | ';' :: rest => .ok ⟨.content, opened, rest⟩
  | _ => .error .openReference

/-- One event of a text that is not empty. -/
def scanStep (opened : List String) (letter : Char) (letters : List Char) : Except Fault Step :=
  if letter = '<' then scanMarkup opened letters
  else if letter = '&' then scanReference opened letters
  else .ok ⟨.content, opened, letters.dropWhile fun next => next ≠ '<' ∧ next ≠ '&'⟩

theorem contentTo_suffix {opened : List String} {fault : Fault} {rest? : Option (List Char)}
    {letters : List Char} {step : Step} (found : contentTo opened fault rest? = .ok step)
    (suffix : ∀ rest, rest? = some rest → rest <:+ letters) : step.rest <:+ letters := by
  unfold contentTo at found
  split at found
  · cases found
  · next rest =>
    cases found
    exact suffix rest rfl

theorem scanTag_suffix {opened : List String} {letters : List Char} {step : Step}
    (found : scanTag opened letters = .ok step) : step.rest <:+ letters := by
  unfold scanTag at found
  split at found
  · cases found
  · next cut =>
    unfold closeElement at found
    split at found
    · cases found
    · split at found
      · cases found
        exact cutTag_suffix cut
      · cases found
  · next cut =>
    cases found
    unfold openElement
    split <;> exact cutTag_suffix cut

theorem strippedAfter_suffix {start finish letters rest : List Char}
    (found : (strip? start letters).bind (after? finish) = some rest) : rest <:+ letters := by
  obtain ⟨inner, present, cut⟩ := Option.bind_eq_some_iff.mp found
  exact (after?_suffix cut).trans ⟨start, (strip?_eq_some.mp present).symm⟩

theorem scanDocumentType_suffix {opened : List String} {letters : List Char} {step : Step}
    (found : scanDocumentType opened letters = .ok step) : step.rest <:+ letters := by
  unfold scanDocumentType at found
  split at found
  · cases found
  · split at found
    · cases found
    · exact contentTo_suffix found fun rest present =>
        (afterDocumentType?_suffix present).trans (List.drop_suffix 7 letters)

theorem scanDeclaration_suffix {opened : List String} {letters : List Char} {step : Step}
    (found : scanDeclaration opened letters = .ok step) : step.rest <:+ letters := by
  unfold scanDeclaration at found
  split at found
  · exact contentTo_suffix found fun rest present => strippedAfter_suffix present
  · exact contentTo_suffix found fun rest present => strippedAfter_suffix present
  · exact scanDocumentType_suffix found
  · exact scanDocumentType_suffix found
  · cases found

theorem scanInstruction_suffix {opened : List String} {letters : List Char} {step : Step}
    (found : scanInstruction opened letters = .ok step) : step.rest <:+ letters := by
  unfold scanInstruction at found
  split at found
  · cases found
  · exact contentTo_suffix found fun rest present => after?_suffix present

theorem scanMarkup_suffix {opened : List String} {letters : List Char} {step : Step}
    (found : scanMarkup opened letters = .ok step) : step.rest <:+ letters := by
  unfold scanMarkup at found
  split at found
  · exact (scanDeclaration_suffix found).trans (List.suffix_cons _ _)
  · exact (scanInstruction_suffix found).trans (List.suffix_cons _ _)
  · exact scanTag_suffix found

theorem scanStep_suffix {opened : List String} {letter : Char} {letters : List Char}
    {step : Step} (found : scanStep opened letter letters = .ok step) :
    step.rest <:+ letters := by
  unfold scanStep at found
  split at found
  · exact scanMarkup_suffix found
  · split at found
    · unfold scanReference at found
      split at found
      · next rest shape =>
        cases found
        have suffix := List.dropWhile_suffix
          (fun next => decide (next ≠ ';' ∧ next ≠ '&' ∧ next ≠ '<')) (l := letters)
        rw [shape] at suffix
        exact (List.suffix_cons _ _).trans suffix
      · cases found
    · cases found
      exact List.dropWhile_suffix _

def scanFrom (opened : List String) (letters : List Char) : Scan :=
  match letters with
  | [] => ⟨[], none⟩
  | letter :: following =>
    match _ : scanStep opened letter following with
    | .error fault => ⟨[], some fault⟩
    | .ok step =>
      let rest := scanFrom step.opened step.rest
      ⟨step.event :: rest.events, rest.fault⟩
termination_by letters.length
decreasing_by
  have := (scanStep_suffix ‹_›).length_le
  simp only [List.length_cons]
  omega

/-- A byte order mark may lead the text. -/
def scan (letters : List Char) : Scan :=
  match letters with
  | '\uFEFF' :: following => scanFrom [] following
  | _ => scanFrom [] letters

end NativePeer.Markup
