import Mathlib.Data.List.Basic
import Mathlib.Data.List.TakeWhile
import NativePeer.Proofs.Document.Nesting

/-
This file shows that text added at the end of a document keeps the events before it.
-/

namespace NativePeer.Markup

section Cut

variable {mark letters before after : List Char}

theorem strip?_append (found : strip? mark letters = some after) (more : List Char) :
    strip? mark (letters ++ more) = some (after ++ more) := by
  rw [strip?_eq_some] at found ⊢
  rw [found, List.append_assoc]

/-- A mark that is not there does not begin with a text that holds another letter. -/
theorem strip?_append_eq_none {letter : Char} (absent : strip? mark letters = none)
    (member : letter ∈ letters) (foreign : letter ∉ mark) (more : List Char) :
    strip? mark (letters ++ more) = none := by
  refine Option.eq_none_iff_forall_ne_some.mpr fun after found => ?_
  rw [strip?_eq_some, List.append_eq_append_iff] at found
  rcases found with ⟨between, shape, _⟩ | ⟨between, shape, _⟩
  · exact foreign (shape ▸ List.mem_append_left between member)
  · rw [strip?_eq_some.mpr shape] at absent
    cases absent

theorem cutAt?_eq (found : cutAt? mark letters = some (before, after)) :
    letters = before ++ (mark ++ after) := by
  induction letters generalizing before with
  | nil => cases found
  | cons letter letters inductionHypothesis =>
    rw [cutAt?] at found
    split at found
    · next present =>
      cases found
      rw [List.nil_append, strip?_eq_some.mp present]
    · obtain ⟨⟨inner, rest⟩, cut, same⟩ := Option.map_eq_some_iff.mp found
      cases same
      rw [List.cons_append, ← inductionHypothesis cut]

theorem cutAt?_append (found : cutAt? mark letters = some (before, after)) (more : List Char) :
    cutAt? mark (letters ++ more) = some (before, after ++ more) := by
  induction letters generalizing before with
  | nil => cases found
  | cons letter letters inductionHypothesis =>
    rw [cutAt?] at found
    rw [List.cons_append, cutAt?]
    split at found
    · next present =>
      cases found
      rw [← List.cons_append, strip?_append present]
    · next absent =>
      obtain ⟨⟨inner, rest⟩, cut, same⟩ := Option.map_eq_some_iff.mp found
      cases same
      have later : strip? mark (letter :: (letters ++ more)) = none := by
        refine Option.eq_none_iff_forall_ne_some.mpr fun other begun => ?_
        have whole : mark <+: letter :: letters := by
          refine List.prefix_of_prefix_length_le ⟨other, (strip?_eq_some.mp begun).symm⟩
            (List.prefix_append (letter :: letters) more) ?_
          rw [cutAt?_eq cut]
          simp only [List.length_append, List.length_cons]
          omega
        obtain ⟨rest, shape⟩ := whole
        rw [strip?_eq_some.mpr shape.symm] at absent
        cases absent
      rw [later, inductionHypothesis cut]
      rfl

theorem after?_append (found : after? mark letters = some after) (more : List Char) :
    after? mark (letters ++ more) = some (after ++ more) := by
  obtain ⟨⟨before, rest⟩, cut, same⟩ := Option.map_eq_some_iff.mp found
  cases same
  rw [after?, cutAt?_append cut]
  rfl

/-- The text holds the mark that it is cut at. -/
theorem mem_of_after? {letter : Char} (found : after? mark letters = some after)
    (member : letter ∈ mark) : letter ∈ letters := by
  obtain ⟨⟨before, rest⟩, cut, _⟩ := Option.map_eq_some_iff.mp found
  rw [cutAt?_eq cut]
  exact List.mem_append_right _ (List.mem_append_left _ member)

theorem cutTag_append {quote : Option Char} {text rest : List Char}
    (found : cutTag quote letters = .ok (text, rest)) (more : List Char) :
    cutTag quote (letters ++ more) = .ok (text, rest ++ more) := by
  induction letters generalizing quote text with
  | nil => cases found
  | cons letter letters inductionHypothesis =>
    rw [cutTag] at found
    rw [List.cons_append, cutTag]
    split at found
    · next ends =>
      cases found
      rw [if_pos ends]
    · next goesOn =>
      rw [if_neg goesOn]
      cases cut : cutTag (nextQuote quote letter) letters with
      | error fault => rw [cut] at found; cases found
      | ok pair =>
        rw [cut] at found
        cases found
        rw [inductionHypothesis cut]
        rfl

theorem mem_of_cutTag {quote : Option Char} {text rest : List Char}
    (found : cutTag quote letters = .ok (text, rest)) : '>' ∈ letters := by
  induction letters generalizing quote text with
  | nil => cases found
  | cons letter letters inductionHypothesis =>
    rw [cutTag] at found
    split at found
    · next ends => exact ends.1 ▸ List.mem_cons_self
    · cases cut : cutTag (nextQuote quote letter) letters with
      | error fault => rw [cut] at found; cases found
      | ok pair =>
        rw [cut] at found
        cases found
        exact List.mem_cons_of_mem _ (inductionHypothesis cut)

end Cut

section DocumentType

variable {letters rest : List Char}

/-- Markup inside the subset ends with a closing bracket. -/
theorem mem_of_afterDeclaration? (found : afterDeclaration? letters = some rest) :
    '>' ∈ letters := by
  unfold afterDeclaration? at found
  split at found
  · next present =>
    rw [strip?_eq_some.mp present]
    exact List.mem_append_right _ (mem_of_after? found (by decide))
  · next present =>
    rw [strip?_eq_some.mp present]
    exact List.mem_append_right _ (mem_of_after? found (by decide))
  · split at found
    · obtain ⟨_, cut, _⟩ := Option.map_eq_some_iff.mp found
      cases whole : cutTag none letters with
      | error fault => rw [whole] at cut; cases cut
      | ok pair => exact mem_of_cutTag whole
    · exact mem_of_after? found (by decide)

theorem afterDeclaration?_append (found : afterDeclaration? letters = some rest)
    (more : List Char) : afterDeclaration? (letters ++ more) = some (rest ++ more) := by
  have bracket := mem_of_afterDeclaration? found
  -- No keyword holds the closing bracket, so none can begin in the text and end after it.
  have stays {mark : List Char} (absent : strip? mark letters = none) (foreign : '>' ∉ mark) :
      strip? mark (letters ++ more) = none := strip?_append_eq_none absent bracket foreign more
  unfold afterDeclaration? at found ⊢
  split at found
  · next present => rw [strip?_append present more]; exact after?_append found more
  · next absent present =>
    rw [stays absent (by decide), strip?_append present more]
    exact after?_append found more
  · next absent uncommented =>
    rw [stays absent (by decide), stays uncommented (by decide)]
    dsimp only
    split at found
    · next keyword =>
      obtain ⟨word, listed, begins⟩ := List.any_eq_true.mp keyword
      obtain ⟨after, begins⟩ := Option.isSome_iff_exists.mp begins
      rw [if_pos (List.any_eq_true.mpr ⟨word, listed, by rw [strip?_append begins]; rfl⟩)]
      obtain ⟨⟨text, following⟩, cut, same⟩ := Option.map_eq_some_iff.mp found
      cases same
      cases whole : cutTag none letters with
      | error fault => rw [whole] at cut; cases cut
      | ok pair =>
        rw [whole] at cut
        cases cut
        rw [cutTag_append whole]
        rfl
    · next other =>
      have otherStill : ¬ (quotedDeclarations.any fun word =>
          (strip? word (letters ++ more)).isSome) = true := by
        intro keyword
        obtain ⟨word, listed, begins⟩ := List.any_eq_true.mp keyword
        have absent : strip? word letters = none :=
          Option.not_isSome_iff_eq_none.mp fun present =>
            other (List.any_eq_true.mpr ⟨word, listed, present⟩)
        have foreign : ∀ word ∈ quotedDeclarations, '>' ∉ word := by decide
        rw [stays absent (foreign word listed)] at begins
        cases begins
      rw [if_neg otherStill]
      exact after?_append found more

theorem mem_of_afterSubset? (found : afterSubset? letters = some rest) : '>' ∈ letters := by
  fun_induction afterSubset? letters with
  | case1 => cases found
  | case2 => exact List.mem_cons_of_mem _ (mem_of_after? found (by decide))
  | case3 => cases found
  | case4 following _ present _ _ =>
    exact List.mem_cons_of_mem _ (mem_of_afterDeclaration? present)
  | case5 letter following _ _ inductionHypothesis =>
    exact List.mem_cons_of_mem _ (inductionHypothesis found)

theorem afterSubset?_append (found : afterSubset? letters = some rest) (more : List Char) :
    afterSubset? (letters ++ more) = some (rest ++ more) := by
  fun_induction afterSubset? letters with
  | case1 => cases found
  | case2 =>
    rw [List.cons_append, afterSubset?, if_pos rfl]
    exact after?_append found more
  | case3 => cases found
  | case4 following _ present _ inductionHypothesis =>
    have later := afterDeclaration?_append present more
    rw [List.cons_append, afterSubset?, if_neg ‹_›, if_pos rfl]
    split
    · next absent => cases absent.symm.trans later
    · next other =>
      cases other.symm.trans later
      exact inductionHypothesis found
  | case5 letter following _ _ inductionHypothesis =>
    rw [List.cons_append, afterSubset?, if_neg ‹_›, if_neg ‹_›]
    exact inductionHypothesis found

theorem mem_of_afterDocumentType? (found : afterDocumentType? letters = some rest) :
    '>' ∈ letters := by
  fun_induction afterDocumentType? letters with
  | case1 => cases found
  | case2 => exact List.mem_cons_self
  | case3 => exact List.mem_cons_of_mem _ (mem_of_afterSubset? found)
  | case4 => cases found
  | case5 _ _ _ _ _ after present inductionHypothesis =>
    exact List.mem_cons_of_mem _ ((after?_suffix present).subset (inductionHypothesis found))
  | case6 _ _ _ _ _ inductionHypothesis =>
    exact List.mem_cons_of_mem _ (inductionHypothesis found)

theorem afterDocumentType?_append (found : afterDocumentType? letters = some rest)
    (more : List Char) : afterDocumentType? (letters ++ more) = some (rest ++ more) := by
  fun_induction afterDocumentType? letters with
  | case1 => cases found
  | case2 =>
    cases found
    rw [List.cons_append, afterDocumentType?, if_pos rfl]
  | case3 =>
    rw [List.cons_append, afterDocumentType?, if_neg ‹_›, if_pos rfl]
    exact afterSubset?_append found more
  | case4 => cases found
  | case5 _ _ _ _ _ after present inductionHypothesis =>
    have later := after?_append present more
    rw [List.cons_append, afterDocumentType?, if_neg ‹_›, if_neg ‹_›, if_pos ‹_›]
    split
    · next absent => cases absent.symm.trans later
    · next other =>
      cases other.symm.trans later
      exact inductionHypothesis found
  | case6 _ _ _ _ _ inductionHypothesis =>
    rw [List.cons_append, afterDocumentType?, if_neg ‹_›, if_neg ‹_›, if_neg ‹_›]
    exact inductionHypothesis found

end DocumentType

section Step

variable {opened : List String} {letters : List Char} {step : Step}

/-- The step that reads the same event and leaves more text. -/
def Step.followedBy (step : Step) (more : List Char) : Step :=
  { step with rest := step.rest ++ more }

theorem contentTo_append {fault : Fault} {rest? longer? : Option (List Char)} {more : List Char}
    (found : contentTo opened fault rest? = .ok step)
    (longer : ∀ rest, rest? = some rest → longer? = some (rest ++ more)) (other : Fault) :
    contentTo opened other longer? = .ok (step.followedBy more) := by
  unfold contentTo at found
  split at found
  · cases found
  · next rest =>
    cases found
    rw [longer rest rfl]
    rfl

theorem openElement_append (opened : List String) (text rest more : List Char) :
    openElement opened text (rest ++ more) = (openElement opened text rest).followedBy more := by
  unfold openElement
  split <;> rfl

theorem scanTag_append (found : scanTag opened letters = .ok step) (more : List Char) :
    scanTag opened (letters ++ more) = .ok (step.followedBy more) := by
  unfold scanTag at found ⊢
  split at found
  · cases found
  · next cut =>
    rw [cutTag_append cut]
    unfold closeElement at found ⊢
    split at found
    · cases found
    · split at found
      · next same =>
        cases found
        exact if_pos same
      · cases found
  · next text rest other cut =>
    cases found
    rw [cutTag_append cut]
    split
    · next failed => cases failed
    · next begins =>
      cases begins
      exact (other _ rfl).elim
    · next same =>
      cases same
      rw [openElement_append]

theorem scanDocumentType_append (found : scanDocumentType opened letters = .ok step)
    (more : List Char) :
    scanDocumentType opened (letters ++ more) = .ok (step.followedBy more) := by
  unfold scanDocumentType at found ⊢
  split at found
  · cases found
  · next keyword =>
    split at found
    · cases found
    · next named =>
      have long : 7 ≤ letters.length := by
        have count := congrArg (fun word => word.toList.length) (Decidable.not_not.mp keyword)
        rw [String.toList_ofList, List.length_map, List.length_take] at count
        change min 7 letters.length = 7 at count
        omega
      rw [List.take_append_of_le_length long, if_neg keyword, List.drop_append_of_le_length long]
      -- The declaration ends in the text, so the first letter of its name stands there.
      have begins : (letters.drop 7).dropWhile isSpace ≠ [] := by
        intro blank
        cases ends : afterDocumentType? (letters.drop 7) with
        | none => rw [ends] at found; cases found
        | some rest =>
          have space := List.dropWhile_eq_nil_iff.mp blank _ (mem_of_afterDocumentType? ends)
          cases space
      have sameHead : ((letters.drop 7 ++ more).dropWhile isSpace).head? =
          ((letters.drop 7).dropWhile isSpace).head? := by
        rw [List.dropWhile_append, if_neg (by simpa only [List.isEmpty_iff] using begins)]
        exact List.head?_append_of_ne_nil _ begins
      rw [sameHead, if_neg named]
      exact contentTo_append found (fun rest ends => afterDocumentType?_append ends more) _

theorem scanDeclaration_append (found : scanDeclaration opened letters = .ok step)
    (more : List Char) : scanDeclaration opened (letters ++ more) = .ok (step.followedBy more) := by
  cases letters with
  | nil => cases found
  | cons mark letters =>
    have stripped {start finish : List Char} (rest : List Char)
        (present : (strip? start (mark :: letters)).bind (after? finish) = some rest) :
        (strip? start (mark :: letters ++ more)).bind (after? finish) = some (rest ++ more) := by
      obtain ⟨inner, begins, ends⟩ := Option.bind_eq_some_iff.mp present
      rw [strip?_append begins]
      exact after?_append ends more
    unfold scanDeclaration at found ⊢
    rw [List.cons_append, List.head?_cons] at *
    split at found
    · exact contentTo_append found stripped _
    · exact contentTo_append found stripped _
    · exact scanDocumentType_append found more
    · exact scanDocumentType_append found more
    · cases found

theorem scanInstruction_append (found : scanInstruction opened letters = .ok step)
    (more : List Char) : scanInstruction opened (letters ++ more) = .ok (step.followedBy more) := by
  unfold scanInstruction at found ⊢
  split at found
  · cases found
  · next begun =>
    cases letters with
    | nil => cases found
    | cons letter letters =>
      rw [List.cons_append, List.head?_cons, if_neg (by simpa using begun)]
      exact contentTo_append found (fun rest present => after?_append present more) _

theorem scanMarkup_append (found : scanMarkup opened letters = .ok step) (more : List Char) :
    scanMarkup opened (letters ++ more) = .ok (step.followedBy more) := by
  unfold scanMarkup at found
  split at found
  · exact scanDeclaration_append found more
  · exact scanInstruction_append found more
  · next noDeclaration noInstruction =>
    cases letters with
    | nil => cases found
    | cons letter letters =>
      unfold scanMarkup
      rw [List.cons_append]
      split
      · next begins =>
        cases begins
        exact (noDeclaration _ rfl).elim
      · next begins =>
        cases begins
        exact (noInstruction _ rfl).elim
      · exact scanTag_append found more

theorem scanStep_append {letter : Char} (found : scanStep opened letter letters = .ok step)
    (more : List Char) : scanStep opened letter (letters ++ more) = .ok (step.followedBy more) ∨
      (step = ⟨.content, opened, []⟩ ∧
        ∃ rest, scanStep opened letter (letters ++ more) = .ok ⟨.content, opened, rest⟩) := by
  unfold scanStep at found ⊢
  split at found
  · next bracket =>
    rw [if_pos bracket]
    exact .inl (scanMarkup_append found more)
  · next noBracket =>
    rw [if_neg noBracket]
    split at found
    · next mark =>
      rw [if_pos mark]
      left
      unfold scanReference at found ⊢
      rw [List.dropWhile_append]
      split at found
      · next rest shape =>
        cases found
        rw [shape]
        rfl
      · cases found
    · next text =>
      rw [if_neg text]
      cases found
      rw [List.dropWhile_append]
      split
      · next all =>
        rw [List.isEmpty_iff.mp all]
        exact .inr ⟨rfl, _, rfl⟩
      · exact .inl rfl

end Step

section Scan

variable {opened : List String} {letters : List Char}

/-- The events of a text without faults begin every longer text. -/
theorem scanFrom_append_prefix (faultless : (scanFrom opened letters).fault = none)
    (more : List Char) :
    (scanFrom opened letters).events <+: (scanFrom opened (letters ++ more)).events := by
  induction opened, letters using scanFrom.induct with
  | case1 opened =>
    rw [scanFrom]
    exact List.nil_prefix
  | case2 opened letter following fault failed =>
    rw [scanFrom_of_error failed] at faultless
    cases faultless
  | case3 opened letter following step found inductionHypothesis =>
    rw [scanFrom_of_ok found] at faultless ⊢
    rcases scanStep_append found more with longer | ⟨rfl, rest, longer⟩
    · rw [List.cons_append, scanFrom_of_ok longer, List.cons_prefix_cons]
      exact ⟨rfl, inductionHypothesis faultless⟩
    · rw [List.cons_append, scanFrom_of_ok longer, List.cons_prefix_cons, scanFrom]
      exact ⟨rfl, List.nil_prefix⟩

/-- Text that adds no event to a text without faults only makes its last content longer. -/
theorem scanFrom_append_events (faultless : (scanFrom opened letters).fault = none)
    {more : List Char} (longer : (scanFrom opened (letters ++ more)).fault = none)
    (same : (scanFrom opened (letters ++ more)).events = (scanFrom opened letters).events) :
    more = [] ∨ (scanFrom opened letters).events.getLast? = some .content := by
  induction opened, letters using scanFrom.induct with
  | case1 opened =>
    cases more with
    | nil => exact .inl rfl
    | cons letter more =>
      rw [List.nil_append] at longer same
      cases step : scanStep opened letter more with
      | error fault =>
        rw [scanFrom_of_error step] at longer
        cases longer
      | ok step =>
        rw [scanFrom_of_ok ‹_›, scanFrom] at same
        cases same
  | case2 opened letter following fault failed =>
    rw [scanFrom_of_error failed] at faultless
    cases faultless
  | case3 opened letter following step found inductionHypothesis =>
    rw [scanFrom_of_ok found] at faultless same ⊢
    rcases scanStep_append found more with further | ⟨rfl, rest, further⟩
    · rw [List.cons_append, scanFrom_of_ok further] at longer same
      rcases inductionHypothesis faultless longer (List.cons.inj same).2 with none | last
      · exact .inl none
      · refine .inr ?_
        rw [List.getLast?_cons, last]
        rfl
    · rw [scanFrom]
      exact .inr rfl

/-- A longer text begins with a byte order mark if the text does. -/
theorem exists_scan_eq (filled : letters ≠ []) :
    ∃ unmarked, ∀ more, scan (letters ++ more) = scanFrom [] (unmarked ++ more) := by
  obtain ⟨letter, following, rfl⟩ := List.exists_cons_of_ne_nil filled
  by_cases mark : letter = '\uFEFF'
  · exact ⟨following, fun more => by rw [mark, List.cons_append, scan]⟩
  · refine ⟨letter :: following, fun more => ?_⟩
    rw [List.cons_append, scan]
    intro rest begins
    exact mark (List.cons.inj begins).1

theorem scan_nil : scan [] = ⟨[], none⟩ := by
  simp [scan, scanFrom]

theorem scan_append_prefix (faultless : (scan letters).fault = none) (more : List Char) :
    (scan letters).events <+: (scan (letters ++ more)).events := by
  by_cases filled : letters = []
  · rw [filled, scan_nil]
    exact List.nil_prefix
  · obtain ⟨unmarked, scanned⟩ := exists_scan_eq filled
    have itself := scanned []
    rw [List.append_nil, List.append_nil] at itself
    rw [itself] at faultless ⊢
    rw [scanned]
    exact scanFrom_append_prefix faultless more

/-- A text that ends with a tag is not read to its end before its last letter. -/
theorem eq_nil_of_scan_append_events {event : Event} (faultless : (scan letters).fault = none)
    {more : List Char} (longer : (scan (letters ++ more)).fault = none)
    (same : (scan (letters ++ more)).events = (scan letters).events)
    (last : (scan letters).events.getLast? = some event) (isTag : event ≠ .content) :
    more = [] := by
  have noContent : ¬ (scan letters).events.getLast? = some .content := fun content =>
    isTag (Option.some.inj (last.symm.trans content))
  by_cases filled : letters = []
  · rw [filled, scan_nil] at last
    cases last
  · obtain ⟨unmarked, scanned⟩ := exists_scan_eq filled
    have itself := scanned []
    rw [List.append_nil, List.append_nil] at itself
    rw [itself] at faultless same noContent
    rw [scanned] at longer same
    exact (scanFrom_append_events faultless longer same).resolve_right noContent

end Scan

end NativePeer.Markup
