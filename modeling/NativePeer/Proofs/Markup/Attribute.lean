import Mathlib.Data.List.Nodup
import NativePeer.Proofs.Document.Nesting

/-
This file shows that no tag of a text has two attributes of one key.
-/

namespace NativePeer.Markup

namespace Attribute

/-- The keys of the items that are attributes. -/
def keys (items : List Attribute) : List String :=
  (pairs items).map Prod.fst

/-- Everything but a key with a value of its own. -/
def IsBroken : Attribute → Prop
  | .pair _ _ => False
  | .repeated _ | .malformed => True

variable {first last : List Attribute} {key value : String} {item : Attribute}

theorem pairs_append : pairs (first ++ last) = pairs first ++ pairs last :=
  List.filterMap_append

theorem pairs_pair :
    pairs (first ++ .pair key value :: last) = pairs first ++ (key, value) :: pairs last :=
  pairs_append

/-- A broken item of a tag counts for nothing. -/
theorem pairs_broken (broken : item.IsBroken) :
    pairs (first ++ item :: last) = pairs (first ++ last) := by
  rw [pairs_append, pairs_append]
  cases item with
  | pair => exact broken.elim
  | repeated | malformed => rfl

theorem keys_cons_of_broken (broken : item.IsBroken) : keys (item :: last) = keys last := by
  rw [keys, ← List.nil_append (item :: last), pairs_broken broken]
  rfl

variable {seen : List String} {letters : List Char}

/-- An item has a new key or none. -/
theorem readItem_cases (seen : List String) (first : Char) (letters : List Char) :
    ((readItem seen first letters).item.IsBroken ∧ seen ⊆ (readItem seen first letters).seen) ∨
      ∃ key value, (readItem seen first letters).item = .pair key value ∧ key ∉ seen ∧
        (readItem seen first letters).seen = key :: seen := by
  unfold readItem
  dsimp only
  split
  · exact .inl ⟨trivial, List.Subset.refl _⟩
  · split
    · split
      · exact .inl ⟨trivial, List.Subset.refl _⟩
      · next fresh =>
        unfold readValue
        split
        · exact .inl ⟨trivial, List.subset_cons_self _ _⟩
        · split
          · split
            · exact .inl ⟨trivial, List.subset_cons_self _ _⟩
            · exact .inr ⟨_, _, rfl, fresh, rfl⟩
          · exact .inl ⟨trivial, List.subset_cons_self _ _⟩
    · exact .inl ⟨trivial, List.Subset.refl _⟩

/-- The keys that are still read are distinct and have not been seen. -/
theorem readFrom_keys (seen : List String) (letters : List Char) :
    (keys (readFrom seen letters)).Nodup ∧ ∀ key ∈ keys (readFrom seen letters), key ∉ seen := by
  induction seen, letters using readFrom.induct with
  | case1 seen letters empty =>
    rw [readFrom, empty]
    exact ⟨List.nodup_nil, nofun⟩
  | case2 seen letters first following shape step inductionHypothesis =>
    obtain ⟨distinct, fresh⟩ := inductionHypothesis
    have unfolded : readFrom seen letters = step.item :: readFrom step.seen step.rest := by
      rw [readFrom]
      split
      · next other => cases shape.symm.trans other
      · next other =>
        cases shape.symm.trans other
        rfl
    rw [unfolded]
    rcases readItem_cases seen first following with
      ⟨broken, more⟩ | ⟨key, value, isPair, new, grown⟩
    · rw [keys_cons_of_broken broken]
      exact ⟨distinct, fun key member seenBefore => fresh key member (more seenBefore)⟩
    · change step.seen = key :: seen at grown
      have shape : keys (step.item :: readFrom step.seen step.rest) =
          key :: keys (readFrom step.seen step.rest) := by
        rw [show step.item = .pair key value from isPair]
        rfl
      rw [shape]
      rw [grown] at fresh distinct ⊢
      refine ⟨List.nodup_cons.mpr ⟨fun member => fresh key member List.mem_cons_self, distinct⟩, ?_⟩
      intro other member
      rcases List.mem_cons.mp member with rfl | later
      · exact new
      · exact fun seenBefore => fresh other later (List.mem_cons_of_mem _ seenBefore)

theorem readAll_keys (letters : List Char) : (keys (readAll letters)).Nodup :=
  (readFrom_keys [] letters).1

end Attribute

/-- The tag of an event has no two attributes of one key. -/
def Event.HasDistinctKeys : Event → Prop
  | .opening tag | .selfClosing tag => (Attribute.keys tag.attributes).Nodup
  | .closing _ | .content => True

section Scan

variable {opened : List String} {letters : List Char} {step : Step}

theorem contentTo_event {fault : Fault} {rest? : Option (List Char)}
    (found : contentTo opened fault rest? = .ok step) : step.event = .content := by
  unfold contentTo at found
  split at found <;> cases found
  rfl

theorem scanDocumentType_event (found : scanDocumentType opened letters = .ok step) :
    step.event = .content := by
  unfold scanDocumentType at found
  split at found
  · cases found
  · split at found
    · cases found
    · exact contentTo_event found

theorem scanDeclaration_event (found : scanDeclaration opened letters = .ok step) :
    step.event = .content := by
  unfold scanDeclaration at found
  split at found
  · exact contentTo_event found
  · exact contentTo_event found
  · exact scanDocumentType_event found
  · exact scanDocumentType_event found
  · cases found

theorem scanInstruction_event (found : scanInstruction opened letters = .ok step) :
    step.event = .content := by
  unfold scanInstruction at found
  split at found
  · cases found
  · exact contentTo_event found

theorem scanTag_hasDistinctKeys (found : scanTag opened letters = .ok step) :
    step.event.HasDistinctKeys := by
  unfold scanTag at found
  split at found
  · cases found
  · unfold closeElement at found
    split at found
    · cases found
    · split at found <;> cases found
      trivial
  · cases found
    unfold openElement
    split <;> exact Attribute.readAll_keys _

/-- Only tags have attributes. -/
theorem content_or_scanTag {letter : Char} (found : scanStep opened letter letters = .ok step) :
    step.event = .content ∨ scanTag opened letters = .ok step := by
  unfold scanStep at found
  split at found
  · unfold scanMarkup at found
    split at found
    · exact .inl (scanDeclaration_event found)
    · exact .inl (scanInstruction_event found)
    · exact .inr found
  · left
    split at found
    · unfold scanReference at found
      split at found <;> cases found
      rfl
    · cases found
      rfl

theorem scanFrom_hasDistinctKeys (opened : List String) (letters : List Char) :
    ∀ event ∈ (scanFrom opened letters).events, event.HasDistinctKeys := by
  induction opened, letters using scanFrom.induct with
  | case1 opened =>
    rw [scanFrom]
    exact List.forall_mem_nil _
  | case2 opened letter following fault failed =>
    rw [scanFrom_of_error failed]
    exact List.forall_mem_nil _
  | case3 opened letter following step found inductionHypothesis =>
    rw [scanFrom_of_ok found]
    refine List.forall_mem_cons.mpr ⟨?_, inductionHypothesis⟩
    rcases content_or_scanTag found with isContent | isTag
    · rw [isContent]
      trivial
    · exact scanTag_hasDistinctKeys isTag

theorem scan_hasDistinctKeys (letters : List Char) :
    ∀ event ∈ (scan letters).events, event.HasDistinctKeys := by
  unfold scan
  split <;> exact scanFrom_hasDistinctKeys [] _

end Scan

end NativePeer.Markup
