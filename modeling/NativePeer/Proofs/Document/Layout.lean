import Mathlib.Logic.Relation
import NativePeer.Proofs.Document.Attributes
import NativePeer.Proofs.Document.Replacement
import NativePeer.Proofs.Document.Truncation
import NativePeer.Proofs.Markup.Attribute

/-
This file shows that the layout of a document does not count.
-/

namespace NativePeer

namespace Document

open Markup

/-- The elements that count in a document. -/
def knownElements : List String :=
  ["model", "class", "field", "method", "param"]

/-- One piece of markup that is written in another way. -/
inductive Rewrite : List Event → List Event → Prop where
  | expand (tag : Tag) : Rewrite [.selfClosing tag] [.opening tag, .closing tag.name]
  | collapse (tag : Tag) : Rewrite [.opening tag, .closing tag.name] [.selfClosing tag]
  | permute {attributes others : List Attribute} (closes : Bool) (name : String)
    (perm : attributes.Perm others) :
    Rewrite [tagEvent closes ⟨name, attributes⟩] [tagEvent closes ⟨name, others⟩]
  | addAttribute {first last : List Attribute} {name key : String} (closes : Bool) (value : String)
    (unknown : key ∉ knownKeys name) (unused : key ∉ Attribute.keys (first ++ last)) :
    Rewrite [tagEvent closes ⟨name, first ++ last⟩]
      [tagEvent closes ⟨name, first ++ .pair key value :: last⟩]
  | addContent : Rewrite [] [.content]
  | addElement {tag : Tag} (unknown : tag.name ∉ knownElements) : Rewrite [] [.selfClosing tag]

/-- One rewrite somewhere in a document. -/
inductive Relayout : List Event → List Event → Prop where
  | within {first second : List Event} (before after : List Event)
    (rewrite : Rewrite first second) :
    Relayout (before ++ first ++ after) (before ++ second ++ after)

/-- The tag of an element that counts has no two attributes of one key. -/
def IsTidy : Event → Prop
  | .opening tag | .selfClosing tag =>
    tag.name ∈ knownElements → (Attribute.keys tag.attributes).Nodup
  | .closing _ | .content => True

theorem isTidy_of_hasDistinctKeys {event : Event} (distinct : event.HasDistinctKeys) :
    IsTidy event := by
  cases event with
  | opening | selfClosing => exact fun _ => distinct
  | closing | content => trivial

theorem isTidy_tagEvent {closes : Bool} {tag : Tag} :
    IsTidy (tagEvent closes tag) ↔
      (tag.name ∈ knownElements → (Attribute.keys tag.attributes).Nodup) := by
  cases closes <;> rfl

theorem keys_perm {attributes others : List Attribute} (perm : attributes.Perm others) :
    (Attribute.keys attributes).Perm (Attribute.keys others) :=
  (perm.filterMap _).map _

theorem Rewrite.isTidy {first second : List Event} (rewrite : Rewrite first second)
    (tidy : ∀ event ∈ first, IsTidy event) : ∀ event ∈ second, IsTidy event := by
  cases rewrite with
  | expand tag =>
    simpa [IsTidy] using tidy
  | collapse tag => simpa [IsTidy] using tidy
  | permute closes name perm =>
    simp only [List.forall_mem_singleton, isTidy_tagEvent] at tidy ⊢
    exact fun known => (keys_perm perm).nodup (tidy known)
  | @addAttribute first last name key closes value unknown unused =>
    simp only [List.forall_mem_singleton, isTidy_tagEvent] at tidy ⊢
    intro known
    have moved : (Attribute.keys (first ++ .pair key value :: last)).Perm
        (key :: Attribute.keys (first ++ last)) := keys_perm List.perm_middle
    exact moved.nodup_iff.mpr (List.nodup_cons.mpr ⟨unused, tidy known⟩)
  | addContent => simp [IsTidy]
  | addElement unknown => simp [IsTidy, unknown]

/-- Both pieces of markup lead every reader to the same place unless they stop it. -/
def SameEffect (first second : List Event) : Prop :=
  ∀ reader last, first.foldlM Reader.step reader = .ok last ↔
    second.foldlM Reader.step reader = .ok last

theorem SameEffect.symm {first second : List Event} (same : SameEffect first second) :
    SameEffect second first :=
  fun reader last => (same reader last).symm

theorem SameEffect.within {first second : List Event} (same : SameEffect first second)
    (before after : List Event) :
    SameEffect (before ++ first ++ after) (before ++ second ++ after) := by
  intro reader last
  simp only [List.foldlM_append, bind_assoc, except_bind_eq_ok]
  exact exists_congr fun middle => and_congr_right fun _ =>
    exists_congr fun next => and_congr_left fun _ => same middle next

section Tags

variable {name : String} {attributes others : List Attribute}

/-- Tags are alike if whoever looks at the known attributes only reads as much from both. -/
theorem equal_tags (reads : name ∈ knownElements → ∀ {A B : Type} {slots : Slots A}
      {read : List (String × String) → Except DocumentError B} {found : B},
      slots.keys = knownKeys name → slots.Reads read →
        read (Attribute.pairs attributes) = .ok found → read (Attribute.pairs others) = .ok found) :
    Likeness.equal.Tags ⟨name, attributes⟩ ⟨name, others⟩ where
  name := rfl
  ofClass := by
    rintro rfl declared read
    exact ⟨declared, reads (by decide) rfl readClass_reads read, rfl⟩
  ofField := by
    rintro rfl current longer read
    obtain ⟨field, fieldRead, added⟩ := except_bind_eq_ok.mp read
    refine ⟨longer, ?_, rfl⟩
    exact except_bind_eq_ok.mpr ⟨field, reads (by decide) rfl readField_reads fieldRead, added⟩
  ofMethod := by
    rintro rfl method read
    exact ⟨method, reads (by decide) rfl readMethod_reads read, rfl⟩
  ofParameter := by
    rintro rfl method longer read
    rw [parameterOf, if_pos ⟨rfl, rfl⟩] at read ⊢
    obtain ⟨parameter, parameterRead, added⟩ := except_bind_eq_ok.mp read
    refine ⟨longer, ?_, rfl⟩
    exact except_bind_eq_ok.mpr
      ⟨parameter, reads (by decide) rfl readParameter_reads parameterRead, added⟩

theorem step_of_equal_tags {tag other : Tag} (tags : Likeness.equal.Tags tag other) {closes : Bool}
    {reader next : Reader} (stepped : reader.step (tagEvent closes tag) = .ok next) :
    reader.step (tagEvent closes other) = .ok next := by
  obtain ⟨twin, alsoStepped, readers⟩ :=
    Likeness.step_follows (fun _ => rfl) tags reader closes next stepped
  rw [alsoStepped, Likeness.eq_of_equal readers]

theorem sameEffect_of_tags {tag other : Tag} (tags : Likeness.equal.Tags tag other)
    (back : Likeness.equal.Tags other tag) (closes : Bool) :
    SameEffect [tagEvent closes tag] [tagEvent closes other] := by
  intro reader last
  simp only [List.foldlM_cons, List.foldlM_nil, bind_pure]
  exact ⟨step_of_equal_tags tags, step_of_equal_tags back⟩

end Tags

theorem step_content (reader : Reader) : reader.step .content = .ok reader := by
  cases reader <;> rfl

/-- An element without content closes itself or is closed at once. -/
theorem step_opening_closing (reader : Reader) (tag : Tag) (name : String) :
    (reader.step (.opening tag) >>= fun next => next.step (.closing name)) =
      reader.step (.selfClosing tag) := by
  cases reader with
  | outside start =>
    change (stepOutside start (.opening tag) >>= _) = stepOutside start (.selfClosing tag)
    rw [stepOutside, stepOutside]
    split
    · rfl
    · split
      · cases classOf start tag <;> rfl
      · rfl
  | inClass model current depth =>
    change (stepInClass model current depth (.opening tag) >>= _) =
      stepInClass model current depth (.selfClosing tag)
    rw [stepInClass, stepInClass]
    split
    · cases readMethod (Attribute.pairs tag.attributes) <;> rfl
    · split
      · cases fieldOf current tag <;> rfl
      · rfl
  | inMethod model current method depth =>
    change (stepInMethod model current method depth (.opening tag) >>= _) =
      stepInMethod model current method depth (.selfClosing tag)
    rw [stepInMethod, stepInMethod]
    cases parameterOf method depth tag <;> rfl

theorem step_unknown {tag : Tag} (unknown : tag.name ∉ knownElements) (reader : Reader) :
    reader.step (.selfClosing tag) = .ok reader := by
  simp only [knownElements, List.mem_cons, List.not_mem_nil, or_false, not_or] at unknown
  obtain ⟨noModel, noClass, noField, noMethod, noParameter⟩ := unknown
  cases reader with
  | outside start =>
    rw [Reader.step, stepOutside, if_neg noModel, if_neg noClass]
  | inClass model current depth =>
    rw [Reader.step, stepInClass, if_neg fun both => noMethod both.2,
      if_neg fun both => noField both.2]
  | inMethod model current method depth =>
    rw [Reader.step, stepInMethod, parameterOf, if_neg fun both => noParameter both.2]
    rfl

theorem sameEffect_closed (tag : Tag) :
    SameEffect [.opening tag, .closing tag.name] [.selfClosing tag] := by
  intro reader last
  rw [List.foldlM_cons, List.foldlM_cons, ← step_opening_closing reader tag tag.name]
  simp only [List.foldlM_cons, List.foldlM_nil, bind_pure]

/-- A rewrite leads every reader to the same place. -/
theorem Rewrite.sameEffect {first second : List Event} (rewrite : Rewrite first second)
    (tidy : ∀ event ∈ first, IsTidy event) : SameEffect first second := by
  cases rewrite with
  | expand tag => exact (sameEffect_closed tag).symm
  | collapse tag => exact sameEffect_closed tag
  | permute closes name perm =>
    simp only [List.forall_mem_singleton, isTidy_tagEvent] at tidy
    have distinct := tidy
    refine sameEffect_of_tags (equal_tags ?_) (equal_tags ?_) closes
    · intro known A B slots read found _ reads
      exact reads.perm (perm.filterMap _) (tidy known)
    · intro known A B slots read found _ reads
      exact reads.perm (perm.symm.filterMap _) ((keys_perm perm).nodup (tidy known))
  | addAttribute closes value unknown unused =>
    refine sameEffect_of_tags (equal_tags ?_) (equal_tags ?_) closes
    · intro known A B slots read found same reads succeeded
      rw [Attribute.pairs_pair, reads.unknown (same ▸ unknown), ← Attribute.pairs_append]
      exact succeeded
    · intro known A B slots read found same reads succeeded
      rw [Attribute.pairs_pair, reads.unknown (same ▸ unknown), ← Attribute.pairs_append]
        at succeeded
      exact succeeded
  | addContent =>
    intro reader last
    simp only [List.foldlM_cons, List.foldlM_nil, bind_pure, step_content]
    rfl
  | addElement unknown =>
    intro reader last
    simp only [List.foldlM_cons, List.foldlM_nil, bind_pure, step_unknown unknown]
    rfl

theorem Relayout.isTidy {first second : List Event} (relayout : Relayout first second)
    (tidy : ∀ event ∈ first, IsTidy event) : ∀ event ∈ second, IsTidy event := by
  obtain ⟨before, after, rewrite⟩ := relayout
  simp only [List.forall_mem_append] at tidy ⊢
  exact ⟨⟨tidy.1.1, rewrite.isTidy tidy.1.2⟩, tidy.2⟩

theorem Relayout.sameEffect {first second : List Event} (relayout : Relayout first second)
    (tidy : ∀ event ∈ first, IsTidy event) : SameEffect first second := by
  obtain ⟨before, after, rewrite⟩ := relayout
  simp only [List.forall_mem_append] at tidy
  exact (rewrite.sameEffect tidy.1.2).within before after

/-- Any number of rewrites leaves the document tidy and leads every reader to the same place. -/
theorem sameEffect_of_relayouts {first second : List Event}
    (relayouts : Relation.ReflTransGen Relayout first second)
    (tidy : ∀ event ∈ first, IsTidy event) :
    (∀ event ∈ second, IsTidy event) ∧ SameEffect first second := by
  -- Attributes may change places only in a tidy document, so both facts go together through the
  -- induction.
  induction relayouts with
  | refl => exact ⟨tidy, fun _ _ => Iff.rfl⟩
  | tail _ relayout inductionHypothesis =>
    obtain ⟨stillTidy, same⟩ := inductionHypothesis
    exact ⟨relayout.isTidy stillTidy,
      fun reader last => (same reader last).trans (relayout.sameEffect stillTidy reader last)⟩

/-- A document that is laid out in another way is accepted with the same model. -/
theorem read_relayout {text other : String} {model : ClassModel}
    (relayouts : Relation.ReflTransGen Relayout (scan text.toList).events
      (scan other.toList).events)
    (faults : (scan text.toList).fault = (scan other.toList).fault) :
    Document.read text = .ok model ↔ Document.read other = .ok model := by
  have tidy : ∀ event ∈ (scan text.toList).events, IsTidy event := fun event member =>
    isTidy_of_hasDistinctKeys (scan_hasDistinctKeys text.toList event member)
  obtain ⟨_, same⟩ := sameEffect_of_relayouts relayouts tidy
  rw [Document.read, Document.read, readScan_eq_ok, readScan_eq_ok, faults, same]

/-- Two layouts of one document. -/
def compactDocument : String :=
  "<model><class name=\"a.A\"><field name=\"limit\" type=\"int\" value=\"7\"/></class></model>"

def spreadDocument : String :=
  "<model><!-- a --><class name=\"a.A\" note=\"x\"><extra/>" ++
    "<field value=\"7\" type=\"int\" name=\"limit\"></field></class></model>"

theorem read_relayout_spread :
    ∃ model, Document.read compactDocument = .ok model ∧ Document.read spreadDocument = .ok model ∧
      (model.get? "a.A").map (·.fields.map Field.name) = some ["limit"] := by
  let model : Event := .opening ⟨"model", []⟩
  let name : Attribute := .pair "name" "a.A"
  let note : Attribute := .pair "note" "x"
  let extra : Tag := ⟨"extra", []⟩
  let limit : Attribute := .pair "name" "limit"
  let type : Attribute := .pair "type" "int"
  let value : Attribute := .pair "value" "7"
  let ends : List Event := [.closing "class", .closing "model"]
  have compact : scan compactDocument.toList = ⟨[model, .opening ⟨"class", [name]⟩,
      .selfClosing ⟨"field", [limit, type, value]⟩] ++ ends, none⟩ := by decide +kernel
  have spread : scan spreadDocument.toList = ⟨[model, .content, .opening ⟨"class", [name, note]⟩,
      .selfClosing extra, .opening ⟨"field", [value, type, limit]⟩, .closing "field"] ++ ends,
      none⟩ := by decide +kernel
  have annotated : Rewrite [tagEvent false ⟨"class", [name] ++ []⟩]
      [tagEvent false ⟨"class", [name] ++ note :: []⟩] :=
    .addAttribute false "x" (by decide) (by decide)
  have extended : Rewrite [] [.selfClosing extra] := .addElement (by decide)
  have turned : Rewrite [tagEvent true ⟨"field", [limit, type, value]⟩]
      [tagEvent true ⟨"field", [value, type, limit]⟩] := .permute true "field" (by decide)
  have relayouts : Relation.ReflTransGen Relayout (scan compactDocument.toList).events
      (scan spreadDocument.toList).events := by
    rw [compact, spread]
    let field : Event := .selfClosing ⟨"field", [limit, type, value]⟩
    let begun : List Event := [model, .content, .opening ⟨"class", [name, note]⟩]
    exact .head (.within [model] (.opening ⟨"class", [name]⟩ :: field :: ends) .addContent)
      (.head (.within [model, .content] (field :: ends) annotated)
      (.head (.within begun (field :: ends) extended)
      (.head (.within (begun ++ [.selfClosing extra]) ends turned)
      (.single (.within (begun ++ [.selfClosing extra]) ends (.expand _))))))
  have names : (Document.read compactDocument).map
      (fun model => (model.get? "a.A").map (·.fields.map Field.name)) = .ok (some ["limit"]) := by
    decide +kernel
  obtain ⟨found, accepted, same⟩ := except_map_eq_ok.mp names
  exact ⟨found, accepted, (read_relayout relayouts (by rw [compact, spread])).mp accepted, same⟩

end Document

end NativePeer
