import NativePeer.Proofs.Document.Attributes
import NativePeer.Proofs.Document.Replacement
import NativePeer.Proofs.Document.Truncation
import NativePeer.Proofs.Markup.Attribute

/-
This file says what becomes of an attribute that is malformed or comes again.
-/

namespace NativePeer

/-- The names of a method and its parameters. -/
def Method.names (method : Method) : String × List String :=
  (method.name, method.parameters.map Parameter.name)

/-- The names of a class and its members. -/
def ManagedClass.names (declared : ManagedClass) :
    String × List String × List (String × List String) :=
  (declared.qualifiedName, declared.fields.map Field.name, declared.methods.map Method.names)

def ClassModel.memberNames (model : ClassModel) :
    List (String × List String × List (String × List String)) :=
  model.classes.map ManagedClass.names

theorem ClassModel.map_fst_memberNames (model : ClassModel) :
    model.memberNames.map Prod.fst = model.names := by
  simp [names, memberNames, ManagedClass.names]

namespace Document

open Markup

section Names

variable {first second : ManagedClass} {method other : Method}

theorem addField_named {field less : Field} (sameField : field.name = less.name)
    (classes : first.names = second.names) :
    Alike (fun left right => left.names = right.names) (addField first field)
      (addField second less) := by
  obtain ⟨sameName, others⟩ := Prod.mk.inj classes
  obtain ⟨fields, methods⟩ := Prod.mk.inj others
  unfold addField
  rw [← fields, ← sameField]
  split
  · rw [sameName]
    exact .failed _
  · refine .done ?_
    simp [ManagedClass.names, sameName, fields, methods, sameField]

theorem addParameter_named {parameter less : Parameter}
    (sameParameter : parameter.name = less.name) (methods : method.names = other.names) :
    Alike (fun left right => left.names = right.names) (addParameter method parameter)
      (addParameter other less) := by
  obtain ⟨sameName, parameters⟩ := Prod.mk.inj methods
  unfold addParameter
  rw [← parameters, ← sameParameter]
  split
  · rw [sameName]
    exact .failed _
  · refine .done ?_
    simp [Method.names, sameName, parameters, sameParameter]

theorem add_named {model later : ClassModel} (models : model.memberNames = later.memberNames)
    (classes : first.names = second.names) :
    Alike (fun left right => left.memberNames = right.memberNames) (model.add first)
      (later.add second) := by
  have sameName : first.qualifiedName = second.qualifiedName := (Prod.mk.inj classes).1
  have names : model.names = later.names := by
    rw [← model.map_fst_memberNames, models, later.map_fst_memberNames]
  by_cases fresh : first.qualifiedName ∉ model.names
  · obtain ⟨longer, accepted, longerClasses⟩ := model.add_of_fresh fresh
    obtain ⟨otherLonger, otherAccepted, otherClasses⟩ :=
      later.add_of_fresh (sameName ▸ names ▸ fresh)
    rw [accepted, otherAccepted]
    refine .done ?_
    simp only [ClassModel.memberNames, longerClasses, otherClasses, List.map_append, List.map_cons,
      List.map_nil] at models ⊢
    rw [models, classes]
  · have taken := Decidable.not_not.mp fresh
    rw [ClassModel.add_of_taken taken, ClassModel.add_of_taken (sameName ▸ names ▸ taken), sameName]
    exact .failed _

/-- Readers that have met the same names. -/
def Likeness.named : Likeness where
  models := fun model later => model.memberNames = later.memberNames
  classes := fun first second => first.names = second.names
  methods := fun method other => method.names = other.names
  runtime := rfl
  header _ := rfl
  signature _ := rfl
  className same := (Prod.mk.inj same).1
  methodName same := (Prod.mk.inj same).1
  add := add_named
  addField _ classes := addField_named rfl classes
  addMethod := by
    intro first second method other classes methods
    simp only [ManagedClass.names, Prod.mk.injEq] at classes
    simp [ManagedClass.names, Document.addMethod, classes, methods]
  addParameter _ methods := addParameter_named rfl methods

end Names

/-- The attributes that an element has to have. -/
def requiredKeys (element : String) : List String :=
  match element with
  | "class" => ["name"]
  | "field" => ["name", "type"]
  | "method" => ["name", "returns"]
  | "param" => ["name", "type"]
  | _ => []

/-- Without the attribute the element is refused if it has to have it. Otherwise it is read and
keeps its names. -/
structure ReadsWithout {B N : Type} (element key : String) (names : B → N) (value : B)
    (result : Except DocumentError B) : Prop where
  needed : key ∈ requiredKeys element → result = .error (.missingAttribute element key)
  dropped : key ∉ requiredKeys element → ∃ less, result = .ok less ∧ names value = names less

/-- An attribute that is left out is missed if it is required. -/
theorem required_pair_without {T U B : Type} {element first second key : String} {one : Option T}
    {two : Option U} {given : T} {other : U} {next : T → U → Except DocumentError B}
    (ofFirst : (first = key → one = none) ∧ (first ≠ key → one = some given))
    (ofSecond : (second = key → two = none) ∧ (second ≠ key → two = some other))
    (apart : first ≠ second) :
    (key ∈ [first, second] → (required element first one >>= fun found =>
      required element second two >>= next found) = .error (.missingAttribute element key)) ∧
    (key ∉ [first, second] → (required element first one >>= fun found =>
      required element second two >>= next found) = next given other) := by
  constructor
  · intro needed
    rcases List.mem_pair.mp needed with rfl | rfl
    · rw [ofFirst.1 rfl]
      rfl
    · rw [ofFirst.2 apart, ofSecond.1 rfl]
      rfl
  · intro optional
    have notNeeded := not_or.mp (List.mem_pair.not.mp optional)
    rw [ofFirst.2 (Ne.symm notNeeded.1), ofSecond.2 (Ne.symm notNeeded.2)]
    rfl

section Without

variable {pairs others : List (String × String)} {key text : String}
  (distinct : ((pairs ++ (key, text) :: others).map Prod.fst).Nodup)
include distinct

theorem readClass_without {declared : ManagedClass}
    (read : readClass (pairs ++ (key, text) :: others) = .ok declared) :
    ReadsWithout "class" key ManagedClass.names declared (readClass (pairs ++ others)) := by
  have name : classSlots.IsSetBy "name" ClassAttributes.name := by
    simp [Slots.IsSetBy, classSlots, Slot.plain]
  unfold readClass at read ⊢
  rw [← classSlots_set] at read ⊢
  obtain ⟨attributes, folded, rest⟩ := except_bind_eq_ok.mp read
  obtain ⟨found, named, rest⟩ := except_bind_eq_ok.mp rest
  obtain ⟨less, lessFolded, gets⟩ := Slots.foldlM_without distinct folded
  rw [lessFolded, except_ok_bind]
  constructor
  · intro needed
    cases List.mem_singleton.mp needed
    rw [(gets name).1 rfl]
    rfl
  · intro optional
    have other : "name" ≠ key := fun same => optional (List.mem_singleton.mpr same.symm)
    rw [(gets name).2 other, named, except_ok_bind]
    split at rest
    · cases rest
    · next filled =>
      cases rest
      rw [if_neg filled]
      exact ⟨_, rfl, rfl⟩

theorem readField_without {field : Field}
    (read : readField (pairs ++ (key, text) :: others) = .ok field) :
    ReadsWithout "field" key Field.name field (readField (pairs ++ others)) := by
  have name : fieldSlots.IsSetBy "name" FieldAttributes.name := by
    simp [Slots.IsSetBy, fieldSlots, Slot.plain]
  have type : fieldSlots.IsSetBy "type" FieldAttributes.type := by
    simp [Slots.IsSetBy, fieldSlots, Slot.plain]
  have value : fieldSlots.IsSetBy "value" FieldAttributes.value := by
    simp [Slots.IsSetBy, fieldSlots, Slot.plain]
  unfold readField at read ⊢
  rw [← fieldSlots_set] at read ⊢
  simp only [except_bind_eq_ok, required_eq_ok] at read
  obtain ⟨attributes, folded, found, named, kind, typed, constant, constantRead, same⟩ := read
  obtain ⟨less, lessFolded, gets⟩ := Slots.foldlM_without distinct folded
  cases same
  have ofName := named ▸ gets name
  have ofType := typed ▸ gets type
  -- Without its text there is no constant. Any other attribute leaves text and type as they are.
  have constants : ∃ constant, readConstant kind less.value = .ok constant := by
    by_cases same : "value" = key
    · exact ⟨none, by rw [(gets value).1 same]; rfl⟩
    · exact ⟨constant, by rw [(gets value).2 same, constantRead]⟩
  obtain ⟨other, otherRead⟩ := constants
  rw [lessFolded, except_ok_bind]
  refine ⟨(required_pair_without ofName ofType (by decide)).1, fun optional => ?_⟩
  rw [(required_pair_without ofName ofType (by decide)).2 optional, otherRead]
  exact ⟨_, rfl, rfl⟩

theorem readMethod_without {method : Method}
    (read : readMethod (pairs ++ (key, text) :: others) = .ok method) :
    ReadsWithout "method" key Method.names method (readMethod (pairs ++ others)) := by
  have name : methodSlots.IsSetBy "name" MethodAttributes.name := by
    simp [Slots.IsSetBy, methodSlots, Slot.plain]
  have returns : methodSlots.IsSetBy "returns" MethodAttributes.returns := by
    simp [Slots.IsSetBy, methodSlots, Slot.plain]
  unfold readMethod at read ⊢
  rw [← methodSlots_set] at read ⊢
  simp only [except_bind_eq_ok, required_eq_ok] at read
  obtain ⟨attributes, folded, found, named, kind, typed, same⟩ := read
  obtain ⟨less, lessFolded, gets⟩ := Slots.foldlM_without distinct folded
  cases same
  have ofName := named ▸ gets name
  have ofReturns := typed ▸ gets returns
  rw [lessFolded, except_ok_bind]
  refine ⟨(required_pair_without ofName ofReturns (by decide)).1, fun optional => ?_⟩
  rw [(required_pair_without ofName ofReturns (by decide)).2 optional]
  exact ⟨_, rfl, rfl⟩

theorem readParameter_without {parameter : Parameter}
    (read : readParameter (pairs ++ (key, text) :: others) = .ok parameter) :
    ReadsWithout "param" key Parameter.name parameter (readParameter (pairs ++ others)) := by
  have name : parameterSlots.IsSetBy "name" ParameterAttributes.name := by
    simp [Slots.IsSetBy, parameterSlots, Slot.plain]
  have type : parameterSlots.IsSetBy "type" ParameterAttributes.type := by
    simp [Slots.IsSetBy, parameterSlots, Slot.plain]
  unfold readParameter at read ⊢
  rw [← parameterSlots_set] at read ⊢
  simp only [except_bind_eq_ok, required_eq_ok] at read
  obtain ⟨attributes, folded, found, named, kind, typed, rest⟩ := read
  obtain ⟨less, lessFolded, gets⟩ := Slots.foldlM_without distinct folded
  have ofName := named ▸ gets name
  have ofType := typed ▸ gets type
  rw [lessFolded, except_ok_bind]
  refine ⟨(required_pair_without ofName ofType (by decide)).1, fun optional => ?_⟩
  rw [(required_pair_without ofName ofType (by decide)).2 optional]
  exact ⟨parameter, rest, rfl⟩

end Without

/-- The reader looks at the attributes of an element of this name. -/
def Reader.LooksAt (name : String) : Reader → Prop
  | .outside start => start.isSome = true ∧ name = "class"
  | .inClass _ _ depth => depth = 0 ∧ (name = "method" ∨ name = "field")
  | .inMethod _ _ _ depth => depth = 0 ∧ name = "param"

/-- What is wrong with the attributes of an element by themselves. -/
def checkAttributes (tag : Tag) : Except DocumentError Unit :=
  let pairs := Attribute.pairs tag.attributes
  match tag.name with
  | "class" => (readClass pairs).map fun _ => ()
  | "field" => (readField pairs).map fun _ => ()
  | "method" => (readMethod pairs).map fun _ => ()
  | "param" => (readParameter pairs).map fun _ => ()
  | _ => .ok ()

/-- A reader fails at a tag with attributes that it cannot read. -/
theorem step_of_checkAttributes {reader : Reader} {tag : Tag} {error : DocumentError}
    (looks : reader.LooksAt tag.name) (failed : checkAttributes tag = .error error)
    (closes : Bool) : reader.step (tagEvent closes tag) = .error error := by
  obtain ⟨name, attributes⟩ := tag
  cases reader with
  | outside start =>
    obtain ⟨started, rfl⟩ := looks
    obtain ⟨model, rfl⟩ := Option.isSome_iff_exists.mp started
    have unread : classOf (some model) ⟨"class", attributes⟩ = .error error := by
      rw [classOf, except_map_eq_error.mp failed]
      rfl
    cases closes with
    | false | true =>
      change (classOf (some model) ⟨"class", attributes⟩ >>= _) = _
      rw [unread]
      rfl
  | inClass model current depth =>
    obtain ⟨rfl, rfl | rfl⟩ := looks
    · cases closes with
      | false | true =>
        change (readMethod (Attribute.pairs attributes) >>= _) = _
        rw [except_map_eq_error.mp failed]
        rfl
    · have unread : fieldOf current ⟨"field", attributes⟩ = .error error := by
        rw [fieldOf, except_map_eq_error.mp failed]
        rfl
      cases closes with
      | false | true =>
        change (fieldOf current ⟨"field", attributes⟩ >>= _) = _
        rw [unread]
        rfl
  | inMethod model current method depth =>
    obtain ⟨rfl, rfl⟩ := looks
    have unread : parameterOf method 0 ⟨"param", attributes⟩ = .error error := by
      rw [parameterOf, if_pos ⟨rfl, rfl⟩, except_map_eq_error.mp failed]
      rfl
    cases closes with
    | false | true =>
      change (parameterOf method 0 ⟨"param", attributes⟩ >>= _) = _
      rw [unread]
      rfl

section Tags

variable {name key value : String} {first last : List Attribute}
  (distinct : (Attribute.keys (first ++ .pair key value :: last)).Nodup)
include distinct

/-- An element without an attribute that it has to have is refused for it. -/
theorem checkAttributes_without (required : key ∈ requiredKeys name)
    (checked : checkAttributes ⟨name, first ++ .pair key value :: last⟩ = .ok ()) :
    checkAttributes ⟨name, first ++ last⟩ = .error (.missingAttribute name key) := by
  rw [Attribute.keys, Attribute.pairs_pair] at distinct
  unfold checkAttributes at checked ⊢
  dsimp only at checked ⊢
  rw [Attribute.pairs_pair] at checked
  rw [Attribute.pairs_append]
  split at checked
  · obtain ⟨declared, read, _⟩ := except_map_eq_ok.mp checked
    rw [(readClass_without distinct read).needed required]
    rfl
  · obtain ⟨field, read, _⟩ := except_map_eq_ok.mp checked
    rw [(readField_without distinct read).needed required]
    rfl
  · obtain ⟨method, read, _⟩ := except_map_eq_ok.mp checked
    rw [(readMethod_without distinct read).needed required]
    rfl
  · obtain ⟨parameter, read, _⟩ := except_map_eq_ok.mp checked
    rw [(readParameter_without distinct read).needed required]
    rfl
  · next noClass noField noMethod noParameter =>
    simp [requiredKeys] at required

/-- An element without any other attribute is read and keeps its names. -/
theorem named_tags_without (optional : key ∉ requiredKeys name) :
    Likeness.named.Tags ⟨name, first ++ .pair key value :: last⟩ ⟨name, first ++ last⟩ where
  name := rfl
  ofClass := by
    rintro rfl declared read
    rw [Attribute.pairs_pair] at read
    rw [Attribute.keys, Attribute.pairs_pair] at distinct
    rw [Attribute.pairs_append]
    exact (readClass_without distinct read).dropped optional
  ofField := by
    rintro rfl current
    rw [Attribute.keys, Attribute.pairs_pair] at distinct
    rw [fieldOf, fieldOf, Attribute.pairs_pair, Attribute.pairs_append]
    exact Follows.bind (fun field read => (readField_without distinct read).dropped optional)
      fun field less same => (addField_named same rfl).follows
  ofMethod := by
    rintro rfl method read
    rw [Attribute.pairs_pair] at read
    rw [Attribute.keys, Attribute.pairs_pair] at distinct
    rw [Attribute.pairs_append]
    exact (readMethod_without distinct read).dropped optional
  ofParameter := by
    rintro rfl method
    rw [Attribute.keys, Attribute.pairs_pair] at distinct
    rw [parameterOf, parameterOf, if_pos ⟨rfl, rfl⟩, if_pos ⟨rfl, rfl⟩, Attribute.pairs_pair,
      Attribute.pairs_append]
    exact Follows.bind
      (fun parameter read => (readParameter_without distinct read).dropped optional)
      fun parameter less same => (addParameter_named same rfl).follows

end Tags

theorem step_congr_pairs {name : String} {attributes others : List Attribute}
    (same : Attribute.pairs attributes = Attribute.pairs others) (reader : Reader) (closes : Bool) :
    reader.step (tagEvent closes ⟨name, attributes⟩) =
      reader.step (tagEvent closes ⟨name, others⟩) := by
  cases reader <;> cases closes <;>
    simp only [tagEvent, Reader.step, stepOutside, stepInClass, stepInMethod, classOf, fieldOf,
      parameterOf, same]

/-- A document but for the attributes of one of its tags. -/
structure Frame where
  before : List Event
  closes : Bool
  name : String
  after : List Event
  fault : Option Fault

def Frame.fill (frame : Frame) (attributes : List Attribute) : Scan :=
  ⟨frame.before ++ tagEvent frame.closes ⟨frame.name, attributes⟩ :: frame.after, frame.fault⟩

variable {text : String} {frame : Frame} {first last : List Attribute} {item : Attribute}

/-- An item that is no attribute is passed over. Where it stands for an attribute of a document that
is accepted, the element is refused if it has to have that attribute. Otherwise the document is
accepted without the attribute. -/
theorem read_broken_attribute (scanned : scan text.toList = frame.fill (first ++ item :: last))
    (broken : item.IsBroken) :
    Document.read text = readScan (frame.fill (first ++ last)) ∧
    ∀ key value model, (Attribute.keys (first ++ .pair key value :: last)).Nodup →
      readScan (frame.fill (first ++ .pair key value :: last)) = .ok model →
      (key ∉ requiredKeys frame.name →
        ∃ smaller, Document.read text = .ok smaller ∧ smaller.memberNames = model.memberNames) ∧
      ∀ reader, frame.before.foldlM Reader.step (.outside none) = .ok reader →
        reader.LooksAt frame.name → key ∈ requiredKeys frame.name →
          Document.read text = .error (.missingAttribute frame.name key) := by
  obtain ⟨before, closes, name, after, fault⟩ := frame
  have passed : Document.read text = readScan (Frame.fill ⟨before, closes, name, after, fault⟩
      (first ++ last)) := by
    rw [Document.read, scanned, readScan, readScan]
    simp only [Frame.fill, List.foldlM_append, List.foldlM_cons,
      step_congr_pairs (Attribute.pairs_broken broken)]
  refine ⟨passed, fun key value model distinct mended => ?_⟩
  obtain ⟨faultless, folded⟩ := readScan_eq_ok.mp mended
  cases faultless
  rw [Frame.fill, List.foldlM_append] at folded
  obtain ⟨reader, reached, rest⟩ := except_bind_eq_ok.mp folded
  rw [List.foldlM_cons] at rest
  obtain ⟨next, stepped, _⟩ := except_bind_eq_ok.mp rest
  rw [passed, Frame.fill, readScan_append reached]
  rw [Frame.fill, readScan_append reached] at mended
  constructor
  · intro optional
    obtain ⟨smaller, succeeded, same⟩ :=
      Likeness.readRest_follows (fun _ => rfl) (named_tags_without distinct optional) reader closes
        after model mended
    exact ⟨smaller, succeeded, same.symm⟩
  · intro other otherReached looks required
    cases reached.symm.trans otherReached
    -- The reader has got past the whole tag, so there was nothing wrong with its attributes.
    have checked : checkAttributes ⟨name, first ++ .pair key value :: last⟩ = .ok () := by
      cases result : checkAttributes ⟨name, first ++ .pair key value :: last⟩ with
      | ok nothing => rfl
      | error error => cases stepped.symm.trans (step_of_checkAttributes looks result closes)
    have refused : checkAttributes ⟨name, first ++ last⟩ = .error (.missingAttribute name key) :=
      checkAttributes_without distinct required checked
    rw [Reader.readRest, List.foldlM_cons, step_of_checkAttributes looks refused closes]
    rfl

/-- Documents with a value that has no quotes or a key that comes again, and what is read there. -/
def untaggedDocument : String := "<model><class name=\"a.A\" tagged=true/></model>"

def taggedDocument : String := "<model><class name=\"a.A\" tagged=\"true\"/></model>"

def namelessDocument : String := "<model><class name=a.A tagged=\"true\"/></model>"

def namedDocument : String := "<model><class name=\"a.A\"/></model>"

def renamedDocument : String := "<model><class name=\"a.A\" name=\"b.B\"/></model>"

theorem read_broken_attribute_tagged :
    (∃ smaller model, Document.read untaggedDocument = .ok smaller ∧
      Document.read taggedDocument = .ok model ∧ smaller.memberNames = model.memberNames ∧
      smaller.taggedClasses.length = 0 ∧ model.taggedClasses.length = 1) ∧
    Document.read namelessDocument = .error (.missingAttribute "class" "name") ∧
    Document.read renamedDocument = Document.read namedDocument := by
  let name : Attribute := .pair "name" "a.A"
  let tagged : Attribute := .pair "tagged" "true"
  let frame : Frame := ⟨[.opening ⟨"model", []⟩], true, "class", [.closing "model"], none⟩
  have whole : scan taggedDocument.toList = frame.fill [name, tagged] := by decide +kernel
  have unquoted : scan untaggedDocument.toList = frame.fill ([name] ++ .malformed :: []) := by
    decide +kernel
  have nameless : scan namelessDocument.toList = frame.fill ([] ++ .malformed :: [tagged]) := by
    decide +kernel
  have single : scan namedDocument.toList = frame.fill ([name] ++ []) := by decide +kernel
  have renamed : scan renamedDocument.toList = frame.fill ([name] ++ .repeated "name" :: []) := by
    decide +kernel
  have counts : (Document.read taggedDocument).map (·.taggedClasses.length) = .ok 1 ∧
      (Document.read untaggedDocument).map (·.taggedClasses.length) = .ok 0 := by decide +kernel
  obtain ⟨model, accepted, one⟩ := except_map_eq_ok.mp counts.1
  obtain ⟨smaller, succeeded, zero⟩ := except_map_eq_ok.mp counts.2
  have mended := accepted
  rw [Document.read, whole] at mended
  refine ⟨?_, ?_, ?_⟩
  · obtain ⟨_, rest⟩ := read_broken_attribute unquoted trivial
    obtain ⟨dropped, _⟩ := rest "tagged" "true" model (by decide) mended
    obtain ⟨other, read, same⟩ := dropped (by decide)
    cases succeeded.symm.trans read
    exact ⟨smaller, model, succeeded, accepted, same, zero, one⟩
  · obtain ⟨_, rest⟩ := read_broken_attribute nameless trivial
    obtain ⟨_, refused⟩ := rest "name" "a.A" model (by decide) mended
    exact refused (.outside (some .runtime)) rfl ⟨rfl, rfl⟩ (by decide)
  · rw [(read_broken_attribute renamed trivial).1, Document.read, single]

end Document

end NativePeer
