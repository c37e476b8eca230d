import NativePeer.Document.Reader
import NativePeer.Model.Validation
import NativePeer.Proofs.Document.Element

/-
This file shows that every model that is read from a document is well formed.
-/

namespace NativePeer

/-- The runtime classes come first. -/
structure ClassModel.WellFormed (model : ClassModel) : Prop where
  seeded : ClassModel.runtime.classes <+: model.classes
  classes : ∀ declared ∈ model.classes, declared.WellFormed

theorem ManagedClass.wellFormed_of_memberless {declared : ManagedClass}
    (named : declared.qualifiedName ≠ "") (fieldless : declared.fields = [])
    (methodless : declared.methods = []) : declared.WellFormed := by
  refine ⟨named, ?_, ?_, ?_⟩
  · rw [fieldless]
    exact List.nodup_nil
  · simp [fieldless]
  · simp [methodless]

theorem ClassModel.runtime_wellFormed : ClassModel.runtime.WellFormed := by
  refine ⟨List.prefix_rfl, fun declared member => ?_⟩
  rw [runtime_classes] at member
  obtain ⟨entry, listed, rfl⟩ := List.mem_map.mp member
  have named : ∀ entry ∈ ClassModel.runtimeClasses, entry.1 ≠ "" := by decide
  exact ManagedClass.wellFormed_of_memberless (named entry listed) rfl rfl

namespace Document

open Markup

/-- What the reader has built so far is well formed. -/
def Reader.WellFormed : Reader → Prop
  | .outside none => True
  | .outside (some model) => model.WellFormed
  | .inClass model current _ => model.WellFormed ∧ current.WellFormed
  | .inMethod model current method _ =>
    model.WellFormed ∧ current.WellFormed ∧ method.WellFormed

variable {model : ClassModel} {current : ManagedClass} {method : Method} {depth : Nat}
  {event : Event} {next : Reader}

theorem addClass_wellFormed (wellFormed : model.WellFormed) (classWellFormed : current.WellFormed)
    (added : addClass model current = .ok next) : next.WellFormed := by
  unfold addClass at added
  split at added
  · cases added
  · next longer succeeded =>
    cases added
    have classes := ClassModel.classes_of_add succeeded
    have every := List.forall_mem_append.mpr
      ⟨wellFormed.classes, List.forall_mem_singleton.mpr classWellFormed⟩
    rw [← classes] at every
    exact ⟨wellFormed.seeded.trans (classes ▸ List.prefix_append _ _), every⟩

theorem addField_wellFormed {field : Field} {longer : ManagedClass}
    (wellFormed : current.WellFormed) (fieldWellFormed : field.WellFormed)
    (added : addField current field = .ok longer) : longer.WellFormed := by
  unfold addField at added
  split at added
  · cases added
  · next fresh =>
    cases added
    have every := List.forall_mem_append.mpr
      ⟨wellFormed.fields, List.forall_mem_singleton.mpr fieldWellFormed⟩
    refine ⟨wellFormed.named, ?_, every, wellFormed.methods⟩
    simpa [List.nodup_append, wellFormed.distinct] using fresh

theorem addMethod_wellFormed (wellFormed : current.WellFormed)
    (methodWellFormed : method.WellFormed) : (addMethod current method).WellFormed := by
  have every := List.forall_mem_append.mpr
    ⟨wellFormed.methods, List.forall_mem_singleton.mpr methodWellFormed⟩
  exact ⟨wellFormed.named, wellFormed.distinct, wellFormed.fields, every⟩

theorem addParameter_wellFormed {parameter : Parameter} {longer : Method}
    (wellFormed : method.WellFormed) (parameterWellFormed : parameter.WellFormed)
    (added : addParameter method parameter = .ok longer) : longer.WellFormed := by
  unfold addParameter at added
  split at added
  · cases added
  · next fresh =>
    cases added
    have every := List.forall_mem_append.mpr
      ⟨wellFormed.parameters, List.forall_mem_singleton.mpr parameterWellFormed⟩
    refine ⟨wellFormed.returns, ?_, every⟩
    simpa [List.nodup_append, wellFormed.distinct] using fresh

theorem classOf_wellFormed {start : Option ClassModel} {tag : Tag}
    (wellFormed : (Reader.outside start).WellFormed)
    (read : classOf start tag = .ok (model, current)) : model.WellFormed ∧ current.WellFormed := by
  cases start with
  | none => cases read
  | some start =>
    rw [classOf] at read
    cases found : readClass (Attribute.pairs tag.attributes) with
    | error error => simp [found, Except.map] at read
    | ok declared =>
      simp only [found, Except.map, Except.ok.injEq, Prod.mk.injEq] at read
      obtain ⟨rfl, rfl⟩ := read
      exact ⟨wellFormed, readClass_wellFormed found⟩

theorem stepOutside_wellFormed {start : Option ClassModel}
    (wellFormed : (Reader.outside start).WellFormed)
    (stepped : stepOutside start event = .ok next) : next.WellFormed := by
  unfold stepOutside at stepped
  split at stepped
  · split at stepped
    · cases stepped
      exact ClassModel.runtime_wellFormed
    · split at stepped
      · obtain ⟨⟨model, current⟩, read, same⟩ := except_bind_eq_ok.mp stepped
        cases same
        exact classOf_wellFormed wellFormed read
      · cases stepped
        exact wellFormed
  · split at stepped
    · cases stepped
      exact ClassModel.runtime_wellFormed
    · split at stepped
      · obtain ⟨⟨model, current⟩, read, added⟩ := except_bind_eq_ok.mp stepped
        obtain ⟨modelWellFormed, classWellFormed⟩ := classOf_wellFormed wellFormed read
        exact addClass_wellFormed modelWellFormed classWellFormed added
      · cases stepped
        exact wellFormed
  · cases stepped
    exact wellFormed
  · cases stepped
    exact wellFormed

theorem fieldOf_wellFormed {tag : Tag} {longer : ManagedClass} (wellFormed : current.WellFormed)
    (read : fieldOf current tag = .ok longer) : longer.WellFormed := by
  obtain ⟨field, fieldRead, added⟩ := except_bind_eq_ok.mp read
  exact addField_wellFormed wellFormed (readField_wellFormed fieldRead) added

theorem stepInClass_wellFormed (wellFormed : (Reader.inClass model current depth).WellFormed)
    (stepped : stepInClass model current depth event = .ok next) : next.WellFormed := by
  obtain ⟨modelWellFormed, classWellFormed⟩ := wellFormed
  unfold stepInClass at stepped
  split at stepped
  · split at stepped
    · obtain ⟨method, read, same⟩ := except_bind_eq_ok.mp stepped
      cases same
      exact ⟨modelWellFormed, classWellFormed, readMethod_wellFormed read⟩
    · split at stepped
      · obtain ⟨longer, read, same⟩ := except_bind_eq_ok.mp stepped
        cases same
        exact ⟨modelWellFormed, fieldOf_wellFormed classWellFormed read⟩
      · cases stepped
        exact ⟨modelWellFormed, classWellFormed⟩
  · split at stepped
    · obtain ⟨method, read, same⟩ := except_bind_eq_ok.mp stepped
      cases same
      exact ⟨modelWellFormed, addMethod_wellFormed classWellFormed (readMethod_wellFormed read)⟩
    · split at stepped
      · obtain ⟨longer, read, same⟩ := except_bind_eq_ok.mp stepped
        cases same
        exact ⟨modelWellFormed, fieldOf_wellFormed classWellFormed read⟩
      · cases stepped
        exact ⟨modelWellFormed, classWellFormed⟩
  · split at stepped
    · exact addClass_wellFormed modelWellFormed classWellFormed stepped
    · cases stepped
      exact ⟨modelWellFormed, classWellFormed⟩
  · cases stepped
    exact ⟨modelWellFormed, classWellFormed⟩

theorem parameterOf_wellFormed {tag : Tag} {longer : Method} (wellFormed : method.WellFormed)
    (read : parameterOf method depth tag = .ok longer) : longer.WellFormed := by
  unfold parameterOf at read
  split at read
  · obtain ⟨parameter, parameterRead, added⟩ := except_bind_eq_ok.mp read
    exact addParameter_wellFormed wellFormed (readParameter_wellFormed parameterRead) added
  · cases read
    exact wellFormed

theorem stepInMethod_wellFormed
    (wellFormed : (Reader.inMethod model current method depth).WellFormed)
    (stepped : stepInMethod model current method depth event = .ok next) : next.WellFormed := by
  obtain ⟨modelWellFormed, classWellFormed, methodWellFormed⟩ := wellFormed
  unfold stepInMethod at stepped
  split at stepped
  · obtain ⟨longer, read, same⟩ := except_bind_eq_ok.mp stepped
    cases same
    exact ⟨modelWellFormed, classWellFormed, parameterOf_wellFormed methodWellFormed read⟩
  · obtain ⟨longer, read, same⟩ := except_bind_eq_ok.mp stepped
    cases same
    exact ⟨modelWellFormed, classWellFormed, parameterOf_wellFormed methodWellFormed read⟩
  · split at stepped
    · cases stepped
      exact ⟨modelWellFormed, addMethod_wellFormed classWellFormed methodWellFormed⟩
    · cases stepped
      exact ⟨modelWellFormed, classWellFormed, methodWellFormed⟩
  · cases stepped
    exact ⟨modelWellFormed, classWellFormed, methodWellFormed⟩

/-- One event leaves the reader well formed. -/
theorem step_wellFormed {reader : Reader} (wellFormed : reader.WellFormed)
    (stepped : reader.step event = .ok next) : next.WellFormed := by
  cases reader with
  | outside start => exact stepOutside_wellFormed wellFormed stepped
  | inClass model current depth => exact stepInClass_wellFormed wellFormed stepped
  | inMethod model current method depth => exact stepInMethod_wellFormed wellFormed stepped

theorem finish_wellFormed {reader : Reader} (wellFormed : reader.WellFormed)
    (finished : reader.finish = .ok model) : model.WellFormed := by
  unfold Reader.finish at finished
  split at finished <;> cases finished
  exact wellFormed

/-- Every model that is read is well formed. -/
theorem read_wellFormed {text : String} (succeeded : Document.read text = .ok model) :
    model.WellFormed := by
  unfold Document.read readScan at succeeded
  obtain ⟨reader, folded, rest⟩ := except_bind_eq_ok.mp succeeded
  have start : (Reader.outside none).WellFormed := trivial
  have wellFormed := foldlM_invariant Reader.WellFormed
    (fun _ _ _ wellFormed stepped => step_wellFormed wellFormed stepped) start folded
  split at rest
  · cases rest
  · exact finish_wellFormed wellFormed rest

end Document

theorem ManagedClass.WellFormed.usedTypes {declared : ManagedClass}
    (wellFormed : declared.WellFormed) : ∀ used ∈ declared.usedTypes, used.IsCanonical := by
  intro used member
  rw [ManagedClass.usedTypes, List.mem_append, List.mem_map, List.mem_flatMap] at member
  rcases member with ⟨field, inside, rfl⟩ | ⟨method, inside, signature⟩
  · exact (wellFormed.fields field inside).canonical
  · have methodWellFormed := wellFormed.methods method inside
    rcases List.mem_cons.mp signature with rfl | listed
    · exact methodWellFormed.returns
    · obtain ⟨parameter, given, rfl⟩ := List.mem_map.mp listed
      exact (methodWellFormed.parameters parameter given).canonical

/-- Every model that is read starts with the runtime classes and repeats no name of a class, of a
field or of a parameter. All its types are canonical, no parameter is `void`, and a constant has the
primitive type of its field. -/
theorem Document.read_model_parts {text : String} {model : ClassModel}
    (succeeded : Document.read text = .ok model) :
    ClassModel.runtime.classes <+: model.classes ∧ model.names.Nodup ∧ "" ∉ model.names ∧
      ∀ declared ∈ model.classes,
        (declared.fields.map Field.name).Nodup ∧
        (∀ field ∈ declared.fields, ∀ value, field.constant = some value →
          field.type = .primitive value.kind) ∧
        (∀ method ∈ declared.methods, (method.parameters.map Parameter.name).Nodup ∧
          ∀ parameter ∈ method.parameters, parameter.type ≠ .void) ∧
        ∀ used ∈ declared.usedTypes,
          (∀ element dimension, used = .array element dimension →
            1 ≤ dimension ∧ element ≠ .void ∧ ∀ inner more, element ≠ .array inner more) ∧
          ∀ className, used.referencedClass? = some className →
            className ≠ "" ∧
            (∀ letter ∈ className.toList, letter ∉ ['[', ']', ' ', '\t', '<', '>']) ∧
              className ∉ ManagedType.reservedNames := by
  have wellFormed := Document.read_wellFormed succeeded
  refine ⟨wellFormed.seeded, model.distinct, ?_, fun declared member => ?_⟩
  · intro listed
    obtain ⟨declared, member, unnamed⟩ := List.mem_map.mp listed
    exact (wellFormed.classes declared member).named unnamed
  · have classWellFormed := wellFormed.classes declared member
    refine ⟨classWellFormed.distinct, ?_, ?_, ?_⟩
    · intro field inside value constant
      have sameKind := (classWellFormed.fields field inside).sameKind value constant
      cases type : field.type with
      | primitive kind =>
        rw [type, ManagedType.primitive?, Option.some.injEq] at sameKind
        rw [sameKind]
      | void | string | reference | array =>
        rw [type] at sameKind
        cases sameKind
    · intro method inside
      have methodWellFormed := classWellFormed.methods method inside
      exact ⟨methodWellFormed.distinct, fun parameter given =>
        (methodWellFormed.parameters parameter given).filled⟩
    · intro used inside
      have canonical := classWellFormed.usedTypes used inside
      refine ⟨?_, fun className named => ?_⟩
      · rintro element dimension rfl
        exact canonical.of_array
      · have proper := canonical.named className named
        refine ⟨proper.nonempty, fun letter shown => ?_, proper.not_reserved⟩
        simpa [ManagedType.isSeparator, and_assoc] using proper.unseparated letter shown

/-- This document has a nested array type, a constant and elements of other names. -/
def memberDocument : String :=
  "<model><class name=\"a.A\"><extra/>" ++
    "<field name=\"limit\" type=\"short\" static=\"true\" final=\"true\" value=\"7\"/>" ++
    "<method name=\"run\" returns=\"a.B [] []\"><param name=\"to\" type=\"String\"/></method>" ++
  "</class></model>"

theorem Document.read_model_parts_members :
    ∃ model, Document.read memberDocument = .ok model ∧ model.names.Nodup ∧
      ∃ declared ∈ model.classes, declared.qualifiedName = "a.A" ∧
        declared.usedTypes = [.primitive .short, .array (.reference "a.B") 2, .string] ∧
        declared.fields.map Field.constant = [some (.short 7)] ∧
        (declared.fields.map Field.name).Nodup ∧ "a.B" ∉ ManagedType.reservedNames := by
  have shown : (Document.read memberDocument).toOption.bind (fun model =>
      model.classes.getLast?.map fun declared =>
        (declared.qualifiedName, declared.usedTypes, declared.fields.map Field.constant)) =
      some ("a.A", [.primitive .short, .array (.reference "a.B") 2, .string],
        [some (.short 7)]) := by
    decide +kernel
  obtain ⟨model, found, last⟩ := Option.bind_eq_some_iff.mp shown
  obtain ⟨declared, final, parts⟩ := Option.map_eq_some_iff.mp last
  have accepted := toOption_eq_some.mp found
  simp only [Prod.mk.injEq] at parts
  obtain ⟨named, types, constants⟩ := parts
  have member : declared ∈ model.classes := List.mem_of_getLast? final
  obtain ⟨_, distinct, _, every⟩ := Document.read_model_parts accepted
  obtain ⟨fieldsDistinct, _, _, canonical⟩ := every declared member
  have array : ManagedType.array (.reference "a.B") 2 ∈ declared.usedTypes := by simp [types]
  exact ⟨model, accepted, distinct, declared, member, named, types, constants, fieldsDistinct,
    ((canonical _ array).2 "a.B" rfl).2.2⟩

end NativePeer
