import NativePeer.Document.Element
import NativePeer.Markup.Scan
import NativePeer.Model.Basic

/-
This file reads a class model from the events of a document.
-/

namespace NativePeer.Document

open Markup

/-- The place of the reader in the document. `depth` counts the elements that are open inside
the class or the method. -/
inductive Reader where
  | outside (model : Option ClassModel)
  | inClass (model : ClassModel) (current : ManagedClass) (depth : Nat)
  | inMethod (model : ClassModel) (current : ManagedClass) (method : Method) (depth : Nat)

def addClass (model : ClassModel) (current : ManagedClass) : Except DocumentError Reader :=
  match model.add current with
  | .error repeated => .error (.duplicate repeated)
  | .ok next => .ok (.outside (some next))

/-- No two fields of a class share a name. -/
def addField (current : ManagedClass) (field : Field) : Except DocumentError ManagedClass :=
  if field.name ∈ current.fields.map Field.name then
    .error (.duplicate (.field current.qualifiedName field.name))
  else .ok { current with fields := current.fields ++ [field] }

def addMethod (current : ManagedClass) (method : Method) : ManagedClass :=
  { current with methods := current.methods ++ [method] }

/-- No two parameters of a method share a name. -/
def addParameter (method : Method) (parameter : Parameter) : Except DocumentError Method :=
  if parameter.name ∈ method.parameters.map Parameter.name then
    .error (.duplicate (.parameter method.name parameter.name))
  else .ok { method with parameters := method.parameters ++ [parameter] }

/-- The class of a tag, which has to stand after the start of a model. -/
def classOf (model : Option ClassModel) (tag : Tag) :
    Except DocumentError (ClassModel × ManagedClass) :=
  match model with
  | none => .error (.layout .classOutsideModel)
  | some model => (readClass (Attribute.pairs tag.attributes)).map (model, ·)

/-- A model element starts a new model. -/
def stepOutside (model : Option ClassModel) : Event → Except DocumentError Reader
  | .opening tag =>
    if tag.name = "model" then .ok (.outside (some .runtime))
    else if tag.name = "class" then do
      let (model, current) ← classOf model tag
      return .inClass model current 0
    else .ok (.outside model)
  | .selfClosing tag =>
    if tag.name = "model" then .ok (.outside (some .runtime))
    else if tag.name = "class" then do
      let (model, current) ← classOf model tag
      addClass model current
    else .ok (.outside model)
  | .closing _ | .content => .ok (.outside model)

def fieldOf (current : ManagedClass) (tag : Tag) : Except DocumentError ManagedClass := do
  addField current (← readField (Attribute.pairs tag.attributes))

/-- Only the direct children of a class are its members. -/
def stepInClass (model : ClassModel) (current : ManagedClass) (depth : Nat) :
    Event → Except DocumentError Reader
  | .opening tag =>
    if depth = 0 ∧ tag.name = "method" then do
      return .inMethod model current (← readMethod (Attribute.pairs tag.attributes)) 0
    else if depth = 0 ∧ tag.name = "field" then do
      return .inClass model (← fieldOf current tag) 1
    else .ok (.inClass model current (depth + 1))
  | .selfClosing tag =>
    if depth = 0 ∧ tag.name = "method" then do
      return .inClass model
        (addMethod current (← readMethod (Attribute.pairs tag.attributes))) 0
    else if depth = 0 ∧ tag.name = "field" then do
      return .inClass model (← fieldOf current tag) 0
    else .ok (.inClass model current depth)
  | .closing _ =>
    match depth with
    | 0 => addClass model current
    | outer + 1 => .ok (.inClass model current outer)
  | .content => .ok (.inClass model current depth)

def parameterOf (method : Method) (depth : Nat) (tag : Tag) : Except DocumentError Method :=
  if depth = 0 ∧ tag.name = "param" then do
    addParameter method (← readParameter (Attribute.pairs tag.attributes))
  else .ok method

/-- Only the direct children of a method are its parameters. -/
def stepInMethod (model : ClassModel) (current : ManagedClass) (method : Method) (depth : Nat) :
    Event → Except DocumentError Reader
  | .opening tag => do
    return .inMethod model current (← parameterOf method depth tag) (depth + 1)
  | .selfClosing tag => do
    return .inMethod model current (← parameterOf method depth tag) depth
  | .closing _ =>
    match depth with
    | 0 => .ok (.inClass model (addMethod current method) 0)
    | outer + 1 => .ok (.inMethod model current method outer)
  | .content => .ok (.inMethod model current method depth)

def Reader.step : Reader → Event → Except DocumentError Reader
  | .outside model => stepOutside model
  | .inClass model current depth => stepInClass model current depth
  | .inMethod model current method depth => stepInMethod model current method depth

/-- The document may end only outside the classes of a model. -/
def Reader.finish : Reader → Except DocumentError ClassModel
  | .outside none => .error (.layout .noModel)
  | .outside (some model) => .ok model
  | .inClass _ current _ => .error (.layout (.openClass current.qualifiedName))
  | .inMethod _ _ method _ => .error (.layout (.openMethod method.name))

/-- A fault in the markup counts only if the events before it are in order. -/
def readScan (scan : Scan) : Except DocumentError ClassModel := do
  let reader ← scan.events.foldlM Reader.step (.outside none)
  match scan.fault with
  | some fault => throw (.markup fault)
  | none => reader.finish

/-- The model starts with the runtime classes. -/
def read (text : String) : Except DocumentError ClassModel :=
  readScan (scan text.toList)

end NativePeer.Document
