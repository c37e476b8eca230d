import NativePeer.Class
import NativePeer.Document.Error
import NativePeer.Markup.Attribute

/-
This file reads classes, fields, methods and parameters from the attributes of their elements.
-/

namespace NativePeer.Document

/-- The value of an attribute if it is valid there. -/
def valid {A : Type} (element key text : String) (value? : Option A) :
    Except DocumentError A :=
  match value? with
  | none => .error (.invalidAttribute element key text)
  | some value => .ok value

def required {A : Type} (element key : String) (value? : Option A) :
    Except DocumentError A :=
  match value? with
  | none => .error (.missingAttribute element key)
  | some value => .ok value

def truth? (text : String) : Option Bool :=
  if text = "true" then some true else if text = "false" then some false else none

/-- The attributes of a class element. Others do not count, here and below. -/
structure ClassAttributes where
  name : Option String := none
  simple : Option String := none
  parent : Option String := none
  tagged : Option Bool := none
  home : Option Namespace := none

def ClassAttributes.set (attributes : ClassAttributes) (pair : String × String) :
    Except DocumentError ClassAttributes :=
  let (key, text) := pair
  match key with
  | "name" => .ok { attributes with name := some text }
  | "simple" => .ok { attributes with simple := some text }
  | "extends" => .ok { attributes with parent := some text }
  | "tagged" => do
    let tagged ← valid "class" "tagged" text (truth? text)
    return { attributes with tagged := some tagged }
  | "namespace" => do
    let home ← valid "class" "namespace" text (Namespace.parse? text)
    return { attributes with home := some home }
  | _ => .ok attributes

/-- A class with a namespace is tagged unless it says otherwise. -/
def readClass (pairs : List (String × String)) : Except DocumentError ManagedClass := do
  let attributes ← pairs.foldlM ClassAttributes.set {}
  let name ← required "class" "name" attributes.name
  if name = "" then throw (.invalidAttribute "class" "name" name)
  return { ManagedClass.named name with
    simpleName := attributes.simple.getD (ManagedClass.simpleNameOf name)
    parent := attributes.parent
    isTagged := attributes.tagged.getD attributes.home.isSome
    home := attributes.home }

structure FieldAttributes where
  name : Option String := none
  type : Option ManagedType := none
  isStatic : Bool := false
  isFinal : Bool := false
  value : Option String := none

def FieldAttributes.set (attributes : FieldAttributes) (pair : String × String) :
    Except DocumentError FieldAttributes :=
  let (key, text) := pair
  match key with
  | "name" => .ok { attributes with name := some text }
  | "type" => do
    let type ← valid "field" "type" text (ManagedType.parse? text)
    return { attributes with type := some type }
  | "static" => do
    let isStatic ← valid "field" "static" text (truth? text)
    return { attributes with isStatic := isStatic }
  | "final" => do
    let isFinal ← valid "field" "final" text (truth? text)
    return { attributes with isFinal := isFinal }
  | "value" => .ok { attributes with value := some text }
  | _ => .ok attributes

/-- Only a field of a primitive type has a constant, and the constant is of that type. -/
def readConstant (type : ManagedType) : Option String → Except DocumentError (Option Constant)
  | none => .ok none
  | some text => do
    let value ← valid "field" "value" text (type.primitive?.bind (Constant.parse? · text))
    return some value

def readField (pairs : List (String × String)) : Except DocumentError Field := do
  let attributes ← pairs.foldlM FieldAttributes.set {}
  let name ← required "field" "name" attributes.name
  let type ← required "field" "type" attributes.type
  let constant ← readConstant type attributes.value
  return { name, type, isStatic := attributes.isStatic, isFinal := attributes.isFinal, constant }

structure MethodAttributes where
  name : Option String := none
  returns : Option ManagedType := none
  isStatic : Bool := false
  isTagged : Bool := false

def MethodAttributes.set (attributes : MethodAttributes) (pair : String × String) :
    Except DocumentError MethodAttributes :=
  let (key, text) := pair
  match key with
  | "name" => .ok { attributes with name := some text }
  | "returns" => do
    let returns ← valid "method" "returns" text (ManagedType.parse? text)
    return { attributes with returns := some returns }
  | "static" => do
    let isStatic ← valid "method" "static" text (truth? text)
    return { attributes with isStatic := isStatic }
  | "tagged" => do
    let isTagged ← valid "method" "tagged" text (truth? text)
    return { attributes with isTagged := isTagged }
  | _ => .ok attributes

/-- The parameters of a method come from the elements inside it. -/
def readMethod (pairs : List (String × String)) : Except DocumentError Method := do
  let attributes ← pairs.foldlM MethodAttributes.set {}
  let name ← required "method" "name" attributes.name
  let returns ← required "method" "returns" attributes.returns
  return { name, returns, parameters := [], isStatic := attributes.isStatic,
           isTagged := attributes.isTagged }

structure ParameterAttributes where
  name : Option String := none
  type : Option ManagedType := none

def ParameterAttributes.set (attributes : ParameterAttributes) (pair : String × String) :
    Except DocumentError ParameterAttributes :=
  let (key, text) := pair
  match key with
  | "name" => .ok { attributes with name := some text }
  | "type" => do
    let type ← valid "param" "type" text (ManagedType.parse? text)
    return { attributes with type := some type }
  | _ => .ok attributes

/-- A parameter is never `void`. -/
def readParameter (pairs : List (String × String)) : Except DocumentError Parameter := do
  let attributes ← pairs.foldlM ParameterAttributes.set {}
  let name ← required "param" "name" attributes.name
  let type ← required "param" "type" attributes.type
  if type = .void then throw (.invalidAttribute "param" "type" "void")
  return { name, type }

end NativePeer.Document
