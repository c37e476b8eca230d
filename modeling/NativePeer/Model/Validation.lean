import NativePeer.Model.Ancestry

/-
This file checks a class model for consistency.
-/

namespace NativePeer

/-- The types of a class in the order of the check: its fields, then the signature of each
method with the return type first. -/
def ManagedClass.usedTypes (declared : ManagedClass) : List ManagedType :=
  declared.fields.map Field.type ++
    declared.methods.flatMap fun method =>
      method.returns :: method.parameters.map Parameter.type

namespace ClassModel

def checkType (model : ClassModel) (used : ManagedType) : Except ModelError Unit :=
  match used.referencedClass? with
  | none => .ok ()
  | some name => if (model.get? name).isSome then .ok () else .error (.unknownClass name)

def checkNamespace (declared : ManagedClass) : Except ModelError Unit :=
  match declared.home with
  | none => .ok ()
  | some home =>
    if home.isValid then .ok ()
    else .error (.invalidNamespace declared.qualifiedName home.dotted)

def checkConstant (declared : ManagedClass) (field : Field) : Except ModelError Unit :=
  match field.constant with
  | none => .ok ()
  | some value =>
    if field.isStaticFinal = false then
      .error (.invalidConstant declared.qualifiedName field.name .notStaticFinal)
    else if field.type.primitive? ≠ some value.kind then
      .error (.invalidConstant declared.qualifiedName field.name (.otherKind value.kind))
    else .ok ()

def checkClass (model : ClassModel) (declared : ManagedClass) : Except ModelError Unit := do
  let _ ← model.ancestry declared
  declared.usedTypes.forM model.checkType
  checkNamespace declared
  declared.fields.forM (checkConstant declared)

/-- The first violation in the order of the classes counts. A missing namespace is none, since
the configuration may supply it. -/
def validate (model : ClassModel) : Except ModelError Unit :=
  model.classes.forM model.checkClass

end ClassModel

end NativePeer
