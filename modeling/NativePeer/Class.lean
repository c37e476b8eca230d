import NativePeer.Constant
import NativePeer.Namespace

/-
This file holds managed classes with their fields and methods.
-/

namespace NativePeer

structure Field where
  name : String
  type : ManagedType
  isStatic : Bool
  isFinal : Bool
  constant : Option Constant
  deriving DecidableEq

def Field.isStaticFinal (field : Field) : Bool :=
  field.isStatic && field.isFinal

structure Parameter where
  name : String
  type : ManagedType
  deriving DecidableEq

structure Method where
  name : String
  returns : ManagedType
  parameters : List Parameter
  isStatic : Bool
  isTagged : Bool
  deriving DecidableEq

/-- A peer is generated for a tagged class and calls its tagged methods. The parent is given by
its qualified name. -/
structure ManagedClass where
  qualifiedName : String
  simpleName : String
  isTagged : Bool
  home : Option Namespace
  fields : List Field
  methods : List Method
  parent : Option String
  deriving DecidableEq

namespace ManagedClass

/-- The simple name of a class stands after the last dot of its qualified name. -/
def simpleNameOf (qualifiedName : String) : String :=
  String.ofList (Text.lastPiece '.' qualifiedName.toList)

/-- An untagged class without members or parent. -/
def named (qualifiedName : String) : ManagedClass where
  qualifiedName := qualifiedName
  simpleName := simpleNameOf qualifiedName
  isTagged := false
  home := none
  fields := []
  methods := []
  parent := none

def taggedMethods (declared : ManagedClass) : List Method :=
  declared.methods.filter Method.isTagged

end ManagedClass

end NativePeer
