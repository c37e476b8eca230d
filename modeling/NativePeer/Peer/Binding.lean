import NativePeer.Generation.Configuration
import NativePeer.Generation.Log
import NativePeer.Native.Descriptor
import NativePeer.Native.Literal
import NativePeer.Native.Type
import NativePeer.Peer.SymbolTable

/-
This file binds a tagged class to the native names and types of its peer.
-/

namespace NativePeer

structure BoundParameter where
  type : NativeType
  name : String
  deriving DecidableEq

structure BoundMethod where
  method : Method
  symbol : String
  returns : NativeType
  parameters : List BoundParameter
  deriving DecidableEq

/-- All that the two files of a peer show. -/
structure Peer where
  className : String
  baseName : String
  home : Namespace
  constants : List MacroDefinition
  methods : List BoundMethod
  deriving DecidableEq

def peerSuffix : String := "ManagedPeer"

/-- The members that every peer inherits. -/
def inheritedMembers : List String :=
  ["GetClass", "GetMethodID", "Env", "Object"]

/-- The variables of every method body. -/
def bodyVariables : List String :=
  ["once", "methodID"]

namespace Peer

/-- The name of the peer type and of its files. -/
def baseNameOf (declared : ManagedClass) : String :=
  SymbolRole.className.mangle declared.simpleName ++ peerSuffix

def memberTable (className baseName : String) : SymbolTable :=
  .reserved className
    ((baseName, baseName ++ " constructor") ::
      inheritedMembers.map fun member => (member, peerSuffix ++ "::" ++ member))

def bodyTable (className baseName methodName : String) : SymbolTable :=
  .reserved (className ++ "." ++ methodName)
    ((inheritedMembers ++ bodyVariables).map fun name =>
      (name, baseName ++ " body '" ++ name ++ "'"))

def bindParameters (model : ClassModel) (table : SymbolTable) :
    List Parameter → Except GenerationError (List BoundParameter)
  | [] => .ok []
  | parameter :: parameters => do
    let type ← NativeType.ofType model parameter.type
    let name := SymbolRole.member.mangle parameter.name
    let table ← table.claim name parameter.name
    let bound ← bindParameters model table parameters
    return ⟨type, name⟩ :: bound

/-- The types of the parameters come before the return type. -/
def bindMethod (model : ClassModel) (className baseName symbol : String) (method : Method) :
    Except GenerationError BoundMethod := do
  let parameters ← bindParameters model (bodyTable className baseName method.name)
    method.parameters
  let returns ← NativeType.ofType model method.returns
  return { method, symbol, returns, parameters }

def isOverloaded (methods : List Method) (name : String) : Bool :=
  1 < methods.countP fun method => method.name = name

/-- Whether the symbol of a method tells its parameters. -/
def isDisambiguated (configuration : Configuration) (methods : List Method)
    (method : Method) : Bool :=
  configuration.disambiguatesOverloads && isOverloaded methods method.name

def symbolOf (disambiguated : Bool) (method : Method) : String :=
  if disambiguated then
    SymbolRole.member.mangle method.name ++ "__" ++
      SymbolRole.descriptor.mangle method.parametersDescriptor
  else SymbolRole.member.mangle method.name

/-- Methods may share a symbol only with their owner. -/
def ownerOf (disambiguated : Bool) (method : Method) : String :=
  if disambiguated then method.name ++ "(" ++ method.parametersDescriptor ++ ")"
  else method.name

/-- The first of several methods with one symbol is reported. -/
def sharingEvents (className : String) (overloaded : Bool) (table : SymbolTable)
    (method : Method) : List LogEvent :=
  if overloaded ∧ table.owner? (symbolOf false method) = none then
    [.sharedSymbol className method.name]
  else []

def bindMethods (model : ClassModel) (configuration : Configuration)
    (className baseName : String) (methods : List Method) (table : SymbolTable) :
    List Method → Logged (List BoundMethod)
  | [] => return []
  | method :: rest => do
    let disambiguated := isDisambiguated configuration methods method
    let symbol := symbolOf disambiguated method
    if !disambiguated then
      (sharingEvents className (isOverloaded methods method.name) table method).forM
        Logged.report
    let table ← .ofExcept (table.claim symbol (ownerOf disambiguated method))
    let bound ← .ofExcept (bindMethod model className baseName symbol method)
    let others ← bindMethods model configuration className baseName methods table rest
    return bound :: others

/-- Two names of constants may not share a macro. -/
def bindConstants (host : Host) (className : String) (table : SymbolTable) :
    List Field → Except GenerationError (List MacroDefinition)
  | [] => .ok []
  | field :: fields =>
    if field.isStaticFinal then do
      match ← MacroDefinition.ofField host className field with
      | none => bindConstants host className table fields
      | some definition =>
        let table ← table.claim (SymbolRole.member.mangle field.name) field.name
        let definitions ← bindConstants host className table fields
        return definition :: definitions
    else bindConstants host className table fields

/-- The constants of a class and of its ancestors, if they are asked for. -/
def constantsOf (model : ClassModel) (configuration : Configuration) (declared : ManagedClass) :
    Except GenerationError (List MacroDefinition) :=
  if configuration.emitsConstants then
    match model.flattenFields declared with
    | .error error => .error (.model error)
    | .ok fields =>
      bindConstants configuration.host declared.qualifiedName
        (.reserved declared.qualifiedName []) fields
  else .ok []

def homeOf (configuration : Configuration) (declared : ManagedClass) :
    Except GenerationError Namespace :=
  match configuration.home, declared.home with
  | some home, _ => .ok home
  | none, some home => .ok home
  | none, none => .error (.model (.missingNamespace declared.qualifiedName))

/-- The peer of a tagged class. -/
def bind (model : ClassModel) (configuration : Configuration) (declared : ManagedClass) :
    Logged Peer := do
  if !declared.isTagged then
    Logged.ofExcept (.error (.defect (.untaggedClass declared.qualifiedName)))
  let baseName := baseNameOf declared
  let home ← .ofExcept (homeOf configuration declared)
  let methods ← bindMethods model configuration declared.qualifiedName baseName
    declared.taggedMethods (memberTable declared.qualifiedName baseName) declared.taggedMethods
  let constants ← .ofExcept (constantsOf model configuration declared)
  return { className := declared.qualifiedName, baseName, home, constants, methods }

end Peer

end NativePeer
