import NativePeer.Peer.Binding
import NativePeer.Text.Latin1

/-
This file writes the declaration and the definition of a peer.
-/

namespace NativePeer

namespace BoundMethod

def parameterList (bound : BoundMethod) : String :=
  ", ".intercalate (bound.parameters.map fun parameter =>
    parameter.type.name ++ " " ++ parameter.name)

/-- `scope` stands before the symbol. -/
def signature (scope : String) (bound : BoundMethod) : String :=
  bound.returns.name ++ " " ++ scope ++ bound.symbol ++ "(" ++ bound.parameterList ++ ")"

def prototype (bound : BoundMethod) : String :=
  "\t" ++ (if bound.method.isStatic then "static " else "") ++ bound.signature "" ++ ";"

def arguments (bound : BoundMethod) : List String :=
  (if bound.method.isStatic then [] else ["Object()"]) ++
    "methodID" :: bound.parameters.map BoundParameter.name

/-- The call of the managed method and the return of its value. -/
def invocation (bound : BoundMethod) : String :=
  let kind := bound.returns.returnKind
  (if kind.returnsValue then "return " else "") ++
    (if bound.returns.needsCast then "(" ++ bound.returns.name ++ ")" else "") ++
    "Env()." ++ kind.callFunction bound.method.isStatic ++ "(" ++
    ", ".intercalate bound.arguments ++ ");"

def definition (baseName : String) (bound : BoundMethod) : List String :=
  [bound.signature (baseName ++ "::"),
    "\x7b",
    "\tstatic std::once_flag once;",
    "\tstatic jmethodID methodID = nullptr;",
    "\tstd::call_once(once, [] \x7b methodID = GetMethodID(GetClass(), \"" ++
      bound.method.name ++ "\", \"" ++ bound.method.descriptor ++ "\"); \x7d);",
    "\t" ++ bound.invocation,
    "\x7d",
    ""]

end BoundMethod

namespace Namespace

def beginning (home : Namespace) : String :=
  String.join (home.segments.map fun segment => "namespace " ++ segment ++ " \x7b ")

def ending (home : Namespace) : String :=
  String.join (home.segments.map fun _ => "\x7d") ++ " // namespace " ++ home.dotted

end Namespace

namespace Peer

def notice : String := "/* DO NOT EDIT THIS FILE - it is machine generated */"

/-- A blank line follows the macros. -/
def constantLines (peer : Peer) : List String :=
  if peer.constants = [] then []
  else peer.constants.flatMap MacroDefinition.lines ++ [""]

def declaration (peer : Peer) : List String :=
  [notice, "#pragma once", "", "#include <JNIManagedPeer.h>", "#include <jni.h>", ""] ++
  peer.constantLines ++
  [peer.home.beginning,
    "",
    "class " ++ peer.baseName ++ " : public ::JNI::ManagedPeer",
    "\x7b",
    "public:",
    "\texplicit " ++ peer.baseName ++ "(jobject object);",
    "\t~" ++ peer.baseName ++ "();",
    "",
    "\tstatic jclass GetClass();",
    ""] ++
  peer.methods.map BoundMethod.prototype ++
  ["\x7d;", "", peer.home.ending]

def classLookup (peer : Peer) : List String :=
  ["jclass " ++ peer.baseName ++ "::GetClass()",
    "\x7b",
    "\tstatic std::once_flag once;",
    "\tstatic ::JNI::JClass* clazz = nullptr;",
    "\tstd::call_once(once, [] \x7b clazz = new ::JNI::JClass(\"" ++
      classDescriptor peer.className ++ "\"); \x7d);",
    "\treturn *clazz;",
    "\x7d",
    ""]

def definition (precompiledHeader : Option String) (peer : Peer) : List String :=
  [notice] ++
  (precompiledHeader.map fun header => "#include \"" ++ header ++ "\"").toList ++
  ["#include \"" ++ peer.baseName ++ ".h\"",
    "#include <mutex>",
    "",
    peer.home.beginning,
    "",
    peer.baseName ++ "::" ++ peer.baseName ++ "(jobject object)",
    "\t: ::JNI::ManagedPeer(object)",
    "\x7b",
    "\x7d",
    "",
    peer.baseName ++ "::~" ++ peer.baseName ++ "()",
    "\x7b",
    "\x7d",
    ""] ++
  peer.classLookup ++
  peer.methods.flatMap (BoundMethod.definition peer.baseName) ++
  [peer.home.ending]

end Peer

/-- The two encoded files of a peer. -/
structure PeerSource where
  className : String
  baseName : String
  header : Text.Bytes
  source : Text.Bytes
  deriving DecidableEq

namespace PeerSource

/-- Each line ends with a line feed, which becomes the line separator of the host. -/
def encode (host : Host) (lines : List String) : Text.Bytes :=
  Text.latin1 host.lineSeparator.toUTF8.toList
    (lines.flatMap fun line => line.toList ++ ['\n'])

def ofPeer (configuration : Configuration) (peer : Peer) : PeerSource where
  className := peer.className
  baseName := peer.baseName
  header := encode configuration.host peer.declaration
  source := encode configuration.host (peer.definition configuration.precompiledHeader)

end PeerSource

end NativePeer
