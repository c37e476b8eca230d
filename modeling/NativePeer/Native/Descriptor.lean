import NativePeer.Class

/-
This file writes the descriptors by which the runtime finds classes and methods.
-/

namespace NativePeer

def Primitive.code : Primitive → Char
  | .boolean => 'Z'
  | .byte => 'B'
  | .char => 'C'
  | .short => 'S'
  | .int => 'I'
  | .long => 'J'
  | .float => 'F'
  | .double => 'D'

/-- Slashes take the place of the dots. -/
def classDescriptor (className : String) : String :=
  "L" ++ String.ofList (className.toList.map fun letter =>
    if letter = '.' then '/' else letter) ++ ";"

def ManagedType.descriptor : ManagedType → String
  | .void => "V"
  | .primitive kind => String.singleton kind.code
  | .string => classDescriptor stringClass
  | .reference className => classDescriptor className
  | .array element dimension =>
    String.ofList (List.replicate dimension '[') ++ element.descriptor

namespace Method

def parametersDescriptor (method : Method) : String :=
  String.join (method.parameters.map fun parameter => parameter.type.descriptor)

def descriptor (method : Method) : String :=
  "(" ++ method.parametersDescriptor ++ ")" ++ method.returns.descriptor

end Method

end NativePeer
