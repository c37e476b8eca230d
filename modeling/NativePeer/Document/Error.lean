import NativePeer.Files.Error
import NativePeer.Markup.Fault
import NativePeer.Model.Error

/-
This file holds what can be wrong with a model document.
-/

namespace NativePeer

/-- The elements of a document are not where they belong. -/
inductive StructureFault where
  | noModel
  | classOutsideModel
  | openClass (name : String)
  | openMethod (name : String)
  deriving DecidableEq

def StructureFault.message : StructureFault → String
  | .noModel => "No model element found"
  | .classOutsideModel => "class element outside of model"
  | .openClass name => "unterminated class '" ++ name ++ "'"
  | .openMethod name => "unterminated method '" ++ name ++ "'"

inductive DocumentError where
  | markup (fault : Markup.Fault)
  | missingAttribute (element key : String)
  | invalidAttribute (element key value : String)
  | duplicate (repeated : Duplicate)
  | layout (fault : StructureFault)
  | unreadable (error : FileError)
  deriving DecidableEq

def DocumentError.message : DocumentError → String
  | .markup fault => "XML parsing error: " ++ fault.message
  | .missingAttribute element key =>
    "missing required attribute '" ++ key ++ "' on element '" ++ element ++ "'"
  | .invalidAttribute element key value =>
    "invalid value '" ++ value ++ "' for attribute '" ++ key ++ "' on element '" ++
      element ++ "'"
  | .duplicate repeated => repeated.message
  | .layout fault => "invalid model structure: " ++ fault.message
  | .unreadable error => "IO error: " ++ error.message

end NativePeer
