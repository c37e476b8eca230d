/-
This file holds the ways in which a text fails to be markup.
-/

namespace NativePeer.Markup

inductive Fault where
  | openTag
  | openQuote (quote : Char)
  | openComment
  | openCharacterData
  | openDocumentType
  | openInstruction
  | openDeclaration
  | unknownMarkup
  | openReference
  | namelessDocumentType
  | mismatchedEnd (expected found : String)
  | unmatchedEnd (found : String)
  deriving DecidableEq

/-- A construct that does not end, with the text that would end it. -/
def Fault.notClosed (construct terminator : String) : String :=
  construct ++ " not closed: `" ++ terminator ++ "` not found before end of input"

def Fault.message : Fault → String
  | .openTag => "syntax error: " ++ notClosed "tag" ">"
  | .openQuote quote => "syntax error: " ++ notClosed "attribute value" (String.singleton quote)
  | .openComment => "syntax error: " ++ notClosed "comment" "-->"
  | .openCharacterData => "syntax error: " ++ notClosed "CDATA" "]]>"
  | .openDocumentType => "syntax error: " ++ notClosed "DOCTYPE" ">"
  | .openInstruction => "syntax error: " ++ notClosed "processing instruction" "?>"
  | .openDeclaration => "syntax error: " ++ notClosed "XML declaration" "?>"
  | .unknownMarkup => "syntax error: unknown or missed symbol in markup"
  | .openReference =>
    "ill-formed document: " ++ notClosed "entity or character reference" ";"
  | .namelessDocumentType =>
    "ill-formed document: `<!DOCTYPE>` declaration does not contain a name of a document type"
  | .mismatchedEnd expected found =>
    "ill-formed document: expected `</" ++ expected ++ ">`, but `</" ++ found ++ ">` was found"
  | .unmatchedEnd found =>
    "ill-formed document: close tag `</" ++ found ++ ">` does not match any open tag"

end NativePeer.Markup
