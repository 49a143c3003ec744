import XmlGrove.Text.Blank
import XmlGrove.Text.Search

/-!
# XML declarations

What an XML declaration notes about a document: its version and its encoding.
Both are found by looking for the first assignment to their name, wherever that
is in the declaration's content.
-/

namespace XmlGrove.Declaration

def defaultVersion : String := "1.0"

def defaultEncoding : String := "UTF-8"

/-- The quotes that enclose a value; they need not be the same at both ends. -/
def isQuote (character : Char) : Bool :=
  character == '\x22' || character == '\x27'

def assignedValue? (afterName : List Char) : Option (List Char) :=
  match Text.trimStart afterName with
  | '=' :: afterEquals =>
    match Text.trimStart afterEquals with
    | opening :: quotedPart =>
      let value := quotedPart.takeWhile (!isQuote ·)
      if isQuote opening && !value.isEmpty && value.length < quotedPart.length then some value
      else none
    | [] => none
  | _ => none

/-- The value of the first assignment to a name within a content. -/
def valueOf? (name : List Char) : List Char → Option (List Char)
  | [] => none
  | character :: rest =>
    let here :=
      if name.isPrefixOf (character :: rest) then
        assignedValue? ((character :: rest).drop name.length)
      else none
    here.or (valueOf? name rest)

def version (content : String) : String :=
  ((valueOf? "version".toList content.toList).map String.ofList).getD defaultVersion

def encoding (content : String) : String :=
  ((valueOf? "encoding".toList content.toList).map String.ofList).getD defaultEncoding

def content (version encoding : String) : String :=
  s!"version=\x22{version}\x22 encoding=\x22{encoding}\x22"

end XmlGrove.Declaration
