/-!
# Line endings of written texts

A writer may convert the line endings in what is written through it. Every
single write is converted on its own, so that a carriage return at the end of
one write and a line feed at the start of the next are two line endings.
-/

namespace XmlGrove.Text

inductive Newline
  | unset
  | verbatim
  | ending (text : String)
  deriving Repr, DecidableEq

def Newline.ofText? (text : String) : Option Newline :=
  if text = "" || text = "\n" then some .verbatim
  else if text = "\r" || text = "\r\n" then some (.ending text)
  else none

def normalizeLineEndings : List Char → List Char
  | [] => []
  | '\r' :: '\n' :: rest => '\n' :: normalizeLineEndings rest
  | character :: rest =>
    (if character = '\r' then '\n' else character) :: normalizeLineEndings rest

example : normalizeLineEndings "a\r\nb\rc\n".toList = "a\nb\nc\n".toList := rfl

def expandLineFeeds (ending text : List Char) : List Char :=
  text.flatMap fun character => if character = '\n' then ending else [character]

/-- What a writer into memory makes of one write. Without a choice all line
endings are normalized. -/
def Newline.inMemory (newline : Newline) (text : String) : String :=
  match newline with
  | .unset => String.ofList (normalizeLineEndings text.toList)
  | .verbatim => text
  | .ending replacement => String.ofList (expandLineFeeds replacement.toList text.toList)

/-- What a writer into a byte stream makes of one write. Without a choice the
line feed is kept, as it is the line ending of the system. -/
def Newline.inStream (newline : Newline) (text : String) : String :=
  match newline with
  | .unset | .verbatim => text
  | .ending replacement => String.ofList (expandLineFeeds replacement.toList text.toList)

end XmlGrove.Text
