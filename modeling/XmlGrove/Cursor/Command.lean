import XmlGrove.Cursor

/-!
# Commands to cursors

A cursor can be steered by commands. One that fails says why, and leaves the cursor
somewhere.
-/

namespace XmlGrove.Cursor

inductive Command where
  | advance (count : Int)
  | atEnd
  | current
  | expect (literal : String)
  | location
  | readName
  | readText
  | readUntil (delimiter construct : String)
  | skipBlanks
  | startsWith (literal : String)
  deriving Repr, DecidableEq

inductive Reading where
  | nothing
  | flag (value : Bool)
  | text (value : String)
  | location (value : Location)
  deriving Repr, DecidableEq

def currentText (cursor : Cursor) : String :=
  String.ofList cursor.current?.toList

/-- Execute a command. A missing piece of markup or name leaves the cursor where it
is, a missing delimiter moves it to the end. -/
def perform (command : Command) (cursor : Cursor) : Except ParsingFault Reading × Cursor :=
  match command with
  | .advance count => (.ok .nothing, cursor.advance count)
  | .atEnd => (.ok (.flag cursor.atEnd), cursor)
  | .current => (.ok (.text cursor.currentText), cursor)
  | .expect literal =>
    match cursor.expect literal with
    | .error fault => (.error fault, cursor)
    | .ok next => (.ok .nothing, next)
  | .location => (.ok (.location cursor.location), cursor)
  | .readName =>
    match cursor.readName with
    | .error fault => (.error fault, cursor)
    | .ok (name, next) => (.ok (.text name.text), next)
  | .readText =>
    let (text, next) := cursor.readText
    (.ok (.text (String.ofList text)), next)
  | .readUntil delimiter construct =>
    match cursor.readUntil delimiter construct with
    | .error fault => (.error fault, cursor.toEnd)
    | .ok (text, next) => (.ok (.text (String.ofList text)), next)
  | .skipBlanks => (.ok .nothing, cursor.skipBlanks)
  | .startsWith literal => (.ok (.flag (cursor.startsWith literal)), cursor)

end XmlGrove.Cursor
