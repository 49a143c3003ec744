import XmlGrove.Cursor.Command
import XmlGrove.Script.Display

/-!
# Steering cursors by calls

A call names a command to a cursor and gives it arguments of any type. A call that is no
command leaves the cursor where it is.
-/

namespace XmlGrove.Script

structure CursorCall where
  name : String
  arguments : List Value

namespace CursorCall

/-- The command that a call is. Where a cursor is can be asked for with any arguments. -/
def command (call : CursorCall) : Except Fault Cursor.Command :=
  match call.name, call.arguments with
  | "at_end", _ => .ok .atEnd
  | "current", _ => .ok .current
  | "location", _ => .ok .location
  | "advance", [] => .ok (.advance 1)
  | "advance", [count] =>
    match count.integer? with
    | some number => .ok (.advance number)
    | none => .error .unfitValue
  | "expect", [.text literal] => .ok (.expect literal)
  | "read_name", [] => .ok .readName
  | "read_text", [] => .ok .readText
  | "read_until", [.text delimiter, construct] =>
    (outer {} {} construct).map (.readUntil delimiter)
  | "skip_whitespace", [] => .ok .skipBlanks
  | "startswith", [.text literal] => .ok (.startsWith literal)
  | "advance", _ | "expect", _ | "read_name", _ | "read_text", _ | "read_until", _
  | "skip_whitespace", _ | "startswith", _ => .error .unfitValue
  | _, _ => .error .noMember

def perform (call : CursorCall) (cursor : Cursor) : Except Fault Cursor.Reading × Cursor :=
  match call.command with
  | .error fault => (.error fault, cursor)
  | .ok command =>
    let (reading, next) := cursor.perform command
    (reading.mapError .parsing, next)

def performAll (cursor : Cursor) : List CursorCall → List (Except Fault Cursor.Reading × Cursor)
  | [] => []
  | first :: rest =>
    let (reading, next) := first.perform cursor
    (reading, next) :: performAll next rest

end CursorCall

end XmlGrove.Script
