import XmlGrove.Fault
import XmlGrove.Name
import XmlGrove.Text.Blank
import XmlGrove.Text.Search

/-!
# Cursors

A cursor is a place in a text: what is still to read, and how much was read
already, as a position and as a location. All reading moves a cursor forward by
`skip`, so that the three never drift apart.
-/

namespace XmlGrove

structure Cursor where
  rest : List Char
  position : Nat
  location : Location
  deriving Repr, DecidableEq

namespace Cursor

def start (text : List Char) : Cursor := ⟨text, 0, .start⟩

def atEnd (cursor : Cursor) : Bool := cursor.rest.isEmpty

def current? (cursor : Cursor) : Option Char := cursor.rest.head?

def skip (count : Nat) (cursor : Cursor) : Cursor :=
  let segment := cursor.rest.take count
  ⟨cursor.rest.drop count, cursor.position + segment.length,
    cursor.location.after segment⟩

@[simp] theorem rest_skip (count : Nat) (cursor : Cursor) :
    (cursor.skip count).rest = cursor.rest.drop count := rfl

/-- Move forward by a number that may be negative. The distance is taken from the
slice between the cursor and the place that the number leads to; one that leads
to before the start of the text counts from its end. -/
def advance (count : Int) (cursor : Cursor) : Cursor :=
  if 0 ≤ count then cursor.skip count.toNat
  else if 0 ≤ cursor.position + count then cursor
  else cursor.skip (cursor.position + cursor.rest.length + count).toNat

def toEnd (cursor : Cursor) : Cursor := cursor.skip cursor.rest.length

def startsWith (literal : String) (cursor : Cursor) : Bool :=
  literal.toList.isPrefixOf cursor.rest

/-! ## Reading -/

def expect (literal : String) (cursor : Cursor) : Except ParsingFault Cursor :=
  if cursor.startsWith literal then .ok (cursor.skip literal.toList.length)
  else .error (.expected literal cursor.location)

def readName (cursor : Cursor) : Except ParsingFault (Name × Cursor) :=
  match found : nameAtStart? cursor.rest with
  | none => .error (.nameMissing cursor.location)
  | some (name, _) =>
    .ok (.ofChars name (isName_of_nameAtStart? found), cursor.skip name.length)

def readText (cursor : Cursor) : List Char × Cursor :=
  let text := cursor.rest.takeWhile (· != '<')
  (text, cursor.skip text.length)

/-- Read everything up to a delimiter, and move behind that. The named construct
is unterminated if the delimiter does not occur. -/
def readUntil (delimiter construct : String) (cursor : Cursor) :
    Except ParsingFault (List Char × Cursor) :=
  match Text.cut? delimiter.toList cursor.rest with
  | none => .error (.unterminated construct cursor.toEnd.location)
  | some (before, _) =>
    .ok (before, cursor.skip (before.length + delimiter.toList.length))

def skipBlanks (cursor : Cursor) : Cursor :=
  cursor.skip (cursor.rest.takeWhile Text.isBlank).length

def display (cursor : Cursor) : String := s!"<Scanner at {cursor.location}>"

/-! ## Progress

What remains to be read never grows, and it shrinks with whatever is read. -/

theorem length_rest_skip (count : Nat) (cursor : Cursor) :
    (cursor.skip count).rest.length = cursor.rest.length - count := by
  simp

theorem length_rest_skipBlanks_le (cursor : Cursor) :
    cursor.skipBlanks.rest.length ≤ cursor.rest.length := by
  simp [skipBlanks]

theorem length_rest_of_expect {literal : String} {cursor next : Cursor}
    (read : cursor.expect literal = .ok next) :
    next.rest.length + literal.toList.length = cursor.rest.length := by
  rw [expect] at read
  split at read
  · rename_i starts
    simp only [Except.ok.injEq] at read
    have bounded := (List.isPrefixOf_iff_prefix.1 starts).length_le
    rw [← read, length_rest_skip]
    omega
  · cases read

theorem length_rest_of_readName {cursor next : Cursor} {name : Name}
    (read : cursor.readName = .ok (name, next)) :
    next.rest.length < cursor.rest.length := by
  rw [readName] at read
  split at read
  · cases read
  · rename_i characters after found
    simp only [Except.ok.injEq, Prod.mk.injEq] at read
    have whole := eq_append_of_nameAtStart? found
    have nonempty : characters ≠ [] := by
      intro empty
      have valid := isName_of_nameAtStart? found
      rw [empty] at valid
      cases valid
    have positive := List.length_pos_iff.2 nonempty
    rw [← read.2, length_rest_skip, whole, List.length_append]
    omega

theorem length_rest_of_readUntil {delimiter construct : String} {cursor next : Cursor}
    {before : List Char} (read : cursor.readUntil delimiter construct = .ok (before, next)) :
    next.rest.length + before.length + delimiter.toList.length = cursor.rest.length := by
  rw [readUntil] at read
  split at read
  · cases read
  · rename_i found
    simp only [Except.ok.injEq, Prod.mk.injEq] at read
    have whole := Text.length_of_cut? found
    rw [← read.1, ← read.2, length_rest_skip]
    omega

end Cursor

end XmlGrove
