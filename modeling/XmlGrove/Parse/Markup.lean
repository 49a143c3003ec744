import XmlGrove.Cursor
import XmlGrove.Entity
import XmlGrove.Tree

/-!
# Reading markup

Readers for the pieces of markup that a document consists of. Each reader takes
a cursor that is at the start of its piece and yields what the piece says and
the cursor behind it; each one moves the cursor forward.
-/

namespace XmlGrove.Parse

/-! ## Comments, CDATA sections and processing instructions -/

def readComment (cursor : Cursor) : Except ParsingFault (String × Cursor) := do
  let cursor ← cursor.expect "<!--"
  let (content, cursor) ← cursor.readUntil "-->" "comment"
  return (String.ofList content, cursor)

def readCData (cursor : Cursor) : Except ParsingFault (String × Cursor) := do
  let cursor ← cursor.expect "<![CDATA["
  let (content, cursor) ← cursor.readUntil "]]>" "CDATA section"
  return (String.ofList content, cursor)

def readInstruction (cursor : Cursor) : Except ParsingFault ((Name × String) × Cursor) := do
  let cursor ← cursor.expect "<?"
  let (target, cursor) ← cursor.readName
  let (content, cursor) ← cursor.skipBlanks.readUntil "?>" "processing instruction"
  return ((target, String.ofList content), cursor)

/-! ## Tags -/

def readQuoted (cursor : Cursor) : Except ParsingFault (String × Cursor) :=
  match cursor.current? with
  | some quote =>
    if quote = '\x22' ∨ quote = '\x27' then do
      let (value, cursor) ←
        (cursor.skip 1).readUntil (String.ofList [quote]) "attribute value"
      return (String.ofList (Entity.decode value), cursor)
    else .error (.quoteMissing cursor.location)
  | none => .error (.quoteMissing cursor.location)

def readAttribute (cursor : Cursor) : Except ParsingFault ((Name × String) × Cursor) := do
  let (name, cursor) ← cursor.readName
  let cursor ← cursor.skipBlanks.expect "="
  let (value, cursor) ← readQuoted cursor.skipBlanks
  return ((name, value), cursor.skipBlanks)

inductive StartTag where
  | empty (name : Name) (attributes : Attributes)
  | opening (name : Name) (attributes : Attributes)

def readStartTagEnd (name : Name) (attributes : Attributes) (cursor : Cursor) :
    Except ParsingFault (StartTag × Cursor) := do
  if cursor.startsWith "/>" then
    return (.empty name attributes, cursor.skip 2)
  else
    let cursor ← cursor.expect ">"
    return (.opening name attributes, cursor)

def readEndTag (cursor : Cursor) : Except ParsingFault (Name × Cursor) := do
  let cursor ← cursor.expect "</"
  let (name, cursor) ← cursor.readName
  let cursor ← cursor.skipBlanks.expect ">"
  return (name, cursor)

/-! ## Progress

Each reader leaves less to read than it found. -/

theorem bind_eq_ok_iff {first : Except ε α} {next : α → Except ε β} {result : β} :
    (first >>= next) = .ok result ↔ ∃ value, first = .ok value ∧ next value = .ok result := by
  cases first with
  | error fault => simp [bind, Except.bind]
  | ok value => simp [bind, Except.bind]

theorem length_rest_of_readComment {cursor next : Cursor} {content : String}
    (read : readComment cursor = .ok (content, next)) :
    next.rest.length < cursor.rest.length := by
  rcases bind_eq_ok_iff.1 read with ⟨opened, expected, read⟩
  rcases bind_eq_ok_iff.1 read with ⟨⟨body, closed⟩, ended, read⟩
  cases read
  have start := Cursor.length_rest_of_expect expected
  have stop := Cursor.length_rest_of_readUntil ended
  have positive : 0 < "<!--".toList.length := by decide
  omega

theorem length_rest_of_readCData {cursor next : Cursor} {content : String}
    (read : readCData cursor = .ok (content, next)) :
    next.rest.length < cursor.rest.length := by
  rcases bind_eq_ok_iff.1 read with ⟨opened, expected, read⟩
  rcases bind_eq_ok_iff.1 read with ⟨⟨body, closed⟩, ended, read⟩
  cases read
  have start := Cursor.length_rest_of_expect expected
  have stop := Cursor.length_rest_of_readUntil ended
  have positive : 0 < "<![CDATA[".toList.length := by decide
  omega

theorem length_rest_of_readInstruction {cursor next : Cursor} {instruction : Name × String}
    (read : readInstruction cursor = .ok (instruction, next)) :
    next.rest.length < cursor.rest.length := by
  rcases bind_eq_ok_iff.1 read with ⟨opened, expected, read⟩
  rcases bind_eq_ok_iff.1 read with ⟨⟨target, named⟩, targeted, read⟩
  rcases bind_eq_ok_iff.1 read with ⟨⟨body, closed⟩, ended, read⟩
  cases read
  have start := Cursor.length_rest_of_expect expected
  have name := Cursor.length_rest_of_readName targeted
  have blanks := named.length_rest_skipBlanks_le
  have stop := Cursor.length_rest_of_readUntil ended
  omega

theorem length_rest_of_readQuoted {cursor next : Cursor} {value : String}
    (read : readQuoted cursor = .ok (value, next)) :
    next.rest.length ≤ cursor.rest.length := by
  rw [readQuoted] at read
  split at read
  · split at read
    · rcases bind_eq_ok_iff.1 read with ⟨⟨body, closed⟩, ended, read⟩
      cases read
      have stop := Cursor.length_rest_of_readUntil ended
      have opening := cursor.length_rest_skip 1
      omega
    · cases read
  · cases read

theorem length_rest_of_readAttribute {cursor next : Cursor} {entry : Name × String}
    (read : readAttribute cursor = .ok (entry, next)) :
    next.rest.length < cursor.rest.length := by
  rcases bind_eq_ok_iff.1 read with ⟨⟨name, named⟩, naming, read⟩
  rcases bind_eq_ok_iff.1 read with ⟨equated, expected, read⟩
  rcases bind_eq_ok_iff.1 read with ⟨⟨value, closed⟩, quoted, read⟩
  cases read
  have start := Cursor.length_rest_of_readName naming
  have equals := Cursor.length_rest_of_expect expected
  have stop := length_rest_of_readQuoted quoted
  have first := named.length_rest_skipBlanks_le
  have second := equated.length_rest_skipBlanks_le
  have third := closed.length_rest_skipBlanks_le
  omega

theorem length_rest_of_readStartTagEnd {cursor next : Cursor} {name : Name}
    {attributes : Attributes} {tag : StartTag}
    (read : readStartTagEnd name attributes cursor = .ok (tag, next)) :
    next.rest.length ≤ cursor.rest.length := by
  rw [readStartTagEnd] at read
  split at read
  · cases read
    have skipped := cursor.length_rest_skip 2
    omega
  · rcases bind_eq_ok_iff.1 read with ⟨closed, expected, read⟩
    cases read
    have stop := Cursor.length_rest_of_expect expected
    omega

theorem length_rest_of_readEndTag {cursor next : Cursor} {name : Name}
    (read : readEndTag cursor = .ok (name, next)) :
    next.rest.length < cursor.rest.length := by
  rcases bind_eq_ok_iff.1 read with ⟨opened, expected, read⟩
  rcases bind_eq_ok_iff.1 read with ⟨⟨target, named⟩, naming, read⟩
  rcases bind_eq_ok_iff.1 read with ⟨closed, ended, read⟩
  cases read
  have start := Cursor.length_rest_of_expect expected
  have middle := Cursor.length_rest_of_readName naming
  have blanks := named.length_rest_skipBlanks_le
  have stop := Cursor.length_rest_of_expect ended
  omega

/-! ## Start tags

The attributes of a start tag go on until something else than a name could
follow. -/

def attributeFollows (cursor : Cursor) : Bool :=
  match cursor.current? with
  | none => false
  | some character => character != '>' && character != '/'

/-- Read the attributes of a start tag. The last value of a name that occurs
several times counts. -/
def readAttributes (attributes : Attributes) (cursor : Cursor) :
    Except ParsingFault (Attributes × Cursor) :=
  if attributeFollows cursor then
    match _read : readAttribute cursor with
    | .error fault => .error fault
    | .ok ((name, value), next) => readAttributes (attributes.set name value) next
  else .ok (attributes, cursor)
termination_by cursor.rest.length
decreasing_by exact length_rest_of_readAttribute _read

def readStartTag (cursor : Cursor) : Except ParsingFault (StartTag × Cursor) := do
  let cursor ← cursor.expect "<"
  let (name, cursor) ← cursor.readName
  let (attributes, cursor) ← readAttributes {} cursor.skipBlanks
  readStartTagEnd name attributes cursor

theorem length_rest_of_readAttributes {cursor next : Cursor} {given read : Attributes}
    (succeeds : readAttributes given cursor = .ok (read, next)) :
    next.rest.length ≤ cursor.rest.length := by
  fun_induction readAttributes given cursor with
  | case1 => cases succeeds
  | case2 _ _ _ _ _ _ entryRead induction =>
    have shorter := length_rest_of_readAttribute entryRead
    have remaining := induction succeeds
    omega
  | case3 =>
    cases succeeds
    exact Nat.le_refl _

theorem length_rest_of_readStartTag {cursor next : Cursor} {tag : StartTag}
    (read : readStartTag cursor = .ok (tag, next)) :
    next.rest.length < cursor.rest.length := by
  rcases bind_eq_ok_iff.1 read with ⟨opened, expected, read⟩
  rcases bind_eq_ok_iff.1 read with ⟨⟨name, named⟩, naming, read⟩
  rcases bind_eq_ok_iff.1 read with ⟨⟨attributes, listed⟩, listing, read⟩
  have start := Cursor.length_rest_of_expect expected
  have middle := Cursor.length_rest_of_readName naming
  have blanks := named.length_rest_skipBlanks_le
  have attributed := length_rest_of_readAttributes listing
  have stop := length_rest_of_readStartTagEnd read
  omega

end XmlGrove.Parse
