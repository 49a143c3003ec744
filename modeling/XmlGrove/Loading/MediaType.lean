import XmlGrove.Encoding.Charset
import XmlGrove.Fault
import XmlGrove.Loading.Uri
import XmlGrove.Text.Blank

/-!
# Media types

The parameters of a media type, and the encoding that one of them tells. A value can
be given in several pieces, and in a form that tells its own encoding.
-/

namespace XmlGrove.Loading.MediaType

open Encoding (Charset)

/-! ## Pieces -/

/-- Split at the semicolons that an even number of quotation marks precedes in their
piece. A mark with a backslash in front of it does not count. -/
def splitPieces (escaped quoted : Bool) : List Char → List (List Char)
  | [] => [[]]
  | character :: rest =>
    if character = ';' && !quoted then [] :: splitPieces false false rest
    else
      let toggles := character = '\x22' && !escaped
      match splitPieces (character = '\\') (quoted != toggles) rest with
      | [] => [[character]]
      | first :: others => (character :: first) :: others

/-- The name and the value of a parameter. Only a name that a value follows is put into
lower case. -/
def readPiece (piece : List Char) : List Char × List Char :=
  match Text.cut? ['='] piece with
  | none => (Text.trim piece, [])
  | some (name, value) => ((Text.trim name).map Char.toLower, Text.trim value)

def unescape (escaped : Char) : List Char → List Char
  | '\\' :: next :: rest =>
    if next = escaped then next :: unescape escaped rest
    else '\\' :: unescape escaped (next :: rest)
  | character :: rest => character :: unescape escaped rest
  | [] => []

def unquote (value : List Char) : List Char :=
  match value, value.getLast? with
  | '\x22' :: _ :: _, some '\x22' =>
    unescape '\x22' (unescape '\\' (value.drop 1).dropLast)
  | '<' :: _ :: _, some '>' => (value.drop 1).dropLast
  | _, _ => value

/-! ## Values in sections -/

structure Section where
  number : Option Nat
  text : List Char
  encoded : Bool
  deriving Repr, DecidableEq

def isWordCharacter (character : Char) : Bool := character.isAlphanum || character = '_'

def sectionName? (name : List Char) : Option (List Char × Option Nat) :=
  let word := name.takeWhile isWordCharacter
  match word, name.drop word.length with
  | [], _ => none
  | _, ['*'] => some (word, none)
  | _, '*' :: rest =>
    let digits := rest.takeWhile Char.isDigit
    let end_ := rest.drop digits.length
    if !digits.isEmpty && (end_ = [] || end_ = ['*']) then
      some (word, some (digits.foldl (fun value digit => value * 10 + (digit.toNat - 48)) 0))
    else none
  | _, _ => none

def Section.precedes (left right : Section) : Bool :=
  if left.number ≠ right.number then left.number.getD 0 < right.number.getD 0
  else if left.text ≠ right.text then left.text < right.text
  else !left.encoded || right.encoded

/-- Bring sections into their order. Either all or none must have numbers. -/
def arrange (sections : List Section) : Except Fault (List Section) :=
  let numbered := sections.filter (·.number.isSome)
  if numbered.isEmpty || numbered.length = sections.length then
    .ok (sections.mergeSort Section.precedes)
  else .error .unfitValue

inductive Content where
  | plain (text : List Char)
  | extended (charset : Option (List Char)) (text : List Char)
  deriving Repr, DecidableEq

/-- Join the sections of a value. If one of them is encoded, its encoding and its
language precede it. -/
def joined (sections : List Section) : Content :=
  let text := sections.flatMap fun part =>
    if part.encoded then percentDecode part.text else part.text
  if sections.any (·.encoded) then
    match Text.cut? ['\x27'] text with
    | none => .extended none text
    | some (charset, rest) =>
      match Text.cut? ['\x27'] rest with
      | none => .extended none text
      | some (_, value) => .extended (some charset) value
  else .plain text

/-! ## Parameters -/

def gather : List (List Char × Section) → List (List Char × List Section)
  | [] => []
  | (name, first) :: rest =>
    let others := gather rest
    (name, first :: (others.lookup name).getD []) :: others.filter (·.1 != name)

/-- The parameters of a media type. What precedes the first semicolon counts as one. Those
in sections come last. -/
def parameters (mediaType : String) : Except Fault (List (List Char × Content)) := do
  match (splitPieces false false mediaType.toList).map readPiece with
  | [] => return []
  | (name, value) :: others =>
    let others := others.map fun (name, value) => (name, unquote value)
    let whole := others.filterMap fun (name, value) =>
      if (sectionName? name).isSome then none else some (name, Content.plain value)
    let sections := others.filterMap fun (name, value) =>
      (sectionName? name).map fun (word, number) =>
        (word, { number, text := value, encoded := name.getLast? = some '*' : Section })
    let grouped ← (gather sections).mapM fun (name, sections) => do
      return (name, joined (← arrange sections))
    return (name, .plain (unquote value)) :: whole ++ grouped

/-! ## Encodings -/

def rawBytes (text : List Char) : Encoding.Bytes :=
  text.flatMap fun character =>
    let code := character.toNat
    if code < 0x100 then [UInt8.ofNat code]
    else
      let digits := Nat.toDigits 16 code
      let width := if code < 0x10000 then 4 else 8
      let mark := if code < 0x10000 then 'u' else 'U'
      ('\\' :: mark :: List.replicate (width - digits.length) '0' ++ digits).map fun digit =>
        UInt8.ofNat digit.toNat

def Content.text : Content → Except Fault (List Char)
  | plain text => .ok text
  | extended charset text =>
    let name := match charset with
      | none | some [] => "us-ascii"
      | some name => String.ofList name
    if name.contains (Char.ofNat 0) then .error .unacceptable
    else
      let decoded := (Charset.ofName? name).bind fun charset => charset.decode? (rawBytes text)
      .ok (decoded.getD text)

def charset? (mediaType : String) : Except Fault (Option String) := do
  let named := (← parameters mediaType).find? fun (name, _) =>
    name.map Char.toLower = "charset".toList
  match named with
  | none => return none
  | some (_, content) =>
    let text ← content.text
    if text.isEmpty || text.any fun character => 0x80 ≤ character.toNat then return none
    else return some (String.ofList (text.map Char.toLower))

example : ["text/xml; charset=\x22Latin-1\x22", "charset=a", "text/xml; x=\x22;\x22; charset=b"].map
    (fun mediaType => (charset? mediaType).toOption) =
    [some (some "latin-1"), some (some "a"), some (some "b")] := by
  decide +kernel

end XmlGrove.Loading.MediaType
