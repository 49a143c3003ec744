import XmlGrove.Encoding.Charset
import XmlGrove.Fault
import XmlGrove.Text.Blank

/-!
# Detecting encodings

The encoding of a document that is given as bytes: a byte order mark at its
start tells it, or else the XML declaration does.
-/

namespace XmlGrove.Encoding

/-! ## Byte order marks -/

/-- The byte order marks and the encodings that they indicate. The longer ones
come first, as one of them starts with a shorter one. -/
def marks : List (Bytes × String) :=
  [([0xFF, 0xFE, 0, 0], "utf-32-le"), ([0, 0, 0xFE, 0xFF], "utf-32-be"),
    ([0xEF, 0xBB, 0xBF], "utf-8"), ([0xFF, 0xFE], "utf-16-le"), ([0xFE, 0xFF], "utf-16-be")]

def markedEncoding? (data : Bytes) : Option String :=
  (marks.find? fun (mark, _) => mark.isPrefixOf data).map Prod.snd

/-! ## Declarations

A declaration is looked for in the bytes as such, taken for characters of the
same number, as its encoding is not known yet. -/

def declarationLimit : Nat := 256

def isBlankInData (character : Char) : Bool :=
  character == ' ' || (0x09 ≤ character.toNat && character.toNat ≤ 0x0D)

def isEncodingCharacter (character : Char) : Bool :=
  character.isAlphanum || character == '.' || character == '_' || character == '-'

/-- Quotes around an encoding's name; they need not be the same at both ends. -/
def isQuoteInData (character : Char) : Bool :=
  character == '\x22' || character == '\x27'

def closesDeclaration (text : List Char) : Bool :=
  let inside := text.takeWhile (· != '>')
  inside.length < text.length && inside.getLast? == some '?'

def assignedEncoding? (afterWord : List Char) : Option (List Char) :=
  match afterWord.dropWhile isBlankInData with
  | '=' :: afterEquals =>
    match afterEquals.dropWhile isBlankInData with
    | [] => none
    | opening :: quotedPart =>
      let name := quotedPart.takeWhile isEncodingCharacter
      match quotedPart.dropWhile isEncodingCharacter with
      | [] => none
      | closing :: afterValue =>
        if isQuoteInData opening && !name.isEmpty && isQuoteInData closing &&
            closesDeclaration afterValue then some name
        else none
  | _ => none

def firstAssignedEncoding? : List Char → Option (List Char)
  | [] => none
  | character :: rest =>
    let here :=
      if "encoding".toList.isPrefixOf (character :: rest) then
        assignedEncoding? ((character :: rest).drop "encoding".length)
      else none
    match here with
    | some name => some name
    | none => if character = '>' then none else firstAssignedEncoding? rest

def declaredEncoding? (text : List Char) : Option (List Char) :=
  let declaration := text.dropWhile isBlankInData
  if "<?xml".toList.isPrefixOf declaration then
    match declaration.drop "<?xml".length with
    | separator :: rest =>
      if isBlankInData separator then firstAssignedEncoding? rest else none
    | [] => none
  else none

def detect (data : Bytes) : Option String :=
  match markedEncoding? data with
  | some name => some name
  | none =>
    let characters := (data.take declarationLimit).map fun next => Char.ofNat next.toNat
    (declaredEncoding? characters).map String.ofList

example : detect ("<?xml encoding=\x22latin-1\x22?>".toUTF8.toList) = some "latin-1" := by
  decide +kernel

/-! ## Decoding documents -/

def markCharacter : Char := '\uFEFF'

def dropMark : List Char → List Char
  | [] => []
  | first :: rest => if first = markCharacter then rest else first :: rest

def fallbackEncoding : String := "utf-8"

/-- Decode a document with the expected encoding, if there is one, else with the
one that the data indicates. No name of an encoding holds a null character. Where there
is no data, the encoding need not be known. -/
def decodeDocument (expected : Option String) (data : Bytes) : Except Fault (List Char) :=
  let requested := expected.filter (· != "")
  let encoding := (requested.or (detect data)).getD fallbackEncoding
  if encoding.toList.contains (Char.ofNat 0) then .error .unacceptable
  else if data.isEmpty then .ok []
  else
    match (Charset.ofName? encoding).bind fun charset => charset.decode? data with
    | some text => .ok (dropMark text)
    | none => .error (.parsing (.undecodable encoding))

end XmlGrove.Encoding
