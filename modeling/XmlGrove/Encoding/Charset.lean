import XmlGrove.Encoding.Unicode

/-!
# Character sets

The encodings that are known, the names that they go by, and how bytes are
decoded with them.
-/

namespace XmlGrove.Encoding

/-- An encoding. The formats whose units are larger than a byte have a byte
order; without one a mark at the start of the data tells it. -/
inductive Charset where
  | utf8
  | ascii
  | latin1
  | utf16 (order : Option ByteOrder)
  | utf32 (order : Option ByteOrder)
  deriving Repr, DecidableEq

namespace Charset

/-! ## Names -/

/-- Reduce the name of an encoding to lower case letters, digits and full stops,
with an underscore for whatever separates them. The first argument tells whether
a separator precedes the remaining characters. -/
def normalizeFrom (separated : Bool) : List Char → List Char
  | [] => []
  | character :: rest =>
    if character.isAlphanum || character = '.' then
      if separated then '_' :: character.toLower :: normalizeFrom false rest
      else character.toLower :: normalizeFrom false rest
    else normalizeFrom true rest

def normalizedName (name : String) : String :=
  let significant := name.toList.dropWhile fun character =>
    !(character.isAlphanum || character = '.')
  String.ofList (normalizeFrom false significant)

def knownNames : List (Charset × String × List String) :=
  [(utf8, "utf_8", ["u8", "utf", "utf8", "utf8_ucs2", "utf8_ucs4", "cp65001"]),
    (ascii, "ascii", ["646", "ansi_x3.4_1968", "ansi_x3_4_1968", "ansi_x3.4_1986", "cp367",
      "csascii", "ibm367", "iso646_us", "iso_646.irv_1991", "iso_ir_6", "us", "us_ascii"]),
    (latin1, "latin_1", ["8859", "cp819", "csisolatin1", "ibm819", "iso8859", "iso8859_1",
      "iso_8859_1", "iso_8859_1_1987", "iso_ir_100", "l1", "latin", "latin1"]),
    (utf16 none, "utf_16", ["u16", "utf16"]),
    (utf16 (some .little), "utf_16_le", ["unicodelittleunmarked", "utf_16le"]),
    (utf16 (some .big), "utf_16_be", ["unicodebigunmarked", "utf_16be"]),
    (utf32 none, "utf_32", ["u32", "utf32"]),
    (utf32 (some .little), "utf_32_le", ["utf_32le"]),
    (utf32 (some .big), "utf_32_be", ["utf_32be"])]

/-- The encoding with a given name, if it is known. In the other names, but not in the
names themselves, full stops may stand for underscores. -/
def ofName? (name : String) : Option Charset :=
  let normalized := normalizedName name
  let plain := normalized.map fun character => if character = '.' then '_' else character
  let isKnownBy : Charset × String × List String → Bool := fun (_, proper, others) =>
    normalized == proper || others.contains normalized || others.contains plain
  (knownNames.find? isKnownBy).map Prod.fst

example : ["UTF-8", "us.ascii", "utf.8", "Latin 1"].map ofName? =
    [some utf8, some ascii, none, some latin1] := by
  decide +kernel

/-! ## Decoding -/

def readByte (limit : Nat) : CharacterReader := fun first _ =>
  if first.toNat < limit then some (Char.ofNat first.toNat, 0) else none

/-- Decode data whose byte order a mark at its start may tell; otherwise the
least significant byte comes first. -/
def decodeMarked (reader : ByteOrder → CharacterReader) (littleMark bigMark data : Bytes) :
    Option (List Char) :=
  if littleMark.isPrefixOf data then
    decodeBy (reader .little) (data.drop littleMark.length)
  else if bigMark.isPrefixOf data then
    decodeBy (reader .big) (data.drop bigMark.length)
  else decodeBy (reader .little) data

def decode? (charset : Charset) (data : Bytes) : Option (List Char) :=
  match charset with
  | utf8 => decodeBy readUtf8 data
  | ascii => decodeBy (readByte 0x80) data
  | latin1 => decodeBy (readByte 0x100) data
  | utf16 (some order) => decodeBy (readUtf16 order) data
  | utf32 (some order) => decodeBy (readUtf32 order) data
  | utf16 none => decodeMarked readUtf16 [0xFF, 0xFE] [0xFE, 0xFF] data
  | utf32 none => decodeMarked readUtf32 [0xFF, 0xFE, 0, 0] [0, 0, 0xFE, 0xFF] data

end Charset

end XmlGrove.Encoding
