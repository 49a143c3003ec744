import XmlGrove.Text.Quoted
import XmlGrove.Text.Search

/-!
# Encoded addresses

Addresses consist of some of the ASCII characters only; all others are written as
the percent-encoded bytes of their UTF-8 form.
-/

namespace XmlGrove.Loading

/-! ## Percent-encoding -/

def upperHexDigit (value : Nat) : Char :=
  (Text.hexDigit value).toUpper

def percentEncoded (byte : UInt8) : List Char :=
  ['%', upperHexDigit (byte.toNat / 16), upperHexDigit (byte.toNat % 16)]

def percentEncode (keeps : Char → Bool) (text : List Char) : String :=
  String.ofList (text.flatMap fun character =>
    if keeps character then [character]
    else character.toString.toUTF8.toList.flatMap percentEncoded)

def hexDigitValue? (digit : Char) : Option Nat :=
  if digit.isDigit then some (digit.toNat - 48)
  else if 'a' ≤ digit.toLower && digit.toLower ≤ 'f' then some (digit.toLower.toNat - 87)
  else none

/-- Replace every percent sign that two digits follow by the character with their
number, so that characters stand for bytes. -/
def percentDecode : List Char → List Char
  | '%' :: high :: low :: rest =>
    match hexDigitValue? high, hexDigitValue? low with
    | some first, some second => Char.ofNat (16 * first + second) :: percentDecode rest
    | _, _ => '%' :: percentDecode (high :: low :: rest)
  | character :: rest => character :: percentDecode rest
  | [] => []

example : percentDecode "a%20%zz%C3".toList = "a %zz\u00c3".toList := by decide +kernel

/-! ## Files -/

def isPlainInPath (character : Char) : Bool :=
  character.isAlphanum || ['_', '.', '-', '~', '/'].contains character

def fileUri (path : String) : String :=
  let segments := (Text.splitAtEach '/' path.toList).filter fun segment =>
    !segment.isEmpty && segment != ['.']
  "file:///" ++ percentEncode isPlainInPath (['/'].intercalate segments)

example : fileUri "/tmp/a b" = "file:///tmp/a%20b" := by decide +kernel

end XmlGrove.Loading
