import XmlGrove.Text.Hidden

/-!
# Quoted texts

How a text is shown within the description of a value: enclosed in quotes, with
the characters escaped that would make the description ambiguous.
-/

namespace XmlGrove.Text

def apostrophe : Char := '\x27'

def quotationMark : Char := '\x22'

/-- A text is enclosed in apostrophes, unless it holds one and no quotation
mark. -/
def quoteFor (text : List Char) : Char :=
  if text.contains apostrophe && !text.contains quotationMark then quotationMark
  else apostrophe

def hexDigit (value : Nat) : Char :=
  Char.ofNat (if value < 10 then 48 + value else 87 + value)

def hexDigits : Nat → Nat → List Char
  | 0, _ => []
  | count + 1, value => hexDigits count (value / 16) ++ [hexDigit (value % 16)]

/-- How a character is shown by its number, with as many digits as it takes. -/
def numericEscape (code : Nat) : List Char :=
  if code < 0x100 then ['\\', 'x'] ++ hexDigits 2 code
  else if code < 0x10000 then ['\\', 'u'] ++ hexDigits 4 code
  else ['\\', 'U'] ++ hexDigits 8 code

def escapeCharacter (quote character : Char) : List Char :=
  if character = '\\' || character = quote then ['\\', character]
  else if character = '\n' then ['\\', 'n']
  else if character = '\r' then ['\\', 'r']
  else if character = '\t' then ['\\', 't']
  else if isHidden character then numericEscape character.toNat
  else [character]

def quoted (text : List Char) : List Char :=
  let quote := quoteFor text
  quote :: text.flatMap (escapeCharacter quote) ++ [quote]

example : quoted "it\x27s".toList = "\x22it\x27s\x22".toList := rfl

example : quoted "a\nb".toList = "\x27a\\nb\x27".toList := rfl

def quotedList (texts : List String) : String :=
  let items := texts.map fun text => String.ofList (quoted text.toList)
  "[" ++ ", ".intercalate items ++ "]"

end XmlGrove.Text
