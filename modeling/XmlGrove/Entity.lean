/-!
# Entity references

The five predefined entity references stand for characters that have a meaning
in markup. Reading a text replaces the references in one pass, writing it
replaces the characters that would be taken for markup.
-/

namespace XmlGrove.Entity

def predefined : List (List Char × Char) :=
  [("amp;".toList, '&'), ("lt;".toList, '<'), ("gt;".toList, '>'),
    ("quot;".toList, '\x22'), ("apos;".toList, '\x27')]

/-- The reference that continues an ampersand: its name and its character. -/
def reference? (afterAmpersand : List Char) : Option (List Char × Char) :=
  predefined.find? fun (name, _) => name.isPrefixOf afterAmpersand

/-- Read a text: each predefined reference becomes its character and what that
yields is not read again. All else stays, other references included. The first
argument counts the characters of a replaced reference that are still to skip. -/
def decodeSkipping : Nat → List Char → List Char
  | _, [] => []
  | skipped + 1, _ :: rest => decodeSkipping skipped rest
  | 0, character :: rest =>
    if character = '&' then
      match reference? rest with
      | some (name, meaning) => meaning :: decodeSkipping name.length rest
      | none => character :: decodeSkipping 0 rest
    else character :: decodeSkipping 0 rest

def decode (text : List Char) : List Char :=
  decodeSkipping 0 text

example : decode "&amp;lt; &lt;3 &copy;".toList = "&lt; <3 &copy;".toList := rfl

def encodeInText (character : Char) : List Char :=
  if character = '&' then "&amp;".toList
  else if character = '<' then "&lt;".toList
  else if character = '>' then "&gt;".toList
  else [character]

def encodeInAttribute (character : Char) : List Char :=
  if character = '\x22' then "&quot;".toList else [character]

def encodeText (text : List Char) : List Char :=
  text.flatMap encodeInText

def encodeAttribute (value : List Char) : List Char :=
  value.flatMap encodeInAttribute

example : encodeText "a<b & c".toList = "a&lt;b &amp; c".toList := rfl

end XmlGrove.Entity
