/-!
# Blank characters

The characters that count as whitespace in a text, and the operations that are
defined by them: trimming a text and splitting it into its fields.
-/

namespace XmlGrove.Text

/-- The inclusive ranges of code points that hold the blank characters. -/
def blankRanges : List (Nat × Nat) :=
  [(0x09, 0x0D), (0x1C, 0x20), (0x85, 0x85), (0xA0, 0xA0), (0x1680, 0x1680),
    (0x2000, 0x200A), (0x2028, 0x2029), (0x202F, 0x202F), (0x205F, 0x205F),
    (0x3000, 0x3000)]

def isBlank (character : Char) : Bool :=
  blankRanges.any fun (low, high) => low ≤ character.toNat && character.toNat ≤ high

example : (blankRanges.map fun (low, high) => high + 1 - low).sum = 29 := rfl

/-- Tell whether a text consists of blank characters only. The empty text does
not, it holds no character at all. -/
def allBlank (text : List Char) : Bool :=
  !text.isEmpty && text.all isBlank

def trimStart (text : List Char) : List Char :=
  text.dropWhile isBlank

def trim (text : List Char) : List Char :=
  (trimStart (trimStart text).reverse).reverse

/-! The fields of a text are its longest runs of other than blank characters. -/

/-- Collect fields from left to right; `current` holds the characters of the
field that is being read, last one first. -/
def collectFields (current : List Char) : List Char → List (List Char)
  | [] => if current.isEmpty then [] else [current.reverse]
  | character :: rest =>
    if isBlank character then
      if current.isEmpty then collectFields [] rest
      else current.reverse :: collectFields [] rest
    else collectFields (character :: current) rest

def fields (text : List Char) : List (List Char) :=
  collectFields [] text

example : fields " a  bc ".toList = ["a".toList, "bc".toList] := rfl

end XmlGrove.Text
