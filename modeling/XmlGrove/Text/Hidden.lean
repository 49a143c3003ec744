/-!
# Hidden characters

The characters that leave no mark where a text is shown: control and formatting
characters, blanks other than the space, and those that have no agreed meaning.
-/

namespace XmlGrove.Text

def hiddenRanges : List (Nat × Nat) :=
  [(0, 0x1F), (0x7F, 0xA0), (0xAD, 0xAD), (0x600, 0x605), (0x61C, 0x61C), (0x6DD, 0x6DD),
    (0x70F, 0x70F), (0x890, 0x891), (0x8E2, 0x8E2), (0x1680, 0x1680), (0x180E, 0x180E),
    (0x2000, 0x200F), (0x2028, 0x202F), (0x205F, 0x206F), (0x3000, 0x3000), (0xE000, 0xF8FF),
    (0xFEFF, 0xFEFF), (0xFFF0, 0xFFFB), (0xFFFE, 0xFFFF), (0x110BD, 0x110BD),
    (0x110CD, 0x110CD), (0x13430, 0x13438), (0x1BCA0, 0x1BCA3), (0x1D173, 0x1D17A),
    (0xE0000, 0xE00FF), (0xE01F0, 0x10FFFF)]

def isHidden (character : Char) : Bool :=
  hiddenRanges.any fun (low, high) => low ≤ character.toNat && character.toNat ≤ high

example : ['\t', '\u00a0', '\u200b', '\ufeff'].all isHidden := rfl

example : [' ', 'a', '\u00e4', '\u4e2d'].any isHidden = false := rfl

end XmlGrove.Text
