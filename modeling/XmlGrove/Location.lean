/-!
# Locations in a text

A location is a line and a column, both counted from one. A line feed ends a
line and belongs to the line that it ends.
-/

namespace XmlGrove

structure Location where
  line : Nat
  column : Nat
  deriving Repr, DecidableEq

namespace Location

def start : Location := ⟨1, 1⟩

def step (location : Location) (character : Char) : Location :=
  if character = '\n' then ⟨location.line + 1, 1⟩
  else ⟨location.line, location.column + 1⟩

def after (location : Location) (segment : List Char) : Location :=
  segment.foldl step location

@[simp] theorem after_nil (location : Location) : location.after [] = location := rfl

@[simp] theorem after_append (location : Location) (first second : List Char) :
    location.after (first ++ second) = (location.after first).after second := by
  simp [after]

example : start.after "ab\nc".toList = ⟨2, 2⟩ := rfl

instance : ToString Location where
  toString location := s!"line {location.line}, column {location.column}"

end Location

end XmlGrove
