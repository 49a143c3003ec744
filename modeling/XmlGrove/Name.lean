import XmlGrove.Text.Blank

/-!
# XML names

The names of tags, attributes and instruction targets. They are ASCII only: a
letter, an underscore or a colon, followed by any number of these, digits,
hyphens and full stops.
-/

namespace XmlGrove

def isNameStart (character : Char) : Bool :=
  character.isAlpha || character == '_' || character == ':'

def isNameRest (character : Char) : Bool :=
  isNameStart character || character.isDigit || character == '-' || character == '.'

def isName : List Char → Bool
  | [] => false
  | first :: rest => isNameStart first && rest.all isNameRest

def nameAtStart? : List Char → Option (List Char × List Char)
  | [] => none
  | first :: rest =>
    if isNameStart first then
      some (first :: rest.takeWhile isNameRest, rest.dropWhile isNameRest)
    else none

theorem isName_of_nameAtStart? {text name after : List Char}
    (found : nameAtStart? text = some (name, after)) : isName name = true := by
  cases text with
  | nil => cases found
  | cons first rest =>
    rw [nameAtStart?] at found
    split at found
    · rename_i start
      simp only [Option.some.injEq, Prod.mk.injEq] at found
      rw [← found.1, isName, start, Bool.true_and]
      exact List.all_takeWhile
    · cases found

theorem eq_append_of_nameAtStart? {text name after : List Char}
    (found : nameAtStart? text = some (name, after)) : text = name ++ after := by
  cases text with
  | nil => cases found
  | cons first rest =>
    rw [nameAtStart?] at found
    split at found
    · simp only [Option.some.injEq, Prod.mk.injEq] at found
      rw [← found.1, ← found.2, List.cons_append, List.takeWhile_append_dropWhile]
    · cases found

structure Name where
  text : String
  isName_text : isName text.toList = true
  deriving DecidableEq

namespace Name

instance : Repr Name where
  reprPrec name precedence := reprPrec name.text precedence

instance : ToString Name where
  toString name := name.text

theorem ext {left right : Name} (equal : left.text = right.text) : left = right := by
  cases left
  cases right
  simp_all

def ofString? (text : String) : Option Name :=
  if valid : isName text.toList = true then some ⟨text, valid⟩ else none

@[simp] theorem ofString?_text (name : Name) : ofString? name.text = some name := by
  simp [ofString?, name.isName_text]

def ofChars (characters : List Char) (valid : isName characters = true) : Name :=
  ⟨String.ofList characters, by rw [String.toList_ofList]; exact valid⟩

def xml : Name := ⟨"xml", by decide⟩

end Name

end XmlGrove
