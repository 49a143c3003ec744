import XmlGrove.Parse.Document

/-!
# The grammar of documents

Which texts are documents, said without a reader: each production relates a text to what it
stands for. Wherever a piece of markup ends at a delimiter, it ends at the first one, and a
name is as long as possible.
-/

namespace XmlGrove.Grammar

/-! ## Lexical conditions -/

/-- A text, possibly void, of blank characters. -/
def Blanks (text : List Char) : Prop := ∀ character ∈ text, Text.isBlank character = true

/-- A text that does not start with a character of the given class. -/
def StartsOutside (holds : Char → Bool) (text : List Char) : Prop :=
  ∀ character ∈ text.head?, holds character = false

/-- A text that does not start with a blank character. -/
abbrev StartsSolid (text : List Char) : Prop := StartsOutside Text.isBlank text

/-- A text that a name in front of it can not go on with. -/
abbrev EndsName (text : List Char) : Prop := StartsOutside isNameRest text

/-- In a body that is followed by a delimiter, that is the delimiter's first occurrence. -/
def EndsFirst (delimiter body : List Char) : Prop :=
  ∀ before after, body ++ delimiter = before ++ delimiter ++ after → after = []

/-! ## Comments, CDATA sections and processing instructions -/

/-- A body between an opening literal and a closing one. -/
inductive Enclosed (opening closing : String) : List Char → List Char → Prop
  | intro (body : List Char) : EndsFirst closing.toList body →
      Enclosed opening closing (opening.toList ++ (body ++ closing.toList)) body

/-- The text of a comment and its content. -/
abbrev Comment : List Char → List Char → Prop := Enclosed "<!--" "-->"

/-- The text of a CDATA section and its content. -/
abbrev CData : List Char → List Char → Prop := Enclosed "<![CDATA[" "]]>"

/-- The text of a processing instruction, its target and its content. -/
inductive Instruction : List Char → Name → List Char → Prop
  | intro (target : Name) (gap body : List Char) :
      Blanks gap → StartsSolid body → EndsName (gap ++ body) → EndsFirst "?>".toList body →
      Instruction ("<?".toList ++ (target.text.toList ++ (gap ++ (body ++ "?>".toList))))
        target body

/-! ## Tags -/

/-- The text of an attribute, its name and its value as it is written. -/
inductive Attribute : List Char → Name × List Char → Prop
  | intro (name : Name) (beforeEquals afterEquals value gap : List Char) (quote : Char) :
      Blanks beforeEquals → Blanks afterEquals → Blanks gap →
      quote = '\x22' ∨ quote = '\x27' → quote ∉ value →
      Attribute (name.text.toList ++ (beforeEquals ++ ('=' :: (afterEquals ++
        (quote :: (value ++ (quote :: gap))))))) (name, value)

/-- The text of several attributes. -/
inductive AttributeList : List Char → List (Name × List Char) → Prop
  | nil : AttributeList [] []
  | cons {first rest : List Char} {entry : Name × List Char}
      {entries : List (Name × List Char)} :
      Attribute first entry → AttributeList rest entries →
      AttributeList (first ++ rest) (entry :: entries)

/-- The text of a start tag without what ends it. -/
inductive TagHead : List Char → Name → List (Name × List Char) → Prop
  | intro (name : Name) (gap list : List Char) (entries : List (Name × List Char)) :
      Blanks gap → AttributeList list entries → EndsName (gap ++ list) →
      TagHead ('<' :: (name.text.toList ++ (gap ++ list))) name entries

/-- The text of an end tag. -/
inductive EndTag : List Char → Name → Prop
  | intro (name : Name) (gap : List Char) : Blanks gap →
      EndTag ("</".toList ++ (name.text.toList ++ (gap ++ ['>']))) name

/-! ## Content -/

/-- What content consists of. -/
inductive Piece where
  | text (characters : List Char)
  | comment (body : List Char)
  | cdata (body : List Char)
  | instruction (target : Name) (body : List Char)
  | element (name : Name) (entries : List (Name × List Char)) (pieces : List Piece)

mutual

/-- The text of a piece. An element is one tag that is empty, or it holds content between two
tags of the same name. -/
inductive Fragment : List Char → Piece → Prop
  | text {characters : List Char} : '<' ∉ characters → Fragment characters (.text characters)
  | comment {text body : List Char} : Comment text body → Fragment text (.comment body)
  | cdata {text body : List Char} : CData text body → Fragment text (.cdata body)
  | instruction {text body : List Char} {target : Name} :
      Instruction text target body → Fragment text (.instruction target body)
  | empty {head : List Char} {name : Name} {entries : List (Name × List Char)} :
      TagHead head name entries →
      Fragment (head ++ "/>".toList) (.element name entries [])
  | paired {head inner ending : List Char} {name : Name} {entries : List (Name × List Char)}
      {pieces : List Piece} :
      TagHead head name entries → Content inner pieces → EndTag ending name →
      Fragment (head ++ ">".toList ++ (inner ++ ending)) (.element name entries pieces)

/-- The text of any sequence of pieces. -/
inductive Content : List Char → List Piece → Prop
  | nil : Content [] []
  | cons {first rest : List Char} {piece : Piece} {pieces : List Piece} :
      Fragment first piece → Content rest pieces → Content (first ++ rest) (piece :: pieces)

end

/-! ## Documents -/

/-- The text of comments and processing instructions, each one with the blank characters
behind it. -/
inductive Prologue : List Char → List Leaf → Prop
  | nil : Prologue [] []
  | comment {first gap rest body : List Char} {leaves : List Leaf} :
      Comment first body → Blanks gap → Prologue rest leaves →
      Prologue (first ++ (gap ++ rest)) (.comment (String.ofList body) :: leaves)
  | instruction {first gap rest body : List Char} {target : Name} {leaves : List Leaf} :
      Instruction first target body → Blanks gap → Prologue rest leaves →
      Prologue (first ++ (gap ++ rest)) (.instruction target (String.ofList body) :: leaves)

/-- The text of a document: what precedes its root, and the root. -/
inductive Document : List Char → List Leaf → Piece → Prop
  | intro {before opening element after : List Char} {leaves : List Leaf} {name : Name}
      {entries : List (Name × List Char)} {pieces : List Piece} :
      Blanks before → Prologue opening leaves →
      Fragment element (.element name entries pieces) → Blanks after →
      Document (before ++ (opening ++ (element ++ after))) leaves (.element name entries pieces)

end XmlGrove.Grammar
