import XmlGrove.Text.Quoted

/-!
# Selectors

The structure of selectors, and how it is displayed where a selector is not
supported.
-/

namespace XmlGrove.Css

inductive Comparison where
  | exists
  /-- A comparison with the written operator. The flag tells whether the case counts. -/
  | operator (symbol value : String) (flag : Option String)
  deriving Repr, DecidableEq

mutual

/-- A selector. Every kind but the first and the last one narrows down what its
base selects. An element without a name, or with the name `*`, stands for any one. -/
inductive Selector where
  | element (space name : Option String)
  | hash (base : Selector) (id : String)
  | className (base : Selector) (name : String)
  | attribute (base : Selector) (space : Option String) (name : String)
      (comparison : Comparison)
  | pseudo (base : Selector) (name : String)
  | function (base : Selector) (name : String) (arguments : List String)
  | negation (base argument : Selector)
  | matching (base : Selector) (arguments : List Selector)
  | unweighted (base : Selector) (arguments : List Selector)
  | relation (base : Selector) (arguments : List Relative)
  | combined (left : Selector) (combinator : Char) (right : Selector)

inductive Relative where
  | to (combinator : Char) (selector : Selector)

end

structure Member where
  selector : Selector
  isPseudoElement : Bool := false

/-! ## Display -/

def hexDigits (number : Nat) : String := String.ofList (Nat.toDigits 16 number)

def numericEscape (character : Char) : String :=
  "\\" ++ hexDigits character.toNat ++ " "

def identifierCharacter (character : Char) : String :=
  if character.toNat < 0x20 || character.toNat = 0x7f then numericEscape character
  else if character.isAlphanum || character == '-' || character == '_' ||
      0x80 ≤ character.toNat then character.toString
  else String.ofList ['\\', character]

/-- A name as it is written in a selector: what an identifier can't start with is
escaped. -/
def writtenIdentifier (name : String) : String :=
  match name.toList with
  | ['-'] => "\\-"
  | '-' :: '-' :: rest => "\\--" ++ others rest
  | '-' :: first :: rest => "-" ++ start first ++ others rest
  | first :: rest => start first ++ others rest
  | [] => ""
where
  start (character : Char) : String :=
    if character.isDigit then numericEscape character else identifierCharacter character
  others (rest : List Char) : String := String.join (rest.map identifierCharacter)

example : ["a.b", "1a", "-1", "--a", "-", "_x"].map writtenIdentifier =
    ["a\\.b", "\\31 a", "-\\31 ", "\\--a", "\\-", "_x"] := by
  decide +kernel

def nameOrAny (name : String) : String := if name = "*" then name else writtenIdentifier name

def qualified (space : Option String) (name : String) : String :=
  match space with
  | none => name
  | some space => s!"{space}|{name}"

mutual

def Selector.display : Selector → String
  | .element space name =>
    let shown := qualified (space.map nameOrAny) (nameOrAny (name.getD "*"))
    s!"Element[{shown}]"
  | .hash base id => "Hash[" ++ base.display ++ "#" ++ id ++ "]"
  | .className base name => "Class[" ++ base.display ++ "." ++ name ++ "]"
  | .attribute base space name .exists =>
    "Attrib[" ++ base.display ++ "[" ++ qualified space name ++ "]]"
  | .attribute base space name (.operator symbol value flag) =>
    "Attrib[" ++ base.display ++ "[" ++ qualified space name ++ " " ++ symbol ++ " " ++
      String.ofList (Text.quoted value.toList) ++ (flag.map (" " ++ ·)).getD "" ++ "]]"
  | .pseudo base name => "Pseudo[" ++ base.display ++ ":" ++ name ++ "]"
  | .function base name arguments =>
    "Function[" ++ base.display ++ ":" ++ name ++ "(" ++ Text.quotedList arguments ++ ")]"
  | .negation base argument =>
    "Negation[" ++ base.display ++ ":not(" ++ argument.display ++ ")]"
  | .matching base arguments =>
    "Matching[" ++ base.display ++ ":is(" ++ ", ".intercalate (displayAll arguments) ++ ")]"
  | .unweighted base arguments =>
    "SpecificityAdjustment[" ++ base.display ++ ":where(" ++
      ", ".intercalate (displayAll arguments) ++ ")]"
  | .relation base arguments =>
    "Relation[" ++ base.display ++ ":has(" ++
      ", ".intercalate (displayAllRelative arguments) ++ ")]"
  | .combined left combinator right =>
    let shown := if combinator = ' ' then "<followed>" else combinator.toString
    "CombinedSelector[" ++ left.display ++ " " ++ shown ++ " " ++ right.display ++ "]"

def Relative.display : Relative → String
  | .to combinator selector =>
    (if combinator = ' ' then "" else combinator.toString ++ " ") ++
      "Selector[" ++ selector.display ++ "]"

def displayAll : List Selector → List String
  | [] => []
  | first :: rest => first.display :: displayAll rest

def displayAllRelative : List Relative → List String
  | [] => []
  | first :: rest => first.display :: displayAllRelative rest

end

end XmlGrove.Css
