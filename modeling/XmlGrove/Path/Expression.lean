import XmlGrove.Fault
import XmlGrove.Text.Blank
import XmlGrove.Text.Search

/-!
# Path expressions

A path expression is a sequence of steps from node to node. Every text is a path
expression: what is not understood becomes a step or a predicate that nothing
matches.
-/

namespace XmlGrove.Path

/-! ## Syntax -/

inductive Predicate where
  | attributeEquals (name value : String)
  | hasAttribute (name : String)
  /-- A position among the candidates, counted from one. -/
  | position (number : Int)
  | textEquals (value : String)
  | unsupported (expression : String)
  deriving Repr, DecidableEq

inductive ChildTest where
  | any
  | named (name : String)
  deriving Repr, DecidableEq

inductive Step where
  | children (test : ChildTest)
  | filtered (test : ChildTest) (predicate : Predicate)
  | self
  | parent
  /-- A malformed step, which leads nowhere. -/
  | nowhere
  deriving Repr, DecidableEq

structure Expression where
  absolute : Bool
  steps : List Step
  deriving Repr, DecidableEq

/-! ## Reading -/

/-- Drop one pair of equal quotes that encloses a value. -/
def stripQuotes (value : List Char) : List Char :=
  match value with
  | first :: rest =>
    match rest.getLast? with
    | some last =>
      if first = last && (first = '\x22' || first = '\x27') then rest.dropLast else value
    | none => value
  | [] => value

def digitsValue (digits : List Char) : Nat :=
  digits.foldl (fun value digit => value * 10 + (digit.toNat - 48)) 0

/-- The number that digits with an optional sign denote, however many these are. -/
def number? (text : List Char) : Option Int :=
  let unsigned? (digits : List Char) : Option Nat :=
    if !digits.isEmpty && digits.all Char.isDigit then some (digitsValue digits) else none
  match text with
  | '-' :: digits => (unsigned? digits).map fun value => -(value : Int)
  | '+' :: digits => (unsigned? digits).map fun value => (value : Int)
  | digits => (unsigned? digits).map fun value => (value : Int)

def attributePredicate (expression : List Char) : Predicate :=
  match Text.cut? ['='] expression with
  | none => .hasAttribute (String.ofList expression)
  | some (name, value) =>
    if name.isEmpty || value.isEmpty then .unsupported (String.ofList expression)
    else .attributeEquals (String.ofList name) (String.ofList (stripQuotes value))

def readPredicate (expression : List Char) : Predicate :=
  match number? expression with
  | some number => .position number
  | none =>
    match expression with
    | '@' :: rest => attributePredicate rest
    | _ =>
      match Text.cut? ['='] expression with
      | some (_, value) =>
        if "text()".toList.isPrefixOf expression && !value.isEmpty then
          .textEquals (String.ofList (stripQuotes value))
        else .unsupported (String.ofList expression)
      | none => .unsupported (String.ofList expression)

def readTest (name : List Char) : ChildTest :=
  if name = ['*'] then .any else .named (String.ofList name)

/-- The predicate between the first opening and the last closing bracket, given
what follows the former. -/
def predicateText? (afterOpening : List Char) : Option (List Char) :=
  Text.beforeLast? ']' afterOpening

def readStep (segment : List Char) : Step :=
  if segment = ['*'] then .children .any
  else if segment = ['.', '.'] then .parent
  else if segment = ['.'] then .self
  else
    match Text.cut? ['['] segment with
    | none => .children (.named (String.ofList segment))
    | some (name, afterOpening) =>
      if segment.contains ']' then
        match predicateText? afterOpening with
        | some predicate => .filtered (readTest name) (readPredicate predicate)
        | none => .nowhere
      else .children (.named (String.ofList segment))

def Expression.read (text : List Char) : Expression :=
  let trimmed := Text.trim text
  if trimmed = ['/'] then ⟨true, [.self]⟩
  else
    let segments := (Text.splitAtEach '/' trimmed).filter (!·.isEmpty)
    ⟨trimmed.head? == some '/', segments.map readStep⟩

example : (Expression.read "b[@id=\x27x\x27]/..".toList).steps =
    [.filtered (.named "b") (.attributeEquals "id" "x"), .parent] := by
  decide +kernel

example : (Expression.read "/*[2]".toList) =
    ⟨true, [.filtered .any (.position 2)]⟩ := by
  decide +kernel

/-! ## Parsing

What a text is read as can hold a number that is too long to be converted, and
then it is not parsed. Signs are not counted, leading zeros are. -/

def digitLimit : Nat := 4300

def isConvertible (text : List Char) : Bool := text.countP Char.isDigit ≤ digitLimit

def parsePredicate (expression : List Char) : Except Fault Predicate :=
  match readPredicate expression with
  | .position number =>
    if isConvertible expression then .ok (.position number) else .error .unacceptable
  | other => .ok other

def predicateIn? (segment : List Char) : Option (List Char) :=
  (Text.cut? ['['] segment).bind fun (_, afterOpening) => predicateText? afterOpening

def parseStep (segment : List Char) : Except Fault Step :=
  match readStep segment, predicateIn? segment with
  | .filtered test _, some text => (parsePredicate text).map (.filtered test)
  | step, _ => .ok step

def Expression.parse (text : List Char) : Except Fault Expression :=
  let trimmed := Text.trim text
  if trimmed = ['/'] then .ok ⟨true, [.self]⟩
  else do
    let segments := (Text.splitAtEach '/' trimmed).filter (!·.isEmpty)
    return ⟨trimmed.head? == some '/', ← segments.mapM parseStep⟩

end XmlGrove.Path
