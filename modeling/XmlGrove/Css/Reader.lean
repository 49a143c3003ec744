import XmlGrove.Css.Matching
import XmlGrove.Css.Token

/-!
# Reading selectors

A group consists of selectors that are separated by commas, a selector of
compounds that are separated by combinators, and a compound of a name and what
narrows it down. What stands in parentheses is read by the same rules, less some
that its context excludes.
-/

namespace XmlGrove.Css

structure Context where
  enclosed : Bool := false
  negated : Bool := false
  /-- The scope can be referred to: no combinator precedes. -/
  leading : Bool := true

namespace Context

def afterCombinator (context : Context) : Context := { context with leading := false }

def negation : Context := { enclosed := true, negated := true, leading := false }

def alternatives : Context := { enclosed := true, negated := true, leading := false }

def relative : Context := { enclosed := true }

end Context

/-! ## Single tokens -/

/-- Skip blanks. Comments part them, so that there can be more than one. -/
def skipBlanks (tokens : List Token) : List Token := tokens.dropWhile (· == .blank)

def endsCompound (context : Context) : List Token → Bool
  | [] | .blank :: _ => true
  | .delimiter character :: _ =>
    character == ',' || character == '+' || character == '>' || character == '~' ||
      (context.enclosed && character == ')')
  | _ => false

def endsSelector (context : Context) : List Token → Bool
  | [] => true
  | .delimiter character :: _ => character == ',' || (context.enclosed && character == ')')
  | _ => false

/-! ## Names and attributes -/

def namedElement (space : Option String) (name : String) : Selector :=
  .element space (if name = "*" then none else some name)

def readNameOrAny? : List Token → Option (String × List Token)
  | .identifier name :: rest => some (name, rest)
  | .delimiter '*' :: rest => some ("*", rest)
  | _ => none

def readElement? (tokens : List Token) : Option (Selector × List Token) :=
  match readNameOrAny? tokens, tokens with
  | some (space, .delimiter '|' :: rest), _ =>
    (readNameOrAny? rest).map fun (name, rest) => (namedElement (some space) name, rest)
  | some (name, rest), _ => some (namedElement none name, rest)
  | none, .delimiter '|' :: rest =>
    (readNameOrAny? rest).map fun (name, rest) => (namedElement none name, rest)
  | none, _ => some (.element none none, tokens)

def readAttributeName? :
    List Token → Option ((Option String × String × Option String) × List Token)
  | .identifier name :: .delimiter '|' :: .delimiter '=' :: rest =>
    some ((none, name, some "|="), rest)
  | .identifier space :: .delimiter '|' :: .identifier name :: rest =>
    some ((some space, name, none), rest)
  | .delimiter '*' :: .delimiter '|' :: .identifier name :: rest =>
    some ((some "*", name, none), rest)
  | .delimiter '|' :: .identifier name :: rest => some ((none, name, none), rest)
  | .identifier _ :: .delimiter '|' :: _ => none
  | .identifier name :: rest => some ((none, name, none), rest)
  | _ => none

def operatorCharacters : List Char := ['^', '$', '*', '~', '|', '!']

def readOperator? : List Token → Option (String × List Token)
  | .delimiter '=' :: rest => some ("=", rest)
  | .delimiter character :: .delimiter '=' :: rest =>
    if operatorCharacters.contains character then
      some (String.ofList [character, '='], rest)
    else none
  | _ => none

def readOperand? : List Token → Option (String × List Token)
  | .identifier value :: rest | .string value :: rest => some (value, rest)
  | _ => none

def readFlag (tokens : List Token) : Option String × List Token :=
  match tokens with
  | .identifier flag :: rest =>
    let flag := flag.toLower
    if flag = "i" || flag = "s" then (some flag, skipBlanks rest) else (none, tokens)
  | _ => (none, tokens)

def readTestEnd? : List Token → Option (List Token)
  | .delimiter ']' :: rest => some rest
  | _ => none

def readAttribute? (base : Selector) (tokens : List Token) : Option (Selector × List Token) := do
  let ((space, name, met), rest) ← readAttributeName? (skipBlanks tokens)
  match met with
  | some symbol => comparison space name symbol rest
  | none =>
    let rest := skipBlanks rest
    match readTestEnd? rest with
    | some rest => return (.attribute base space name .exists, rest)
    | none =>
      let (symbol, rest) ← readOperator? rest
      comparison space name symbol rest
where
  comparison (space : Option String) (name symbol : String) (tokens : List Token) :
      Option (Selector × List Token) := do
    let (value, rest) ← readOperand? (skipBlanks tokens)
    let (flag, rest) := readFlag (skipBlanks rest)
    let rest ← readTestEnd? rest
    return (.attribute base space name (.operator symbol value flag), rest)

/-! ## Arguments of functions -/

def readArguments? : List Token → Option (List String × List Token)
  | .delimiter ')' :: rest => some ([], rest)
  | .blank :: rest => readArguments? rest
  | .identifier value :: rest | .string value :: rest | .number value :: rest =>
    (readArguments? rest).map fun (arguments, rest) => (value :: arguments, rest)
  | .delimiter character :: rest =>
    if character = '+' || character = '-' then
      (readArguments? rest).map fun (arguments, rest) =>
        (character.toString :: arguments, rest)
    else none
  | _ => none

def plainPseudoElements : List String := ["first-line", "first-letter", "before", "after"]

/-! ## Selectors -/

/-- Read the combinator in front of a relative selector; without one any
descendant is meant. -/
def readLeadingCombinator (tokens : List Token) : Char × List Token :=
  match tokens with
  | .delimiter character :: rest =>
    if character = '+' || character = '>' || character = '~' then (character, skipBlanks rest)
    else (' ', tokens)
  | _ => (' ', tokens)

def readCombinator (tokens : List Token) : Char × List Token :=
  readLeadingCombinator (skipBlanks tokens)

mutual

def readCompound? (bound : Nat) (context : Context) (tokens : List Token) :
    Option (Member × List Token) :=
  match bound with
  | 0 => none
  | bound + 1 => do
    let tokens := skipBlanks tokens
    let (element, rest) ← readElement? tokens
    let (compound, rest) ← readParts? bound context element rest
    if rest.length < tokens.length then return (compound, rest) else none

def readParts? (bound : Nat) (context : Context) (base : Selector) (tokens : List Token) :
    Option (Member × List Token) :=
  match bound with
  | 0 => none
  | bound + 1 =>
    if endsCompound context tokens then some (⟨base, false⟩, tokens)
    else
      match tokens with
      | .hash id :: rest => readParts? bound context (.hash base id) rest
      | .delimiter '.' :: .identifier name :: rest =>
        readParts? bound context (.className base name) rest
      | .delimiter '[' :: rest => do
        let (narrowed, rest) ← readAttribute? base rest
        readParts? bound context narrowed rest
      | .delimiter ':' :: .delimiter ':' :: .identifier _ :: .delimiter '(' :: rest => do
        let (_, rest) ← readArguments? rest
        if endsCompound context rest then return (⟨base, true⟩, rest) else none
      | .delimiter ':' :: .delimiter ':' :: .identifier _ :: rest =>
        if endsCompound context rest then some (⟨base, true⟩, rest) else none
      | .delimiter ':' :: .identifier name :: rest =>
        let name := name.toLower
        if plainPseudoElements.contains name then
          if endsCompound context rest then some (⟨base, true⟩, rest) else none
        else
          match rest with
          | .delimiter '(' :: rest => do
            let (narrowed, rest) ← readFunction? bound context base name rest
            readParts? bound context narrowed rest
          | _ =>
            if name = "scope" && !context.leading then none
            else readParts? bound context (.pseudo base name) rest
      | _ => none

def readFunction? (bound : Nat) (context : Context) (base : Selector) (name : String)
    (tokens : List Token) : Option (Selector × List Token) :=
  match bound with
  | 0 => none
  | bound + 1 =>
    if name = "not" then
      if context.negated then none
      else do
        let (argument, rest) ← readSelector? bound .negation (skipBlanks tokens)
        match argument, rest with
        | ⟨selector, false⟩, .delimiter ')' :: rest => return (.negation base selector, rest)
        | _, _ => none
    else if name = "is" || name = "matches" then do
      let (arguments, rest) ← readAlternatives? bound (skipBlanks tokens)
      return (.matching base arguments, rest)
    else if name = "where" then do
      let (arguments, rest) ← readAlternatives? bound (skipBlanks tokens)
      return (.unweighted base arguments, rest)
    else if name = "has" then do
      let (arguments, rest) ← readRelatives? bound (skipBlanks tokens)
      return (.relation base arguments, rest)
    else do
      let (arguments, rest) ← readArguments? tokens
      return (.function base name arguments, rest)

def readAlternatives? (bound : Nat) (tokens : List Token) :
    Option (List Selector × List Token) :=
  match bound with
  | 0 => none
  | bound + 1 => do
    let (⟨argument, isPseudoElement⟩, rest) ← readCompound? bound .alternatives tokens
    if isPseudoElement then none
    else
      match skipBlanks rest with
      | .delimiter ')' :: rest => return ([argument], rest)
      | .delimiter ',' :: rest =>
        let (others, rest) ← readAlternatives? bound (skipBlanks rest)
        return (argument :: others, rest)
      | _ => none

def readRelatives? (bound : Nat) (tokens : List Token) :
    Option (List Relative × List Token) :=
  match bound with
  | 0 => none
  | bound + 1 => do
    let (combinator, rest) := readLeadingCombinator (skipBlanks tokens)
    let context : Context := { Context.relative with leading := combinator == ' ' }
    let (⟨selector, isPseudoElement⟩, rest) ← readSelector? bound context rest
    let relative := Relative.to combinator selector
    if isPseudoElement then none
    else
      match rest with
      | .delimiter ')' :: rest => return ([relative], rest)
      | .delimiter ',' :: rest =>
        let (others, rest) ← readRelatives? bound (skipBlanks rest)
        return (relative :: others, rest)
      | _ => none

def readSelector? (bound : Nat) (context : Context) (tokens : List Token) :
    Option (Member × List Token) :=
  match bound with
  | 0 => none
  | bound + 1 => do
    let (first, rest) ← readCompound? bound context tokens
    readCombined? bound context first rest

/-- Read the combinators and compounds that follow a compound. Nothing follows a
pseudo-element. -/
def readCombined? (bound : Nat) (context : Context) (left : Member)
    (tokens : List Token) : Option (Member × List Token) :=
  match bound with
  | 0 => none
  | bound + 1 =>
    let following := skipBlanks tokens
    if endsSelector context following then some (left, following)
    else if left.isPseudoElement then none
    else do
      let (combinator, rest) := readCombinator tokens
      let (right, rest) ← readCompound? bound context.afterCombinator rest
      readCombined? bound context
        ⟨.combined left.selector combinator right.selector, right.isPseudoElement⟩ rest

end

def readMembers? (bound : Nat) (tokens : List Token) : Option (List Member) :=
  match bound with
  | 0 => none
  | bound + 1 => do
    let (member, rest) ← readSelector? (5 * (tokens.length + 1)) {} tokens
    match rest with
    | .delimiter ',' :: rest =>
      let others ← readMembers? bound (skipBlanks rest)
      return member :: others
    | [] => return [member]
    | _ => none

def read? (expression : String) : Option (List Member) := do
  let tokens ← tokenize? expression
  readMembers? (tokens.length + 1) (skipBlanks tokens)

def readGroup : GroupReader := fun expression =>
  match read? expression with
  | some members => .ok members
  | none => .error .selectorGrammar

end XmlGrove.Css
