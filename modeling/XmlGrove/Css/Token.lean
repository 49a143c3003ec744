/-!
# Tokens of selectors

A selector is read in two passes; the first one yields tokens. Comments are
dropped. What a token stands for is found after its end is known: it is written
out in steps, each of which works on what the one before it left.
-/

namespace XmlGrove.Css

inductive Token where
  | blank
  | identifier (name : String)
  | hash (name : String)
  | string (value : String)
  | number (digits : String)
  | delimiter (character : Char)
  deriving Repr, DecidableEq

/-! ## Characters -/

def replacement : Char := '\uFFFD'

def isLineEnd (character : Char) : Bool :=
  character == '\n' || character == '\r' || character == '\x0c'

def isSpace (character : Char) : Bool :=
  character == ' ' || character == '\t' || isLineEnd character

def isHexDigit (character : Char) : Bool :=
  character.isDigit || ('a' ≤ character.toLower && character.toLower ≤ 'f')

def isIdentifierStart (character : Char) : Bool :=
  character.isAlpha || character == '_' || 0x80 ≤ character.toNat

def isIdentifierRest (character : Char) : Bool :=
  isIdentifierStart character || character.isDigit || character == '-'

def hexDigitValue (digit : Char) : Nat :=
  if digit.isDigit then digit.toNat - 48 else digit.toLower.toNat - 87

/-- The character with a code point; there is none for zero, surrogates and numbers
beyond the last code point. -/
def escapedCharacter (code : Nat) : Char :=
  if code ≠ 0 && code.isValidChar then Char.ofNat code else replacement

def spaceLength : List Char → Nat
  | '\r' :: '\n' :: _ => 2
  | character :: _ => if isSpace character then 1 else 0
  | [] => 0

/-! ## Escapes -/

def escapeDigits (text : List Char) : List Char := (text.take 6).takeWhile isHexDigit

def escapeLength? (text : List Char) : Option Nat :=
  let digits := (escapeDigits text).length
  if digits ≠ 0 then some (digits + spaceLength (text.drop digits))
  else if text.head?.all isLineEnd then none
  else some 1

def resolveCodes : List Char → List Char
  | [] => []
  | first :: rest =>
    let digits := escapeDigits rest
    if first ≠ '\\' || digits.isEmpty then first :: resolveCodes rest
    else
      let code := digits.foldl (fun code digit => code * 16 + hexDigitValue digit) 0
      let length := digits.length + spaceLength (rest.drop digits.length)
      escapedCharacter code :: resolveCodes (rest.drop length)
termination_by text => text.length
decreasing_by all_goals simp only [List.length_cons, List.length_drop]; omega

def resolveCharacters : List Char → List Char
  | '\\' :: next :: rest =>
    if next = '\n' then '\\' :: next :: resolveCharacters rest
    else next :: resolveCharacters rest
  | first :: rest => first :: resolveCharacters rest
  | [] => []

def joinLines : List Char → List Char
  | '\\' :: '\r' :: '\n' :: rest => joinLines rest
  | '\\' :: next :: rest =>
    if isLineEnd next then joinLines rest else '\\' :: joinLines (next :: rest)
  | first :: rest => first :: joinLines rest
  | [] => []

/-- What a name stands for. The characters that numeric escapes stand for can be
escaping ones. -/
def nameWritten (text : List Char) : String :=
  String.ofList (resolveCharacters (resolveCodes text))

def stringWritten (text : List Char) : String := nameWritten (joinLines text)

/-- Digits that a line end parts make up one number. -/
example : stringWritten "\\6\\\n1b".toList = "\u061b" ∧ stringWritten "\\6\\\n1 b".toList = "ab" := by
  decide +kernel

/-! ## Runs -/

/-- How many characters behind the first one belong to it, if it is of the given kind
or starts an escape. -/
def unitRest? (accepts : Char → Bool) (first : Char) (rest : List Char) : Option Nat :=
  if first = '\\' then escapeLength? rest else if accepts first then some 0 else none

def runLength (accepts : Char → Bool) : List Char → Nat
  | [] => 0
  | first :: rest =>
    match unitRest? accepts first rest with
    | none => 0
    | some length => 1 + length + runLength accepts (rest.drop length)
termination_by text => text.length
decreasing_by
  simp only [List.length_drop, List.length_cons]
  omega

def identifierLength? (text : List Char) : Option Nat :=
  let hyphens := if text.head? = some '-' then 1 else 0
  match text.drop hyphens with
  | [] => none
  | first :: rest =>
    (unitRest? isIdentifierStart first rest).map fun length =>
      hyphens + 1 + length + runLength isIdentifierRest (rest.drop length)

def numberLength? (text : List Char) : Option Nat :=
  let signs := match text with
    | '+' :: _ | '-' :: _ => 1
    | _ => 0
  let unsigned := text.drop signs
  let whole := (unsigned.takeWhile Char.isDigit).length
  match unsigned.drop whole with
  | '.' :: fraction =>
    let places := (fraction.takeWhile Char.isDigit).length
    if places = 0 then (if whole = 0 then none else some (signs + whole))
    else some (signs + whole + 1 + places)
  | _ => if whole = 0 then none else some (signs + whole)

def stringLength? (quote : Char) : List Char → Option Nat
  | [] => none
  | first :: rest =>
    if first = quote then some 0
    else if isLineEnd first then none
    else
      let escaped := if first ≠ '\\' then some 0 else
        match rest with
        | '\r' :: '\n' :: _ => some 2
        | next :: _ => if isLineEnd next then some 1 else escapeLength? rest
        | [] => none
      match escaped with
      | none => none
      | some length =>
        (stringLength? quote (rest.drop length)).map fun others => 1 + length + others
termination_by text => text.length
decreasing_by simp only [List.length_cons, List.length_drop]; omega

def commentLength : List Char → Nat
  | [] => 0
  | '*' :: '/' :: _ => 2
  | _ :: rest => 1 + commentLength rest

/-! ## Tokens -/

/-- Read a token, or skip a comment: what was read and how many characters behind
the first one belong to it. -/
def token? (first : Char) (rest : List Char) : Option (Option Token × Nat) :=
  let text := first :: rest
  if isSpace first then some (some .blank, (rest.takeWhile isSpace).length)
  else
    match identifierLength? text with
    | some length =>
      some (some (.identifier (nameWritten (text.take length))), length - 1)
    | none =>
      let hashLength := runLength isIdentifierRest rest
      if first = '#' && hashLength ≠ 0 then
        some (some (.hash (nameWritten (rest.take hashLength))), hashLength)
      else if first = '\x22' || first = '\x27' then
        (stringLength? first rest).map fun length =>
          (some (.string (stringWritten (rest.take length))), length + 1)
      else
        match numberLength? text with
        | some length => some (some (.number (String.ofList (text.take length))), length - 1)
        | none =>
          if first = '/' && rest.head? = some '*' then
            some (none, 1 + commentLength (rest.drop 1))
          else some (some (.delimiter first), 0)

def tokensOf? : List Char → Option (List Token)
  | [] => some []
  | first :: rest =>
    match token? first rest with
    | none => none
    | some (token, used) =>
      (tokensOf? (rest.drop used)).map fun tokens => token.toList ++ tokens
termination_by text => text.length
decreasing_by
  simp only [List.length_drop, List.length_cons]
  omega

def tokenize? (expression : String) : Option (List Token) :=
  tokensOf? (expression.toList.map fun character =>
    if character = Char.ofNat 0 then replacement else character)

example : tokenize? "a#b /* c */ > \x27d\x27" =
    some [.identifier "a", .hash "b", .blank, .blank, .delimiter '>', .blank,
      .string "d"] := by
  decide +kernel

end XmlGrove.Css
