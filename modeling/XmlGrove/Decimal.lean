/-!
# Decimals

Numbers that are written with a fraction or an exponent, as the digits that denote
them. Zero has a sign, which shows in its notation, but does not make it another
number.
-/

namespace XmlGrove

/-- A number that is written with a fraction or an exponent: digits times a power of
ten. -/
structure Decimal where
  isNegative : Bool
  digits : Nat
  exponent : Int
  deriving Repr, DecidableEq

namespace Decimal

/-! ## The number -/

def ofInt (value : Int) : Decimal := ⟨decide (value < 0), value.natAbs, 0⟩

def signedDigits (number : Decimal) : Int :=
  if number.isNegative then -number.digits else number.digits

def inUnits (number : Decimal) (exponent : Int) : Int :=
  number.signedDigits * Int.pow 10 (number.exponent - exponent).toNat

def plus (number : Decimal) (offset : Int) : Decimal :=
  let unit := min number.exponent 0
  let sum := number.inUnits unit + (ofInt offset).inUnits unit
  ⟨decide (sum < 0), sum.natAbs, unit⟩

def compare (left right : Decimal) : Ordering :=
  let unit := min left.exponent right.exponent
  Ord.compare (left.inUnits unit) (right.inUnits unit)

def equals (left right : Decimal) : Bool := left.compare right == .eq

def isZero (number : Decimal) : Bool := number.digits == 0

def isAbove (number : Decimal) (bound : Int) : Bool := number.compare (ofInt bound) == .gt

def isBelow (number : Decimal) (bound : Int) : Bool := number.compare (ofInt bound) == .lt

example : (Decimal.mk false 150 (-2)).equals ⟨false, 15, -1⟩ := by decide +kernel

example : ((Decimal.mk true 15 (-1)).plus 2).equals ⟨false, 5, -1⟩ := by decide +kernel

example : (Decimal.mk true 0 0).equals ⟨false, 0, 3⟩ := by decide +kernel

/-! ## Notation -/

def significant (digits : Nat) : List Char :=
  ((Nat.toDigits 10 digits).reverse.dropWhile (· == '0')).reverse

/-- How many digits are in front of the point; there are zeros behind it if that is
negative. -/
def place (number : Decimal) : Int := (Nat.toDigits 10 number.digits).length + number.exponent

def zeros (count : Nat) : List Char := List.replicate count '0'

def positional (digits : List Char) (place : Int) : List Char :=
  if place ≤ 0 then '0' :: '.' :: zeros (-place).toNat ++ digits
  else
    let whole := place.toNat
    if digits.length ≤ whole then digits ++ zeros (whole - digits.length) ++ ['.', '0']
    else digits.take whole ++ '.' :: digits.drop whole

def exponentText (exponent : Int) : List Char :=
  let written := Nat.toDigits 10 exponent.natAbs
  'e' :: (if exponent < 0 then '-' else '+') :: zeros (2 - written.length) ++ written

def scientific (digits : List Char) (place : Int) : List Char :=
  match digits with
  | [] => []
  | [digit] => digit :: exponentText (place - 1)
  | digit :: rest => digit :: '.' :: rest ++ exponentText (place - 1)

/-- The notation of a number. An exponent is only used for what has more than sixteen
digits in front of the point, or at least four zeros behind it. -/
def display (number : Decimal) : String :=
  let sign := if number.isNegative then ['-'] else []
  let digits := significant number.digits
  let place := number.place
  if number.isZero then String.ofList (sign ++ ['0', '.', '0'])
  else if -4 < place ∧ place ≤ 16 then String.ofList (sign ++ positional digits place)
  else String.ofList (sign ++ scientific digits place)

example : (Decimal.mk false 150 (-2)).display = "1.5" := by decide +kernel

example : (Decimal.mk true 1 (-4)).display = "-0.0001" := by decide +kernel

example : (Decimal.mk false 10 (-6)).display = "1e-05" := by decide +kernel

example : (Decimal.mk false 1 16).display = "1e+16" := by decide +kernel

example : (Decimal.mk false 1 15).display = "1000000000000000.0" := by decide +kernel

/-! ## Reading -/

def digitsValue (digits : List Char) : Nat :=
  digits.foldl (fun number digit => 10 * number + (digit.toNat - '0'.toNat)) 0

def signedValue : List Char → Int
  | '-' :: digits => -digitsValue digits
  | '+' :: digits | digits => digitsValue digits

def isExponentMark (character : Char) : Bool := character == 'e' || character == 'E'

def readUnsigned (isNegative : Bool) (written : List Char) : Decimal :=
  let mantissa := written.takeWhile fun character => !isExponentMark character
  let exponent := (written.dropWhile fun character => !isExponentMark character).drop 1
  let whole := mantissa.takeWhile (· != '.')
  let fraction := (mantissa.dropWhile (· != '.')).drop 1
  ⟨isNegative, digitsValue (whole ++ fraction), signedValue exponent - fraction.length⟩

def read : List Char → Decimal
  | '-' :: written => readUnsigned true written
  | written => readUnsigned false written

example : read "-0.5".toList = ⟨true, 5, -1⟩ := by decide +kernel

example : (read "1.5e-07".toList).display = "1.5e-07" := by decide +kernel

example : (read "100.0".toList).display = "100.0" := by decide +kernel

end Decimal

end XmlGrove
