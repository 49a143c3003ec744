import XmlGrove.Loading.Uri

/-!
# Hosts

The host that is a part of an address: the number of a machine in one of two
notations, or its name.
-/

namespace XmlGrove.Loading.Host

/-! ## Numbers -/

/-- Tell whether a text consists of numbers with a character of any kind between two
of them. `more` numbers follow the one that is being read. -/
def looksNumbered (more : Nat) (begun : Bool) : List Char → Bool
  | [] => begun && more = 0
  | character :: rest =>
    (character.isDigit && looksNumbered more true rest) ||
      (begun && 0 < more && looksNumbered (more - 1) false rest)

def decimalValue (digits : List Char) : Nat :=
  digits.foldl (fun value digit => value * 10 + (digit.toNat - 48)) 0

def isByte (text : List Char) : Bool :=
  !text.isEmpty && text.length ≤ 3 && text.all Char.isDigit &&
    (text.length = 1 || text.head? != some '0') && decimalValue text < 256

def isShortNumber (text : List Char) : Bool :=
  let bytes := Text.splitAtEach '.' text
  bytes.length = 4 && bytes.all isByte

def isGroup (text : List Char) : Bool :=
  !text.isEmpty && text.length ≤ 4 && text.all fun digit => (hexDigitValue? digit).isSome

/-- Replace the short number that a long one can end with by the two groups that it
stands for. -/
def expandLast (parts : List (List Char)) : Option (List (List Char)) :=
  match parts.getLast? with
  | some last =>
    if last.contains '.' then
      if isShortNumber last then some (parts.dropLast ++ [['0'], ['0']]) else none
    else some parts
  | none => none

/-- Tell whether the parts between colons make up a long number. Void ones in the midst
stand for the groups that lack; a void one at an end needs such a neighbour. -/
def areGroups (parts : List (List Char)) : Bool :=
  let inner := (parts.drop 1).dropLast
  let voids := inner.countP List.isEmpty
  let filled := parts.filter (!·.isEmpty)
  let startFits := parts.head? != some [] || inner.head? = some []
  let endFits := parts.getLast? != some [] || inner.getLast? = some []
  parts.length ≤ 9 && filled.all isGroup && startFits && endFits &&
    (if voids = 0 then filled.length = 8 && parts.length = 8
    else voids = 1 && filled.length < 8)

def isLongNumber (text : List Char) : Bool :=
  let (number, zone) := match Text.cut? ['%'] text with
    | some (number, zone) => (number, some zone)
    | none => (text, none)
  let parts := Text.splitAtEach ':' number
  3 ≤ parts.length && (expandLast parts).any areGroups &&
    zone.all fun zone => !zone.isEmpty && !zone.contains '%'

example : ["::1", "1:2:3:4:5:6:7:8", "::ffff:1.2.3.4", "fe80::1%eth0"].all
    fun text => isLongNumber text.toList := by
  decide +kernel

example : ["1::2::3", ":1", "1:2:3:4:5:6:7", "::1%"].all
    fun text => !isLongNumber text.toList := by
  decide +kernel

/-! ## Names -/

def isPlainInName (character : Char) : Bool :=
  character.isAlphanum || "-._~!$&\x27()*+,;=\x22`\x7b\x7d%|\\".toList.contains character

def normalized? (host : List Char) : Option String :=
  if host.isEmpty then some ""
  else if looksNumbered 3 false host then
    if isShortNumber host then some (String.ofList host) else none
  else if host.head? = some '[' && host.getLast? = some ']' then
    let number := (host.drop 1).dropLast
    if isLongNumber number then some (String.ofList number) else none
  else some (percentEncode isPlainInName (host.map Char.toLower))

end XmlGrove.Loading.Host
