/-!
# Unicode transformation formats

Encoders and strict decoders for UTF-8, UTF-16 and UTF-32. A decoder is given by
how it reads one character; a sequence of bytes is decoded by reading characters
until nothing is left.
-/

namespace XmlGrove.Encoding

abbrev Bytes := List UInt8

/-- How to read one character, given the next byte and those after it: the
character and how many of the latter belong to it. -/
abbrev CharacterReader := UInt8 → Bytes → Option (Char × Nat)

def decodeBy (reader : CharacterReader) : Bytes → Option (List Char)
  | [] => some []
  | first :: rest =>
    match reader first rest with
    | none => none
    | some (character, used) =>
      (decodeBy reader (rest.drop used)).map (character :: ·)
termination_by bytes => bytes.length
decreasing_by
  simp only [List.length_drop, List.length_cons]
  omega

def scalar? (code : Nat) : Option Char :=
  if code.isValidChar then some (Char.ofNat code) else none

def byte (value : Nat) : UInt8 := UInt8.ofNat value

/-! ## UTF-8 -/

def encodeUtf8 (character : Char) : Bytes :=
  let code := character.toNat
  if code < 0x80 then [byte code]
  else if code < 0x800 then [byte (0xC0 + code / 0x40), byte (0x80 + code % 0x40)]
  else if code < 0x10000 then
    [byte (0xE0 + code / 0x1000), byte (0x80 + code / 0x40 % 0x40),
      byte (0x80 + code % 0x40)]
  else
    [byte (0xF0 + code / 0x40000), byte (0x80 + code / 0x1000 % 0x40),
      byte (0x80 + code / 0x40 % 0x40), byte (0x80 + code % 0x40)]

def continuation? (next : UInt8) : Option Nat :=
  if 0x80 ≤ next && next < 0xC0 then some (next.toNat - 0x80) else none

/-- Read a number of continuation bytes behind the given leading bits. The code
point must be too large for a shorter form. -/
def readContinuations (leading count least : Nat) (rest : Bytes) : Option (Char × Nat) := do
  let parts ← (rest.take count).mapM continuation?
  let code := parts.foldl (fun code part => code * 0x40 + part) leading
  if parts.length = count && least ≤ code then
    let character ← scalar? code
    return (character, count)
  else none

def readUtf8 : CharacterReader := fun first rest =>
  let leading := first.toNat
  if leading < 0x80 then (scalar? leading).map (·, 0)
  else if leading < 0xC0 then none
  else if leading < 0xE0 then readContinuations (leading - 0xC0) 1 0x80 rest
  else if leading < 0xF0 then readContinuations (leading - 0xE0) 2 0x800 rest
  else if leading < 0xF8 then readContinuations (leading - 0xF0) 3 0x10000 rest
  else none

/-! ## Byte orders -/

inductive ByteOrder where
  | little
  | big
  deriving Repr, DecidableEq

namespace ByteOrder

def number (order : ByteOrder) (bytes : Bytes) : Nat :=
  let ordered := match order with
    | little => bytes.reverse
    | big => bytes
  ordered.foldl (fun value next => value * 0x100 + next.toNat) 0

def arrange (order : ByteOrder) (bytes : Bytes) : Bytes :=
  match order with
  | little => bytes.reverse
  | big => bytes

end ByteOrder

/-! ## UTF-16 -/

def encodeUnit (order : ByteOrder) (unit : Nat) : Bytes :=
  order.arrange [byte (unit / 0x100), byte (unit % 0x100)]

def encodeUtf16 (order : ByteOrder) (character : Char) : Bytes :=
  let code := character.toNat
  if code < 0x10000 then encodeUnit order code
  else
    encodeUnit order (0xD800 + (code - 0x10000) / 0x400) ++
      encodeUnit order (0xDC00 + (code - 0x10000) % 0x400)

def readUtf16 (order : ByteOrder) : CharacterReader := fun first rest =>
  match rest with
  | [] => none
  | second :: after =>
    let unit := order.number [first, second]
    if 0xD800 ≤ unit && unit < 0xDC00 then
      match after with
      | third :: fourth :: _ =>
        let trailing := order.number [third, fourth]
        if 0xDC00 ≤ trailing && trailing < 0xE000 then
          (scalar? (0x10000 + (unit - 0xD800) * 0x400 + (trailing - 0xDC00))).map (·, 3)
        else none
      | _ => none
    else (scalar? unit).map (·, 1)

/-! ## UTF-32 -/

def encodeUtf32 (order : ByteOrder) (character : Char) : Bytes :=
  let code := character.toNat
  order.arrange [byte (code / 0x1000000), byte (code / 0x10000 % 0x100),
    byte (code / 0x100 % 0x100), byte (code % 0x100)]

def readUtf32 (order : ByteOrder) : CharacterReader := fun first rest =>
  match rest with
  | second :: third :: fourth :: _ =>
    (scalar? (order.number [first, second, third, fourth])).map (·, 3)
  | _ => none

end XmlGrove.Encoding
