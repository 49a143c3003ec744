import Mathlib.Data.List.TakeWhile
import XmlGrove.Parse.Input
import XmlGrove.Proofs.RoundTrip.Utf8

/-!
# Data with a byte order mark

Text that is encoded in one of the Unicode formats, behind the mark of that format, is recognized
by the mark and decoded as what it was encoded from. The mark is dropped, but it is dropped once.
-/

namespace XmlGrove.Encoding

/-! ## Numbers of several bytes -/

theorem number_arrange_pair (order : ByteOrder) {value : Nat} (small : value < 0x10000) :
    order.number (order.arrange [byte (value / 0x100), byte (value % 0x100)]) = value := by
  have high : (byte (value / 0x100)).toNat = value / 0x100 := toNat_byte (by omega)
  have low : (byte (value % 0x100)).toNat = value % 0x100 := toNat_byte (by omega)
  cases order with
  | little =>
      simp [ByteOrder.number, ByteOrder.arrange, high, low]
      omega
  | big =>
      simp [ByteOrder.number, ByteOrder.arrange, high, low]
      omega

theorem exists_encodeUnit (order : ByteOrder) {unit : Nat} (small : unit < 0x10000) :
    ∃ first second, encodeUnit order unit = [first, second] ∧
      order.number [first, second] = unit := by
  have read := number_arrange_pair order small
  cases order with
  | little => exact ⟨_, _, rfl, read⟩
  | big => exact ⟨_, _, rfl, read⟩

theorem exists_encodeUtf32 (order : ByteOrder) (character : Char) :
    ∃ first second third fourth, encodeUtf32 order character = [first, second, third, fourth] ∧
      order.number [first, second, third, fourth] = character.toNat := by
  have limit := toNat_lt_limit character
  have highest : (byte (character.toNat / 0x1000000)).toNat = character.toNat / 0x1000000 :=
    toNat_byte (by omega)
  have high : (byte (character.toNat / 0x10000 % 0x100)).toNat =
      character.toNat / 0x10000 % 0x100 := toNat_byte (by omega)
  have low : (byte (character.toNat / 0x100 % 0x100)).toNat =
      character.toNat / 0x100 % 0x100 := toNat_byte (by omega)
  have lowest : (byte (character.toNat % 0x100)).toNat = character.toNat % 0x100 :=
    toNat_byte (by omega)
  cases order with
  | little =>
      refine ⟨_, _, _, _, rfl, ?_⟩
      simp [ByteOrder.number, highest, high, low, lowest]
      omega
  | big =>
      refine ⟨_, _, _, _, rfl, ?_⟩
      simp [ByteOrder.number, highest, high, low, lowest]
      omega

/-! ## Characters -/

/-- A character is one unit that is no surrogate, or a leading and a trailing one. -/
theorem readUtf16_encodeUtf16 (order : ByteOrder) :
    Reads (readUtf16 order) (encodeUtf16 order) := by
  intro character rest
  have limit := toNat_lt_limit character
  have scalar := scalar?_toNat character
  rw [encodeUtf16]
  split
  · rename_i short
    rcases exists_encodeUnit order short with ⟨first, second, encoded, read⟩
    refine ⟨first, [second], encoded, ?_⟩
    have plain : ¬ (0xD800 ≤ character.toNat ∧ character.toNat < 0xDC00) := by
      rcases character.valid with low | high
      · change character.toNat < 0xD800 at low
        omega
      · change 0xDFFF < character.toNat ∧ character.toNat < 0x110000 at high
        omega
    simp [readUtf16, read, plain, scalar]
  · rename_i long
    have leadingSmall : 0xD800 + (character.toNat - 0x10000) / 0x400 < 0x10000 := by omega
    have trailingSmall : 0xDC00 + (character.toNat - 0x10000) % 0x400 < 0x10000 := by omega
    rcases exists_encodeUnit order leadingSmall with ⟨first, second, leading, readLeading⟩
    rcases exists_encodeUnit order trailingSmall with ⟨third, fourth, trailing, readTrailing⟩
    refine ⟨first, [second, third, fourth], by rw [leading, trailing]; rfl, ?_⟩
    have surrogates : 0xD800 + (character.toNat - 0x10000) / 0x400 < 0xDC00 ∧
        0xDC00 + (character.toNat - 0x10000) % 0x400 < 0xE000 := by omega
    have joined : 0x10000 + (character.toNat - 0x10000) / 0x400 * 0x400 +
        (character.toNat - 0x10000) % 0x400 = character.toNat := by omega
    simp [readUtf16, readLeading, readTrailing, surrogates, joined, scalar]

theorem readUtf32_encodeUtf32 (order : ByteOrder) :
    Reads (readUtf32 order) (encodeUtf32 order) := by
  intro character rest
  rcases exists_encodeUtf32 order character with ⟨first, second, third, fourth, encoded, read⟩
  refine ⟨first, [second, third, fourth], encoded, ?_⟩
  simp [readUtf32, read, scalar?_toNat]

/-! ## Formats -/

/-- A Unicode format whose units have a known byte order. -/
inductive Format where
  | utf8
  | utf16 (order : ByteOrder)
  | utf32 (order : ByteOrder)
  deriving Repr, DecidableEq

namespace Format

def charset : Format → Charset
  | utf8 => .utf8
  | utf16 order => .utf16 (some order)
  | utf32 order => .utf32 (some order)

def name : Format → String
  | utf8 => "utf-8"
  | utf16 .little => "utf-16-le"
  | utf16 .big => "utf-16-be"
  | utf32 .little => "utf-32-le"
  | utf32 .big => "utf-32-be"

def encode : Format → Char → Bytes
  | utf8 => encodeUtf8
  | utf16 order => encodeUtf16 order
  | utf32 order => encodeUtf32 order

def reader : Format → CharacterReader
  | utf8 => readUtf8
  | utf16 order => readUtf16 order
  | utf32 order => readUtf32 order

/-- The byte order mark of a format is a certain character in that format. -/
def mark (format : Format) : Bytes := format.encode markCharacter

/-- A text in a format, behind the mark of the format. -/
def marked (format : Format) (text : List Char) : Bytes :=
  format.mark ++ text.flatMap format.encode

theorem mark_eq (format : Format) :
    format.mark =
      match format with
      | utf8 => [0xEF, 0xBB, 0xBF]
      | utf16 .little => [0xFF, 0xFE]
      | utf16 .big => [0xFE, 0xFF]
      | utf32 .little => [0xFF, 0xFE, 0, 0]
      | utf32 .big => [0, 0, 0xFE, 0xFF] := by
  rcases format with _ | order | order
  · decide
  · cases order <;> decide
  · cases order <;> decide

theorem decode?_charset (format : Format) (data : Bytes) :
    format.charset.decode? data = decodeBy format.reader data := by
  cases format <;> rfl

theorem ofName?_name (format : Format) : Charset.ofName? format.name = some format.charset := by
  rcases format with _ | order | order
  · decide +kernel
  · cases order <;> decide +kernel
  · cases order <;> decide +kernel

theorem reads (format : Format) : Reads format.reader format.encode := by
  cases format with
  | utf8 => exact readUtf8_encodeUtf8
  | utf16 order => exact readUtf16_encodeUtf16 order
  | utf32 order => exact readUtf32_encodeUtf32 order

theorem decode?_marked (format : Format) (text : List Char) :
    format.charset.decode? (format.marked text) = some (markCharacter :: text) := by
  rw [decode?_charset, marked, mark, ← List.flatMap_cons]
  exact format.reads.decodeBy_flatMap (markCharacter :: text)

/-! ## Recognition -/

/-- A null character behind the mark of UTF-16 makes it the mark of UTF-32. -/
def IsAmbiguous (format : Format) (text : List Char) : Prop :=
  format = utf16 .little ∧ text.head? = some (Char.ofNat 0)

instance (format : Format) (text : List Char) : Decidable (format.IsAmbiguous text) :=
  inferInstanceAs (Decidable (_ ∧ _))

theorem exists_leadingUnit (character : Char) :
    ∃ first second others unit, encodeUtf16 .little character = first :: second :: others ∧
      ByteOrder.little.number [first, second] = unit ∧
      (unit = 0 ↔ character = Char.ofNat 0) := by
  have null : character = Char.ofNat 0 ↔ character.toNat = 0 := by
    rw [← Char.toNat_inj]
    rfl
  have limit := toNat_lt_limit character
  rw [encodeUtf16, null]
  split
  · rename_i short
    rcases exists_encodeUnit .little short with ⟨first, second, encoded, read⟩
    exact ⟨first, second, [], _, encoded, read, Iff.rfl⟩
  · rename_i long
    have small : 0xD800 + (character.toNat - 0x10000) / 0x400 < 0x10000 := by omega
    rcases exists_encodeUnit .little small with ⟨first, second, encoded, read⟩
    exact ⟨first, second, _, _, by rw [encoded]; rfl, read, by omega⟩

theorem startsWith_nulls_iff (text : List Char) :
    List.isPrefixOf [0, 0] (text.flatMap (encodeUtf16 .little)) = true ↔
      text.head? = some (Char.ofNat 0) := by
  cases text with
  | nil => simp
  | cons character text =>
      rcases exists_leadingUnit character with
        ⟨first, second, others, unit, encoded, read, null⟩
      have value : second.toNat * 0x100 + first.toNat = unit := by
        rw [← read]
        simp [ByteOrder.number]
      rw [List.flatMap_cons, encoded, List.head?_cons, Option.some.injEq, ← null]
      simp [List.isPrefixOf, ← UInt8.toNat_inj]
      omega

theorem markedEncoding?_marked (format : Format) (text : List Char) :
    markedEncoding? (format.marked text) =
      some (if format.IsAmbiguous text then "utf-32-le" else format.name) := by
  rw [markedEncoding?, marks, marked, mark_eq]
  rcases format with _ | order | order
  · simp [IsAmbiguous, name]
  · cases order with
    | little =>
        have nulls := startsWith_nulls_iff text
        rw [List.isPrefixOf_iff_prefix] at nulls
        by_cases null : text.head? = some (Char.ofNat 0)
        · simp [IsAmbiguous, encode, null, nulls.2 null]
        · simp [IsAmbiguous, encode, name, null, nulls]
    | big => simp [IsAmbiguous, name]
  · cases order with
    | little => simp [IsAmbiguous, name]
    | big => simp [IsAmbiguous, name]

theorem detect_marked (format : Format) (text : List Char) :
    detect (format.marked text) =
      some (if format.IsAmbiguous text then "utf-32-le" else format.name) := by
  rw [detect, markedEncoding?_marked]

end Format

/-! ## Input -/

/-- Data that is expected to be in no particular encoding is decoded by its mark. -/
theorem decodeDocument_marked {format : Format} {text : List Char}
    (unambiguous : ¬ format.IsAmbiguous text) :
    decodeDocument none (format.marked text) = .ok text := by
  have detected : detect (format.marked text) = some format.name := by
    rw [Format.detect_marked, if_neg unambiguous]
  have plain : Char.ofNat 0 ∉ format.name.toList := by
    rcases format with _ | order | order
    · decide
    · cases order <;> decide
    · cases order <;> decide
  have nonempty : (format.marked text).isEmpty = false := by
    rw [Format.marked, Format.mark_eq]
    rcases format with _ | order | order
    · rfl
    · cases order <;> rfl
    · cases order <;> rfl
  simp [decodeDocument, detected, plain, nonempty, Format.ofName?_name, Format.decode?_marked,
    dropMark]

theorem ofChunks_of_nonempty {chunks : List Bytes} (nonempty : ∀ chunk ∈ chunks, chunk ≠ []) :
    Input.ofChunks chunks = .bytes chunks.flatten := by
  have whole : chunks.takeWhile (!·.isEmpty) = chunks := by
    rw [List.takeWhile_eq_self_iff]
    intro chunk member
    simpa using nonempty chunk member
  rw [Input.ofChunks, whole]

/-- A text in a Unicode format behind a byte order mark is recognized as being in that format, and
it is decoded without loss if no encoding is expected. It does not matter in which chunks a stream
hands out the data. -/
theorem decode_marked (options : ParserOptions) (format : Format) (text : List Char)
    (unexpecting : options.encoding = none ∧ options.unfitEncoding = false)
    (unambiguous : ¬ format.IsAmbiguous text) :
    detect (format.marked text) = some format.name ∧
    (Input.bytes (format.marked text)).decode options = .ok text ∧
    ∀ chunks : List Bytes, (∀ chunk ∈ chunks, chunk ≠ []) →
      chunks.flatten = format.marked text → (Input.ofChunks chunks).decode options = .ok text := by
  have decoded : (Input.bytes (format.marked text)).decode options = .ok text := by
    rw [Input.decode, if_neg (by simp [unexpecting.2]), unexpecting.1]
    exact decodeDocument_marked unambiguous
  refine ⟨?_, decoded, ?_⟩
  · rw [Format.detect_marked, if_neg unambiguous]
  · intro chunks nonempty joined
    rw [ofChunks_of_nonempty nonempty, joined]
    exact decoded

/-- The text starts with a further mark and declares another encoding, and a stream hands it out
byte by byte, surrogates included. -/
theorem decode_marked_surrogates :
    let text := '\uFEFF' :: "<?xml encoding=\x22ascii\x22?>𝄞".toList
    ¬ (Format.utf16 .little).IsAmbiguous text ∧
    detect ((Format.utf16 .little).marked text) = some "utf-16-le" ∧
    (Input.ofChunks (((Format.utf16 .little).marked text).map fun byte => [byte])).decode {} =
      .ok text := by
  intro text
  have unambiguous : ¬ (Format.utf16 .little).IsAmbiguous text := by decide
  rcases decode_marked {} (.utf16 .little) text ⟨rfl, rfl⟩ unambiguous with
    ⟨detected, _, chunked⟩
  refine ⟨unambiguous, detected, chunked _ ?_ ?_⟩
  · intro chunk member
    rcases List.mem_map.1 member with ⟨byte, _, rfl⟩
    exact List.cons_ne_nil byte []
  · rw [← List.flatMap_def, List.flatMap_singleton']

end XmlGrove.Encoding
