import XmlGrove.Encoding.Charset

/-!
# Decoding what was encoded

A text is decoded as the characters that it was encoded from if each one is read from the bytes
that it was encoded to, whatever follows them. UTF-8 is read this way.
-/

namespace XmlGrove.Encoding

/-! ## Texts -/

/-- A character is read from the bytes that it is encoded to, whatever follows them. -/
def Reads (reader : CharacterReader) (encode : Char → Bytes) : Prop :=
  ∀ (character : Char) (rest : Bytes), ∃ first others, encode character = first :: others ∧
    reader first (others ++ rest) = some (character, others.length)

theorem decodeBy_cons_append {reader : CharacterReader} {first : UInt8} {others rest : Bytes}
    {character : Char}
    (read : reader first (others ++ rest) = some (character, others.length)) :
    decodeBy reader (first :: others ++ rest) = (decodeBy reader rest).map (character :: ·) := by
  rw [List.cons_append, decodeBy, read]
  simp

theorem Reads.decodeBy_flatMap {reader : CharacterReader} {encode : Char → Bytes}
    (reads : Reads reader encode) (text : List Char) :
    decodeBy reader (text.flatMap encode) = some text := by
  induction text with
  | nil =>
      rw [List.flatMap_nil, decodeBy]
  | cons character text induction =>
      rcases reads character (text.flatMap encode) with ⟨first, others, encoded, read⟩
      rw [List.flatMap_cons, encoded, decodeBy_cons_append read, induction]
      rfl

/-! ## Bytes -/

theorem toNat_byte {value : Nat} (small : value < 0x100) : (byte value).toNat = value := by
  rw [byte, UInt8.toNat_ofNat']
  exact Nat.mod_eq_of_lt small

theorem scalar?_toNat (character : Char) : scalar? character.toNat = some character := by
  have valid : character.toNat.isValidChar := character.valid
  rw [scalar?, if_pos valid, Char.ofNat_toNat]

/-- The byte that carries six bits of a code point. -/
def continuationByte (part : Nat) : UInt8 := byte (0x80 + part)

theorem continuation?_continuationByte {part : Nat} (small : part < 0x40) :
    continuation? (continuationByte part) = some part := by
  have value : (continuationByte part).toNat = 0x80 + part := toNat_byte (by omega)
  have least : (0x80 : UInt8) ≤ continuationByte part := by
    rw [UInt8.le_iff_toNat_le, value]
    exact Nat.le_add_right _ _
  have limit : continuationByte part < 0xC0 := by
    rw [UInt8.lt_iff_toNat_lt, value]
    exact Nat.add_lt_add_left small 0x80
  rw [continuation?, value, decide_eq_true least, decide_eq_true limit]
  simp

theorem mapM_continuation? {parts : List Nat} (small : ∀ part ∈ parts, part < 0x40) :
    (parts.map continuationByte).mapM continuation? = some parts := by
  induction parts with
  | nil => rfl
  | cons first rest induction =>
      rw [List.map_cons, List.mapM_cons,
        continuation?_continuationByte (small first List.mem_cons_self),
        induction fun part member => small part (List.mem_cons_of_mem first member)]
      rfl

/-! ## UTF-8 -/

theorem readContinuations_append {character : Char} {leading count least : Nat}
    {parts : List Nat} (rest : Bytes) (counted : parts.length = count)
    (small : ∀ part ∈ parts, part < 0x40) (large : least ≤ character.toNat)
    (code : parts.foldl (fun code part => code * 0x40 + part) leading = character.toNat) :
    readContinuations leading count least (parts.map continuationByte ++ rest) =
      some (character, (parts.map continuationByte).length) := by
  have taken : (parts.map continuationByte ++ rest).take count =
      parts.map continuationByte := by
    rw [List.take_append_of_le_length (by simp [counted]),
      List.take_of_length_le (by simp [counted])]
  rw [readContinuations, taken, mapM_continuation? small]
  simp [code, counted, large, scalar?_toNat]

theorem toNat_lt_limit (character : Char) : character.toNat < 0x110000 := by
  rcases character.valid with low | high
  · exact Nat.lt_trans low (by decide)
  · exact high.2

/-- A character is encoded as a leading byte and others that carry six bits each. -/
theorem readUtf8_encodeUtf8 : Reads readUtf8 encodeUtf8 := by
  intro character rest
  have limit := toNat_lt_limit character
  generalize equal : character.toNat = code at limit
  rw [encodeUtf8, equal]
  split
  · rename_i short
    have leading : (byte code).toNat = code := toNat_byte (by omega)
    refine ⟨byte code, [].map continuationByte, rfl, ?_⟩
    simp only [readUtf8, leading]
    rw [if_pos short, ← equal, scalar?_toNat]
    rfl
  · split
    · have leading : (byte (0xC0 + code / 0x40)).toNat = 0xC0 + code / 0x40 :=
        toNat_byte (by omega)
      refine ⟨byte (0xC0 + code / 0x40), [code % 0x40].map continuationByte, rfl, ?_⟩
      simp only [readUtf8, leading]
      rw [if_neg (by omega), if_neg (by omega), if_pos (by omega)]
      refine readContinuations_append rest (by rfl) ?_ ?_ ?_
      · simp
        omega
      · omega
      · simp
        omega
    · split
      · have leading : (byte (0xE0 + code / 0x1000)).toNat = 0xE0 + code / 0x1000 :=
          toNat_byte (by omega)
        refine ⟨byte (0xE0 + code / 0x1000),
          [code / 0x40 % 0x40, code % 0x40].map continuationByte, rfl, ?_⟩
        simp only [readUtf8, leading]
        rw [if_neg (by omega), if_neg (by omega), if_neg (by omega), if_pos (by omega)]
        refine readContinuations_append rest (by rfl) ?_ ?_ ?_
        · simp
          omega
        · omega
        · simp
          omega
      · have leading : (byte (0xF0 + code / 0x40000)).toNat = 0xF0 + code / 0x40000 :=
          toNat_byte (by omega)
        refine ⟨byte (0xF0 + code / 0x40000),
          [code / 0x1000 % 0x40, code / 0x40 % 0x40, code % 0x40].map continuationByte, rfl, ?_⟩
        simp only [readUtf8, leading]
        rw [if_neg (by omega), if_neg (by omega), if_neg (by omega), if_neg (by omega),
          if_pos (by omega)]
        refine readContinuations_append rest (by rfl) ?_ ?_ ?_
        · simp
          omega
        · omega
        · simp
          omega

theorem decode?_encodeUtf8 (text : List Char) :
    Charset.utf8.decode? (text.flatMap encodeUtf8) = some text := by
  rw [Charset.decode?]
  exact readUtf8_encodeUtf8.decodeBy_flatMap text

end XmlGrove.Encoding
