import Mathlib.Data.List.Find
import XmlGrove.Proofs.Grammar.Scanning
import XmlGrove.Writing

/-!
# What writing makes of characters

Writing replaces line endings and encodes characters that would be taken for markup. These are
the laws of both: which texts they leave alone, how they distribute over a concatenation, and
that no delimiter comes into being.
-/

namespace XmlGrove

/-! ## Line endings -/

namespace Text

theorem normalizeLineEndings_cons {character : Char} {rest : List Char}
    (single : character = '\r' → rest.head? ≠ some '\n') :
    normalizeLineEndings (character :: rest) =
      (if character = '\r' then '\n' else character) :: normalizeLineEndings rest := by
  rw [normalizeLineEndings]
  rintro other rfl rfl
  exact single rfl rfl

/-- Text without carriage returns is left alone, whatever follows it. -/
theorem normalizeLineEndings_append_of_not_mem {first : List Char} (second : List Char)
    (absent : '\r' ∉ first) :
    normalizeLineEndings (first ++ second) = first ++ normalizeLineEndings second := by
  induction first with
  | nil => rfl
  | cons character first induction =>
      rw [List.mem_cons, not_or] at absent
      have different : character ≠ '\r' := Ne.symm absent.1
      rw [List.cons_append, normalizeLineEndings_cons (fun equal => absurd equal different),
        if_neg different, induction absent.2]
      rfl

theorem normalizeLineEndings_of_not_mem {text : List Char} (absent : '\r' ∉ text) :
    normalizeLineEndings text = text := by
  have appended := normalizeLineEndings_append_of_not_mem [] absent
  rw [List.append_nil] at appended
  rw [appended]
  exact List.append_nil text

/-- No line ending reaches over a place behind which there is no line feed. -/
theorem normalizeLineEndings_append (first : List Char) {second : List Char}
    (different : second.head? ≠ some '\n') :
    normalizeLineEndings (first ++ second) =
      normalizeLineEndings first ++ normalizeLineEndings second := by
  fun_induction normalizeLineEndings first with
  | case1 => rfl
  | case2 rest induction =>
      rw [List.cons_append, List.cons_append, normalizeLineEndings, induction]
      rfl
  | case3 character rest notPair induction =>
      rw [List.cons_append, normalizeLineEndings_cons, induction]
      · rfl
      · intro isReturn
        cases rest with
        | nil => exact different
        | cons next rest =>
            intro equal
            rw [List.cons_append, List.head?_cons, Option.some.injEq] at equal
            exact notPair rest isReturn (by rw [equal])

theorem not_mem_normalizeLineEndings (text : List Char) : '\r' ∉ normalizeLineEndings text := by
  fun_induction normalizeLineEndings text with
  | case1 => simp
  | case2 rest induction => simpa using induction
  | case3 character rest notPair induction =>
      by_cases isReturn : character = '\r'
      · simpa [isReturn] using induction
      · simpa [isReturn, Ne.symm isReturn] using induction

theorem length_normalizeLineEndings_le (text : List Char) :
    (normalizeLineEndings text).length ≤ text.length := by
  fun_induction normalizeLineEndings text with
  | case1 => simp
  | case2 rest induction =>
      simp only [List.length_cons]
      omega
  | case3 character rest notPair induction =>
      simp only [List.length_cons]
      omega

theorem normalizeLineEndings_eq_nil_iff {text : List Char} :
    normalizeLineEndings text = [] ↔ text = [] := by
  fun_cases normalizeLineEndings text with
  | case1 => simp
  | case2 rest => simp
  | case3 character rest notPair => simp

theorem all_isBlank_normalizeLineEndings (text : List Char) :
    (normalizeLineEndings text).all isBlank = text.all isBlank := by
  have returnBlank : isBlank '\r' = true := by decide
  have feedBlank : isBlank '\n' = true := by decide
  fun_induction normalizeLineEndings text with
  | case1 => rfl
  | case2 rest induction => simp [returnBlank, feedBlank, induction]
  | case3 character rest notPair induction =>
      by_cases isReturn : character = '\r'
      · simp [isReturn, returnBlank, feedBlank, induction]
      · simp [isReturn, induction]

theorem normalizeLineEndings_eq_self_iff {text : List Char} :
    normalizeLineEndings text = text ↔ '\r' ∉ text := by
  constructor
  · intro equal
    rw [← equal]
    exact not_mem_normalizeLineEndings text
  · exact normalizeLineEndings_of_not_mem

/-- A text without line feeds that a replaced text starts with was there before. -/
theorem prefix_of_prefix_normalizeLineEndings {fragment text : List Char}
    (absent : '\n' ∉ fragment) (starts : fragment <+: normalizeLineEndings text) :
    fragment <+: text := by
  fun_induction normalizeLineEndings text generalizing fragment with
  | case1 => exact starts
  | case2 rest induction =>
      cases fragment with
      | nil => exact List.nil_prefix
      | cons first fragment =>
          rw [List.cons_prefix_cons] at starts
          rw [starts.1] at absent
          exact absurd List.mem_cons_self absent
  | case3 character rest notPair induction =>
      cases fragment with
      | nil => exact List.nil_prefix
      | cons first fragment =>
          rw [List.cons_prefix_cons] at starts
          rw [List.mem_cons, not_or] at absent
          rcases starts with ⟨equal, starts⟩
          split at equal
          · exact absurd equal.symm absent.1
          · rw [equal, List.cons_prefix_cons]
            exact ⟨rfl, induction absent.2 starts⟩

/-- A text without line feeds that occurs in a replaced text did so before. -/
theorem infix_of_infix_normalizeLineEndings {fragment text : List Char}
    (absent : '\n' ∉ fragment) (inside : fragment <:+: normalizeLineEndings text) :
    fragment <:+: text := by
  have starting := @prefix_of_prefix_normalizeLineEndings fragment text absent
  fun_induction normalizeLineEndings text with
  | case1 => exact inside
  | case2 rest induction =>
      rcases List.infix_cons_iff.1 inside with starts | inner
      · exact (starting starts).isInfix
      · have within := induction inner (prefix_of_prefix_normalizeLineEndings absent)
        exact (within.trans (List.suffix_cons _ _).isInfix).trans (List.suffix_cons _ _).isInfix
  | case3 character rest notPair induction =>
      rcases List.infix_cons_iff.1 inside with starts | inner
      · exact (starting starts).isInfix
      · have within := induction inner (prefix_of_prefix_normalizeLineEndings absent)
        exact within.trans (List.suffix_cons _ _).isInfix

end Text

/-! ## Delimiters -/

theorem Text.cut?_isSome_iff {fragment text : List Char} :
    (Text.cut? fragment text).isSome = true ↔ fragment <:+: text := by
  induction text with
  | nil =>
      rw [Text.cut?, List.infix_nil]
      cases fragment with
      | nil => simp
      | cons first fragment => simp
  | cons character rest induction =>
      rw [Text.cut?, List.infix_cons_iff, ← List.isPrefixOf_iff_prefix]
      split
      · rename_i starts
        simp [starts]
      · rename_i elsewhere
        simp only [Option.isSome_map, elsewhere, Bool.false_eq_true, false_or]
        exact induction

theorem Text.occurs_iff_infix {fragment text : List Char} :
    Text.occurs fragment text = true ↔ fragment <:+: text :=
  Text.cut?_isSome_iff

/-- A delimiter ends a body that it does not occur in, if its last character is unique: it
could only begin in the body if that character occurred earlier. -/
theorem Grammar.endsFirst_of_not_infix (front : List Char) {body : List Char} {last : Char}
    (unique : last ∉ front) (elsewhere : ¬ (front ++ [last]) <:+: body) :
    EndsFirst (front ++ [last]) body := by
  intro before after equal
  rcases List.eq_nil_or_concat after with rfl | ⟨inner, final, rfl⟩
  · rfl
  · exfalso
    rw [List.concat_eq_append, ← List.append_assoc, ← List.append_assoc] at equal
    have fronts := (List.append_inj' equal rfl).1
    rcases List.append_eq_append_iff.1 fronts with ⟨rest, whole, split⟩ | ⟨rest, whole, split⟩
    · rcases List.eq_nil_or_concat rest with rfl | ⟨others, other, rfl⟩
      · rw [List.append_nil] at whole
        exact elsewhere ⟨before, [], by rw [List.append_nil, whole]⟩
      · rw [List.concat_eq_append, ← List.append_assoc, ← List.append_assoc] at whole
        have lasts := (List.append_inj' whole rfl).2
        rw [List.cons.injEq] at lasts
        apply unique
        rw [split, lasts.1]
        simp
    · exact elsewhere ⟨before, rest, by rw [whole]⟩

/-! ## References -/

namespace Entity

theorem decode_ampersand_of_some {name rest : List Char} {meaning : Char}
    (found : reference? (name ++ rest) = some (name, meaning)) :
    decode ('&' :: (name ++ rest)) = meaning :: decode rest := by
  have skipping (skipped : List Char) :
      decodeSkipping skipped.length (skipped ++ rest) = decodeSkipping 0 rest := by
    induction skipped with
    | nil => rfl
    | cons first skipped induction =>
        rw [List.length_cons, List.cons_append, decodeSkipping, induction]
  rw [decode, decodeSkipping, if_pos rfl, found]
  dsimp only
  rw [skipping]
  rfl

theorem decode_ampersand_of_none {rest : List Char} (missing : reference? rest = none) :
    decode ('&' :: rest) = '&' :: decode rest := by
  rw [decode, decodeSkipping, if_pos rfl, missing]
  rfl

theorem decode_cons {character : Char} (rest : List Char) (different : character ≠ '&') :
    decode (character :: rest) = character :: decode rest := by
  rw [decode, decodeSkipping, if_neg different]
  rfl

theorem of_reference?_eq_some {text name : List Char} {meaning : Char}
    (found : reference? text = some (name, meaning)) :
    (name, meaning) ∈ predefined ∧ name <+: text := by
  refine ⟨List.mem_of_find?_eq_some found, ?_⟩
  have starts := List.find?_some found
  exact List.isPrefixOf_iff_prefix.1 starts

/-- The encoded form of a text is read as that text, whatever follows it. -/
theorem decode_encodeText_append (text rest : List Char) :
    decode (encodeText text ++ rest) = text ++ decode rest := by
  induction text with
  | nil => rfl
  | cons character text induction =>
      rw [encodeText, List.flatMap_cons, List.append_assoc, encodeInText, List.cons_append,
        ← induction]
      split
      · rename_i equal
        rw [equal]
        exact decode_ampersand_of_some rfl
      · split
        · rename_i equal
          rw [equal]
          exact decode_ampersand_of_some rfl
        · split
          · rename_i equal
            rw [equal]
            exact decode_ampersand_of_some rfl
          · rename_i different _ _
            exact decode_cons _ different

theorem decode_encodeText (text : List Char) : decode (encodeText text) = text := by
  have decoded := decode_encodeText_append text []
  rw [List.append_nil] at decoded
  rw [decoded]
  exact List.append_nil text

theorem encodeText_append (first second : List Char) :
    encodeText (first ++ second) = encodeText first ++ encodeText second :=
  List.flatMap_append

theorem encodeAttribute_cons (character : Char) (rest : List Char) :
    encodeAttribute (character :: rest) = encodeInAttribute character ++ encodeAttribute rest :=
  List.flatMap_cons

/-- The names of references hold neither what begins one nor what is encoded in attributes. -/
theorem not_mem_of_mem_predefined {name : List Char} {meaning : Char}
    (known : (name, meaning) ∈ predefined) : '&' ∉ name ∧ '\x22' ∉ name := by
  simp only [predefined, List.mem_cons, List.not_mem_nil, or_false, Prod.mk.injEq] at known
  rcases known with ⟨rfl, -⟩ | ⟨rfl, -⟩ | ⟨rfl, -⟩ | ⟨rfl, -⟩ | ⟨rfl, -⟩ <;> decide

/-- Encoding neither makes nor hides what could be the name of a reference. -/
theorem prefix_encodeAttribute_iff {name text : List Char} (noAmpersand : '&' ∉ name)
    (noQuote : '\x22' ∉ name) : name <+: encodeAttribute text ↔ name <+: text := by
  induction name generalizing text with
  | nil => simp
  | cons first name induction =>
      rw [List.mem_cons, not_or] at noAmpersand noQuote
      cases text with
      | nil => rfl
      | cons character text =>
          rw [encodeAttribute_cons, encodeInAttribute]
          split
          · rename_i quote
            rw [quote, List.cons_prefix_cons]
            constructor
            · intro starts
              have equal := (List.cons_prefix_cons.1 starts).1
              exact absurd equal.symm noAmpersand.1
            · rintro ⟨equal, -⟩
              exact absurd equal.symm noQuote.1
          · rw [List.singleton_append, List.cons_prefix_cons, List.cons_prefix_cons,
              induction noAmpersand.2 noQuote.2]

theorem reference?_encodeAttribute (text : List Char) :
    reference? (encodeAttribute text) = reference? text := by
  apply List.find?_congr
  rintro ⟨name, meaning⟩ known
  have absent := not_mem_of_mem_predefined known
  rw [Bool.eq_iff_iff, List.isPrefixOf_iff_prefix, List.isPrefixOf_iff_prefix]
  exact prefix_encodeAttribute_iff absent.1 absent.2

theorem encodeAttribute_append_of_not_mem {name : List Char} (rest : List Char)
    (noQuote : '\x22' ∉ name) : encodeAttribute (name ++ rest) = name ++ encodeAttribute rest := by
  induction name with
  | nil => rfl
  | cons first name induction =>
      rw [List.mem_cons, not_or] at noQuote
      rw [List.cons_append, encodeAttribute_cons, encodeInAttribute, if_neg (Ne.symm noQuote.1),
        induction noQuote.2]
      rfl

/-- Quotes in a value are written as references; those that it holds already are read. -/
theorem decode_encodeAttribute (value : List Char) :
    decode (encodeAttribute value) = decode value := by
  induction length : value.length using Nat.strongRecOn generalizing value with
  | ind bound induction =>
      cases value with
      | nil => rfl
      | cons character rest =>
          have shorter : rest.length < bound := by
            rw [← length]
            exact Nat.lt_succ_self _
          have restDecoded := induction rest.length shorter rest rfl
          rw [encodeAttribute_cons, encodeInAttribute]
          split
          · rename_i quote
            rw [quote, decode_cons _ (by decide), ← restDecoded]
            exact decode_ampersand_of_some rfl
          · rw [List.singleton_append]
            by_cases ampersand : character = '&'
            · -- What follows the ampersand is a reference before as well as after the encoding.
              rw [ampersand]
              cases found : reference? rest with
              | none =>
                  have missing := reference?_encodeAttribute rest
                  rw [found] at missing
                  rw [decode_ampersand_of_none found, decode_ampersand_of_none missing,
                    restDecoded]
              | some reference =>
                  rcases reference with ⟨name, meaning⟩
                  rcases of_reference?_eq_some found with ⟨known, after, rfl⟩
                  have present := reference?_encodeAttribute (name ++ after)
                  rw [found, encodeAttribute_append_of_not_mem _
                    (not_mem_of_mem_predefined known).2] at present
                  rw [decode_ampersand_of_some found, encodeAttribute_append_of_not_mem _
                    (not_mem_of_mem_predefined known).2, decode_ampersand_of_some present]
                  have afterShorter : after.length < bound := by
                    rw [List.length_append] at shorter
                    omega
                  rw [induction after.length afterShorter after rfl]
            · rw [decode_cons _ ampersand, decode_cons _ ampersand, restDecoded]

end Entity

/-! ## References and line endings -/

namespace Text

/-- Line endings may be replaced before or after the characters of a text are encoded, if that
neither makes nor hides any of them. -/
theorem normalizeLineEndings_flatMap {encode : Char → List Char}
    (returns : encode '\r' = ['\r']) (feeds : encode '\n' = ['\n'])
    (others : ∀ character, character ≠ '\r' → character ≠ '\n' →
      '\r' ∉ encode character ∧ ∃ first rest, encode character = first :: rest ∧ first ≠ '\n')
    (text : List Char) :
    normalizeLineEndings (text.flatMap encode) = (normalizeLineEndings text).flatMap encode := by
  have head_ne (next : Char) (rest : List Char) (different : next ≠ '\n') :
      ((next :: rest).flatMap encode).head? ≠ some '\n' := by
    rw [List.flatMap_cons]
    by_cases isReturn : next = '\r'
    · rw [isReturn, returns]
      simp
    · rcases others next isReturn different with ⟨-, first, following, equal, unequal⟩
      rw [equal]
      simpa using unequal
  fun_induction normalizeLineEndings text with
  | case1 => rfl
  | case2 rest induction =>
      rw [List.flatMap_cons, List.flatMap_cons, List.flatMap_cons, returns, feeds, ← induction,
        List.singleton_append, List.singleton_append, normalizeLineEndings,
        List.singleton_append]
  | case3 character rest notPair induction =>
      rw [List.flatMap_cons, List.flatMap_cons, ← induction]
      by_cases isReturn : character = '\r'
      · rw [if_pos isReturn, isReturn, returns, feeds, List.singleton_append,
          normalizeLineEndings_cons, if_pos rfl]
        · rfl
        · -- A line feed behind the carriage return would have made a pair with it.
          intro _
          cases rest with
          | nil => exact fun equal => by cases equal
          | cons next rest =>
              apply head_ne
              rintro rfl
              exact notPair rest isReturn rfl
      · rw [if_neg isReturn]
        by_cases isFeed : character = '\n'
        · rw [isFeed, feeds]
          exact normalizeLineEndings_append_of_not_mem _ (by decide)
        · exact normalizeLineEndings_append_of_not_mem _ (others character isReturn isFeed).1

theorem normalizeLineEndings_encodeText (text : List Char) :
    normalizeLineEndings (Entity.encodeText text) =
      Entity.encodeText (normalizeLineEndings text) := by
  apply normalizeLineEndings_flatMap rfl rfl
  intro character isReturn isFeed
  rw [Entity.encodeInText]
  split
  · exact ⟨by decide, _, _, rfl, by decide⟩
  · split
    · exact ⟨by decide, _, _, rfl, by decide⟩
    · split
      · exact ⟨by decide, _, _, rfl, by decide⟩
      · exact ⟨by simpa using Ne.symm isReturn, _, _, rfl, isFeed⟩

theorem normalizeLineEndings_encodeAttribute (value : List Char) :
    normalizeLineEndings (Entity.encodeAttribute value) =
      Entity.encodeAttribute (normalizeLineEndings value) := by
  apply normalizeLineEndings_flatMap rfl rfl
  intro character isReturn isFeed
  rw [Entity.encodeInAttribute]
  split
  · exact ⟨by decide, _, _, rfl, by decide⟩
  · exact ⟨by simpa using Ne.symm isReturn, _, _, rfl, isFeed⟩

end Text

namespace Entity

theorem not_mem_encodeText (text : List Char) : '<' ∉ encodeText text := by
  intro member
  rcases List.mem_flatMap.1 member with ⟨character, -, inside⟩
  rw [encodeInText] at inside
  split at inside
  · exact absurd inside (by decide)
  · split at inside
    · exact absurd inside (by decide)
    · split at inside
      · exact absurd inside (by decide)
      · rename_i different _
        exact different (List.mem_singleton.1 inside).symm

theorem not_mem_encodeAttribute (value : List Char) : '\x22' ∉ encodeAttribute value := by
  intro member
  rcases List.mem_flatMap.1 member with ⟨character, -, inside⟩
  rw [encodeInAttribute] at inside
  split at inside
  · exact absurd inside (by decide)
  · rename_i different
    exact different (List.mem_singleton.1 inside).symm

end Entity

/-! ## Texts without references -/

namespace Entity

open Text

/-- Tell whether a text holds one of the predefined references. -/
def holdsReference (text : List Char) : Bool :=
  predefined.any fun (name, _) => occurs ('&' :: name) text

theorem isSome_reference?_iff {text : List Char} : (reference? text).isSome = true ↔
    ∃ name meaning, (name, meaning) ∈ predefined ∧ name <+: text := by
  simp only [reference?, List.find?_isSome, List.isPrefixOf_iff_prefix, Prod.exists]

/-- A reference starts at the front of a text, or further behind. -/
theorem holdsReference_cons_iff {character : Char} {rest : List Char} :
    holdsReference (character :: rest) = true ↔
      character = '&' ∧ (reference? rest).isSome = true ∨ holdsReference rest = true := by
  simp only [holdsReference, isSome_reference?_iff, List.any_eq_true, occurs_iff_infix,
    List.infix_cons_iff, List.cons_prefix_cons, Prod.exists]
  constructor
  · rintro ⟨name, meaning, known, ⟨rfl, starts⟩ | inside⟩
    · exact .inl ⟨rfl, name, meaning, known, starts⟩
    · exact .inr ⟨name, meaning, known, inside⟩
  · rintro (⟨rfl, name, meaning, known, starts⟩ | ⟨name, meaning, known, inside⟩)
    · exact ⟨name, meaning, known, .inl ⟨rfl, starts⟩⟩
    · exact ⟨name, meaning, known, .inr inside⟩

theorem length_decode_le (text : List Char) : (decode text).length ≤ text.length := by
  have skipping : ∀ skipped, (decodeSkipping skipped text).length ≤ text.length := by
    induction text with
    | nil => simp [decodeSkipping]
    | cons character rest induction =>
        intro skipped
        cases skipped with
        | zero =>
            rw [decodeSkipping]
            split
            · split
              · simpa using induction _
              · simpa using induction 0
            · simpa using induction 0
        | succ skipped =>
            rw [decodeSkipping]
            have shorter := induction skipped
            simp only [List.length_cons]
            omega
  exact skipping 0

theorem decode_cons_of_reference?_eq_none {character : Char} {rest : List Char}
    (other : character = '&' → reference? rest = none) :
    decode (character :: rest) = character :: decode rest := by
  by_cases ampersand : character = '&'
  · rw [ampersand]
    exact decode_ampersand_of_none (other ampersand)
  · exact decode_cons rest ampersand

theorem decode_of_holdsReference_eq_false {text : List Char}
    (free : holdsReference text = false) : decode text = text := by
  induction text with
  | nil => rfl
  | cons character rest induction =>
      rw [Bool.eq_false_iff, ne_eq, holdsReference_cons_iff, not_or, not_and] at free
      rw [decode_cons_of_reference?_eq_none, induction (by simpa using free.2)]
      simpa using free.1

/-- A reference is longer than what it stands for. -/
theorem length_decode_lt {text : List Char} (held : holdsReference text = true) :
    (decode text).length < text.length := by
  induction text with
  | nil => exact absurd held (by decide)
  | cons character rest induction =>
      by_cases starts : character = '&' ∧ (reference? rest).isSome = true
      · rcases starts with ⟨rfl, present⟩
        rcases Option.isSome_iff_exists.1 present with ⟨⟨name, meaning⟩, found⟩
        rcases of_reference?_eq_some found with ⟨known, after, rfl⟩
        have named : name ≠ [] := by
          rintro rfl
          simp [predefined] at known
        have nameLength := List.length_pos_iff.2 named
        have afterLength := length_decode_le after
        rw [decode_ampersand_of_some found]
        simp only [List.length_cons, List.length_append]
        omega
      · have later := (holdsReference_cons_iff.1 held).resolve_left starts
        rw [decode_cons_of_reference?_eq_none]
        · simpa using induction later
        · intro ampersand
          simpa [ampersand] using starts

theorem decode_eq_self_iff {text : List Char} :
    decode text = text ↔ holdsReference text = false := by
  constructor
  · intro equal
    rw [Bool.eq_false_iff]
    intro held
    have shorter := length_decode_lt held
    rw [equal] at shorter
    exact Nat.lt_irrefl _ shorter
  · exact decode_of_holdsReference_eq_false

end Entity

end XmlGrove
