import XmlGrove.Proofs.RoundTrip.Encoding

/-!
# References across a cut

A text that is cut in two can be decoded in parts, unless the cut is within a reference. Then
the parts are left as they are, and are longer than what the reference stands for.
-/

namespace XmlGrove.Entity

/-- A reference begins at the end of one text and ends at the start of the other one. -/
def Straddles (before after : List Char) : Prop :=
  ∃ entry ∈ predefined, ∃ taken < entry.1.length,
    ('&' :: entry.1.take taken) <:+ before ∧ entry.1.drop taken <+: after

instance (before after : List Char) : Decidable (Straddles before after) :=
  inferInstanceAs (Decidable (∃ entry ∈ predefined, ∃ taken < entry.1.length, _ ∧ _))

example : Straddles "a &am".toList "p; b".toList ∧ ¬ Straddles "&amp;".toList "&lt;".toList := by
  decide

variable {before after : List Char}

/-! ## Names of references -/

/-- No name of a reference begins another one. -/
theorem eq_of_prefix_of_mem_predefined {first second : List Char × Char}
    (known : first ∈ predefined) (other : second ∈ predefined) (starts : first.1 <+: second.1) :
    first = second := by
  have apart : ∀ one ∈ predefined, ∀ another ∈ predefined,
      one.1 <+: another.1 → one = another := by decide
  exact apart first known second other starts

/-- A text begins with the name of one reference at most. -/
theorem eq_of_prefix_of_prefix {first second : List Char × Char} {text : List Char}
    (known : first ∈ predefined) (other : second ∈ predefined) (starts : first.1 <+: text)
    (begins : second.1 <+: text) : first = second := by
  rcases List.prefix_or_prefix_of_prefix starts begins with inside | inside
  · exact eq_of_prefix_of_mem_predefined known other inside
  · exact (eq_of_prefix_of_mem_predefined other known inside).symm

theorem reference?_eq_some_iff {text : List Char} {entry : List Char × Char} :
    reference? text = some entry ↔ entry ∈ predefined ∧ entry.1 <+: text := by
  constructor
  · exact of_reference?_eq_some
  · intro known
    have present := isSome_reference?_iff.2 ⟨entry.1, entry.2, known⟩
    rcases Option.isSome_iff_exists.1 present with ⟨found, equal⟩
    rcases of_reference?_eq_some equal with ⟨foundKnown, starts⟩
    rw [equal, Option.some.injEq]
    exact eq_of_prefix_of_prefix foundKnown known.1 starts known.2

theorem reference?_append_of_some {entry : List Char × Char}
    (found : reference? before = some entry) (after : List Char) :
    reference? (before ++ after) = some entry := by
  rcases reference?_eq_some_iff.1 found with ⟨known, starts⟩
  exact reference?_eq_some_iff.2 ⟨known, starts.trans (List.prefix_append before after)⟩

/-- A text that names no reference begins the name of one that ends in another text. -/
def NamesAcross (before after : List Char) : Prop :=
  ∃ entry ∈ predefined, ∃ taken < entry.1.length,
    entry.1.take taken = before ∧ entry.1.drop taken <+: after

theorem namesAcross_iff :
    NamesAcross before after ↔
      reference? before = none ∧ (reference? (before ++ after)).isSome = true := by
  constructor
  · rintro ⟨entry, known, taken, within, rfl, continues⟩
    constructor
    · rw [Option.eq_none_iff_forall_ne_some]
      intro other found
      rcases reference?_eq_some_iff.1 found with ⟨otherKnown, starts⟩
      have inside := starts.trans (List.take_prefix taken entry.1)
      rw [eq_of_prefix_of_mem_predefined otherKnown known inside] at starts
      have shorter := starts.length_le
      rw [List.length_take] at shorter
      omega
    · refine isSome_reference?_iff.2 ⟨entry.1, entry.2, known, ?_⟩
      have starts := (List.prefix_append_right_inj (entry.1.take taken)).2 continues
      rwa [List.take_append_drop] at starts
  · intro ⟨missing, present⟩
    rcases Option.isSome_iff_exists.1 present with ⟨entry, found⟩
    rcases reference?_eq_some_iff.1 found with ⟨known, starts⟩
    have absent : ¬ entry.1 <+: before := by
      intro inside
      rw [reference?_eq_some_iff.2 ⟨known, inside⟩] at missing
      cases missing
    rcases List.prefix_or_prefix_of_prefix (List.prefix_append before after) starts with
      inside | inside
    · rcases inside with ⟨remaining, whole⟩
      refine ⟨entry, known, before.length, ?_, ?_, ?_⟩
      · rw [← whole, List.length_append]
        have nonempty : remaining ≠ [] := by
          rintro rfl
          rw [List.append_nil] at whole
          exact absent (whole ▸ List.prefix_refl before)
        have positive := List.length_pos_iff.2 nonempty
        omega
      · rw [← whole, List.take_left]
      · rw [← whole, List.drop_left]
        rw [← whole] at starts
        exact (List.prefix_append_right_inj before).1 starts
    · exact absurd inside absent

theorem NamesAcross.not_mem (across : NamesAcross before after) : '&' ∉ before := by
  rcases across with ⟨entry, known, taken, within, rfl, continues⟩
  exact fun member => (not_mem_of_mem_predefined known).1 (List.mem_of_mem_take member)

/-! ## Straddling -/

@[simp] theorem not_straddles_nil (after : List Char) : ¬ Straddles [] after := by
  simp [Straddles]

theorem straddles_cons_iff {character : Char} :
    Straddles (character :: before) after ↔
      character = '&' ∧ NamesAcross before after ∨ Straddles before after := by
  simp only [Straddles, NamesAcross, List.suffix_cons_iff, List.cons.injEq]
  constructor
  · rintro ⟨entry, known, taken, within, ⟨ampersand, equal⟩ | inside, continues⟩
    · exact .inl ⟨ampersand.symm, entry, known, taken, within, equal, continues⟩
    · exact .inr ⟨entry, known, taken, within, inside, continues⟩
  · rintro (⟨rfl, entry, known, taken, within, equal, continues⟩ |
      ⟨entry, known, taken, within, inside, continues⟩)
    · exact ⟨entry, known, taken, within, .inl ⟨rfl, equal⟩, continues⟩
    · exact ⟨entry, known, taken, within, .inr inside, continues⟩

theorem Straddles.mem (straddling : Straddles before after) : '&' ∈ before := by
  rcases straddling with ⟨entry, known, taken, within, ends, continues⟩
  exact ends.subset (by simp)

theorem Straddles.append (straddling : Straddles before after) (more : List Char) :
    Straddles before (after ++ more) := by
  rcases straddling with ⟨entry, known, taken, within, ends, continues⟩
  exact ⟨entry, known, taken, within, ends, continues.trans (List.prefix_append after more)⟩

/-- No reference begins within what does not hold what begins one. -/
theorem Straddles.of_append {free : List Char} (absent : '&' ∉ free)
    (straddling : Straddles (free ++ before) after) : Straddles before after := by
  induction free with
  | nil => exact straddling
  | cons first free induction =>
      rw [List.mem_cons, not_or] at absent
      rcases straddles_cons_iff.1 straddling with ⟨ampersand, -⟩ | later
      · exact absurd ampersand.symm absent.1
      · exact induction absent.2 later

/-- Of two cuts, a reference across the first one may also be across the second one. -/
theorem Straddles.cases {middle : List Char} (straddling : Straddles before (middle ++ after)) :
    Straddles before middle ∨ Straddles (before ++ middle) after := by
  rcases straddling with ⟨entry, known, taken, within, ends, continues⟩
  rcases List.prefix_or_prefix_of_prefix continues (List.prefix_append middle after) with
    inside | ⟨remaining, whole⟩
  · exact .inl ⟨entry, known, taken, within, ends, inside⟩
  · by_cases finished : remaining = []
    · rw [finished, List.append_nil] at whole
      exact .inl ⟨entry, known, taken, within, ends, whole ▸ List.prefix_refl middle⟩
    · have positive := List.length_pos_iff.2 finished
      have parts := congrArg List.length whole
      simp only [List.length_append, List.length_drop] at parts
      refine .inr ⟨entry, known, taken + middle.length, by omega, ?_, ?_⟩
      · rcases ends with ⟨front, equal⟩
        refine ⟨front, ?_⟩
        rw [List.take_add, ← whole, List.take_left, ← equal]
        simp
      · rw [← List.drop_drop, ← whole, List.drop_left]
        rw [← whole] at continues
        exact (List.prefix_append_right_inj middle).1 continues

/-! ## Decoding in parts -/

theorem decode_of_not_mem {text : List Char} (absent : '&' ∉ text) : decode text = text := by
  induction text with
  | nil => rfl
  | cons first rest induction =>
      rw [List.mem_cons, not_or] at absent
      rw [decode_cons rest (Ne.symm absent.1), induction absent.2]

/-- A reference that does not go on behind a cut is decoded without a look behind it. -/
theorem exists_decodeSkipping_cons {character : Char}
    (apart : character = '&' → ¬ NamesAcross before after) :
    ∃ meaning skipped, skipped ≤ before.length ∧ '&' ∉ before.take skipped ∧
      decodeSkipping 0 (character :: (before ++ after)) =
        meaning :: decodeSkipping skipped (before ++ after) ∧
      decodeSkipping 0 (character :: before) = meaning :: decodeSkipping skipped before := by
  rw [decodeSkipping, decodeSkipping]
  by_cases ampersand : character = '&'
  · rw [if_pos ampersand, if_pos ampersand]
    cases found : reference? before with
    | some entry =>
        rcases reference?_eq_some_iff.1 found with ⟨known, rest, rfl⟩
        rw [reference?_append_of_some found]
        refine ⟨entry.2, entry.1.length, by simp, ?_, rfl, rfl⟩
        rw [List.take_left]
        exact (not_mem_of_mem_predefined known).1
    | none =>
        have missing : reference? (before ++ after) = none := by
          have separate := apart ampersand
          rw [namesAcross_iff, not_and] at separate
          simpa using separate found
        rw [missing]
        exact ⟨character, 0, Nat.zero_le _, by simp, rfl, rfl⟩
  · rw [if_neg ampersand, if_neg ampersand]
    exact ⟨character, 0, Nat.zero_le _, by simp, rfl, rfl⟩

theorem decodeSkipping_append (apart : ¬ Straddles before after) {skipped : Nat}
    (inside : skipped ≤ before.length) :
    decodeSkipping skipped (before ++ after) = decodeSkipping skipped before ++ decode after := by
  induction before generalizing skipped with
  | nil =>
      cases Nat.le_zero.1 inside
      rfl
  | cons character before induction =>
      rw [straddles_cons_iff, not_or, not_and] at apart
      cases skipped with
      | succ skipped => exact induction apart.2 (Nat.le_of_succ_le_succ inside)
      | zero =>
          rcases exists_decodeSkipping_cons apart.1 with
            ⟨meaning, skipped, within, -, together, alone⟩
          rw [List.cons_append, together, alone, induction apart.2 within, List.cons_append]

theorem decode_append (apart : ¬ Straddles before after) :
    decode (before ++ after) = decode before ++ decode after :=
  decodeSkipping_append apart (Nat.zero_le _)

theorem length_decode_append_of_namesAcross (across : NamesAcross before after) :
    (decode ('&' :: (before ++ after))).length < 1 + before.length + (decode after).length := by
  rcases across with ⟨entry, known, taken, within, rfl, following, rfl⟩
  rw [← List.append_assoc, List.take_append_drop]
  have found : reference? (entry.1 ++ following) = some entry :=
    reference?_eq_some_iff.2 ⟨known, List.prefix_append _ _⟩
  have absent := (not_mem_of_mem_predefined known).1
  have absentEnd : '&' ∉ entry.1.drop taken := fun member => absent (List.mem_of_mem_drop member)
  have apart : ¬ Straddles (entry.1.drop taken) following := fun straddling =>
    absentEnd straddling.mem
  rw [decode_ampersand_of_some found, decode_append apart, decode_of_not_mem absentEnd]
  simp only [List.length_cons, List.length_append, List.length_drop, List.length_take]
  omega

theorem length_decodeSkipping_append_lt {skipped : Nat}
    (straddling : Straddles (before.drop skipped) after) :
    (decodeSkipping skipped (before ++ after)).length <
      (decodeSkipping skipped before).length + (decode after).length := by
  -- The induction is on the text before the cut; the reference across the cut begins behind all
  -- that is skipped.
  induction before generalizing skipped with
  | nil =>
      rw [List.drop_nil] at straddling
      exact absurd straddling (not_straddles_nil after)
  | cons character before induction =>
      cases skipped with
      | succ skipped => exact induction straddling
      | zero =>
          rw [List.drop_zero] at straddling
          by_cases starts : character = '&' ∧ NamesAcross before after
          · rcases starts with ⟨rfl, across⟩
            have together := length_decode_append_of_namesAcross across
            have alone : decode ('&' :: before) = '&' :: before := by
              rw [decode_ampersand_of_none (namesAcross_iff.1 across).1,
                decode_of_not_mem across.not_mem]
            rw [List.cons_append, ← decode, ← decode, alone, List.length_cons]
            omega
          · have later := (straddles_cons_iff.1 straddling).resolve_left starts
            rcases exists_decodeSkipping_cons (not_and.1 starts) with
              ⟨meaning, skipped, within, free, together, alone⟩
            rw [← List.take_append_drop skipped before] at later
            have shorter := induction (later.of_append free)
            rw [List.cons_append, together, alone, List.length_cons, List.length_cons]
            omega

/-- A reference across a cut is not decoded in parts. -/
theorem length_decode_append_lt (straddling : Straddles before after) :
    (decode (before ++ after)).length < (decode before).length + (decode after).length :=
  length_decodeSkipping_append_lt straddling

theorem length_decode_append_le (before after : List Char) :
    (decode (before ++ after)).length ≤ (decode before).length + (decode after).length := by
  by_cases straddling : Straddles before after
  · exact Nat.le_of_lt (length_decode_append_lt straddling)
  · rw [decode_append straddling, List.length_append]

end XmlGrove.Entity
