import XmlGrove.Proofs.Grammar.Denotation

/-!
# What cursors read

Each way of moving a cursor, stated by the text that it moves over: reading succeeds exactly
if such a text comes next.
-/

namespace XmlGrove

open Grammar

/-! ## Moving over a text -/

namespace Cursor

/-- A text comes next at a cursor, and the other cursor is behind it. -/
def Consumes (cursor : Cursor) (text : List Char) (next : Cursor) : Prop :=
  cursor.rest = text ++ next.rest ∧ next = cursor.skip text.length

theorem skip_skip (cursor : Cursor) (first second : Nat) :
    (cursor.skip first).skip second = cursor.skip (first + second) := by
  simp only [skip, List.drop_drop, Cursor.mk.injEq, true_and]
  rw [List.take_add, Location.after_append, List.length_append, Nat.add_assoc]
  exact ⟨rfl, rfl⟩

theorem skip_zero (cursor : Cursor) : cursor.skip 0 = cursor := by
  simp [skip]

theorem consumes_skip {cursor : Cursor} {text rest : List Char}
    (follows : cursor.rest = text ++ rest) : cursor.Consumes text (cursor.skip text.length) := by
  refine ⟨?_, rfl⟩
  rw [rest_skip, follows, List.drop_left]

theorem consumes_nil_iff {cursor next : Cursor} : cursor.Consumes [] next ↔ next = cursor := by
  constructor
  · intro consumed
    rw [consumed.2, List.length_nil, skip_zero]
  · rintro rfl
    exact ⟨rfl, (skip_zero next).symm⟩

theorem Consumes.trans {first second third : Cursor} {text other : List Char}
    (earlier : first.Consumes text second) (later : second.Consumes other third) :
    first.Consumes (text ++ other) third := by
  refine ⟨?_, ?_⟩
  · rw [earlier.1, later.1, List.append_assoc]
  · rw [later.2, earlier.2, skip_skip, List.length_append]

theorem consumes_append_iff {cursor last : Cursor} {text other : List Char} :
    cursor.Consumes (text ++ other) last ↔
      ∃ middle, cursor.Consumes text middle ∧ middle.Consumes other last := by
  constructor
  · intro consumed
    have split : cursor.rest = text ++ (other ++ last.rest) := by
      rw [consumed.1, List.append_assoc]
    have first := consumes_skip split
    refine ⟨_, first, ?_, ?_⟩
    · rw [rest_skip, split, List.drop_left]
    · rw [consumed.2, skip_skip, List.length_append]
  · rintro ⟨middle, first, second⟩
    exact first.trans second

theorem consumes_cons_iff {cursor last : Cursor} {first : Char} {text : List Char} :
    cursor.Consumes (first :: text) last ↔
      ∃ middle, cursor.Consumes [first] middle ∧ middle.Consumes text last := by
  rw [← List.singleton_append, consumes_append_iff]

theorem Consumes.unique {cursor left right : Cursor} {text : List Char}
    (first : cursor.Consumes text left) (second : cursor.Consumes text right) : left = right := by
  rw [first.2, second.2]

/-! ## Literals -/

theorem startsWith_iff {literal : String} {cursor : Cursor} :
    cursor.startsWith literal = true ↔ ∃ rest, cursor.rest = literal.toList ++ rest := by
  rw [startsWith, List.isPrefixOf_iff_prefix]
  constructor
  · rintro ⟨rest, equal⟩
    exact ⟨rest, equal.symm⟩
  · rintro ⟨rest, equal⟩
    exact ⟨rest, equal.symm⟩

theorem expect_eq_ok_iff {literal : String} {cursor next : Cursor} :
    cursor.expect literal = .ok next ↔ cursor.Consumes literal.toList next := by
  rw [expect]
  split
  · rename_i starts
    rcases startsWith_iff.1 starts with ⟨rest, follows⟩
    have consumed := consumes_skip follows
    constructor
    · intro read
      cases read
      exact consumed
    · intro given
      rw [given.unique consumed]
  · rename_i different
    constructor
    · intro read
      cases read
    · intro given
      exact absurd (startsWith_iff.2 ⟨_, given.1⟩) different

end Cursor

/-! ## Blank characters -/

namespace Grammar

theorem startsOutside_nil (holds : Char → Bool) : StartsOutside holds [] := by
  intro character first
  cases first

theorem startsOutside_cons_iff {holds : Char → Bool} {first : Char} {rest : List Char} :
    StartsOutside holds (first :: rest) ↔ holds first = false := by
  simp [StartsOutside]

theorem StartsOutside.of_append {holds : Char → Bool} {text rest : List Char}
    (outside : StartsOutside holds (text ++ rest)) : StartsOutside holds text := by
  cases text with
  | nil => exact startsOutside_nil holds
  | cons first text => exact outside

theorem StartsOutside.append {holds : Char → Bool} {text rest : List Char}
    (outside : StartsOutside holds text) (next : StartsOutside holds rest) :
    StartsOutside holds (text ++ rest) := by
  cases text with
  | nil => exact next
  | cons first text => exact outside

theorem blanks_nil : Blanks [] := by
  intro character member
  cases member

theorem Blanks.cons {first : Char} {rest : List Char} (firstBlank : Text.isBlank first = true)
    (restBlank : Blanks rest) : Blanks (first :: rest) := by
  intro character member
  rcases List.mem_cons.1 member with rfl | member
  · exact firstBlank
  · exact restBlank character member

theorem blanks_takeWhile (text : List Char) : Blanks (text.takeWhile Text.isBlank) := by
  intro character member
  exact List.all_eq_true.1 List.all_takeWhile character member

theorem startsOutside_dropWhile (holds : Char → Bool) (text : List Char) :
    StartsOutside holds (text.dropWhile holds) := by
  intro character first
  have dropped := List.head?_dropWhile_not holds text
  rw [Option.mem_def] at first
  rw [first] at dropped
  simpa using dropped

theorem startsSolid_dropWhile (text : List Char) :
    StartsSolid (text.dropWhile Text.isBlank) :=
  startsOutside_dropWhile Text.isBlank text

theorem trimStart_of_startsSolid {text : List Char} (solid : StartsSolid text) :
    Text.trimStart text = text := by
  cases text with
  | nil => rfl
  | cons first rest =>
      have different := startsOutside_cons_iff.1 solid
      simp [Text.trimStart, different]

theorem takeWhile_blanks_append {gap rest : List Char} (blank : Blanks gap)
    (solid : StartsSolid rest) : (gap ++ rest).takeWhile Text.isBlank = gap := by
  induction gap with
  | nil =>
      cases rest with
      | nil => rfl
      | cons first rest =>
          have different := solid first rfl
          rw [List.nil_append, List.takeWhile_cons_of_neg]
          simp [different]
  | cons first gap induction =>
      have firstBlank := blank first List.mem_cons_self
      have restBlank : Blanks gap := fun character member =>
        blank character (List.mem_cons_of_mem first member)
      rw [List.cons_append, List.takeWhile_cons_of_pos firstBlank, induction restBlank]

end Grammar

namespace Cursor

theorem skipBlanks_eq_iff {cursor next : Cursor} :
    cursor.skipBlanks = next ↔
      ∃ gap, Blanks gap ∧ StartsSolid next.rest ∧ cursor.Consumes gap next := by
  have split : cursor.rest =
      cursor.rest.takeWhile Text.isBlank ++ cursor.rest.dropWhile Text.isBlank :=
    List.takeWhile_append_dropWhile.symm
  constructor
  · rintro rfl
    have consumed := consumes_skip split
    refine ⟨_, blanks_takeWhile _, ?_, consumed⟩
    have remaining : cursor.skipBlanks.rest = cursor.rest.dropWhile Text.isBlank :=
      List.append_cancel_left (consumed.1.symm.trans split)
    rw [remaining]
    exact startsSolid_dropWhile _
  · rintro ⟨gap, blank, solid, consumed⟩
    rw [skipBlanks, consumed.1, takeWhile_blanks_append blank solid]
    exact consumed.2.symm

end Cursor

/-! ## Names -/

/-- The characters of names are between the hyphen and the letter z. -/
theorem toNat_of_isNameRest {character : Char} (named : isNameRest character = true) :
    45 ≤ character.toNat ∧ character.toNat ≤ 122 := by
  rw [isNameRest, isNameStart] at named
  delta Char.isAlpha Char.isUpper Char.isLower Char.isDigit at named
  simp only [Bool.or_eq_true, beq_iff_eq, Bool.and_eq_true, decide_eq_true_eq, ge_iff_le,
    UInt32.le_iff_toNat_le] at named
  change ((((((65 ≤ character.toNat ∧ character.toNat ≤ 90) ∨
    (97 ≤ character.toNat ∧ character.toNat ≤ 122)) ∨ character = '_') ∨ character = ':') ∨
    (48 ≤ character.toNat ∧ character.toNat ≤ 57)) ∨ character = '-') ∨ character = '.' at named
  rcases named with (((((upper | lower) | rfl) | rfl) | digit) | rfl) | rfl
  · omega
  · omega
  · decide
  · decide
  · omega
  · decide
  · decide

theorem toNat_of_isBlank {character : Char} (blank : Text.isBlank character = true) :
    character.toNat ≤ 32 ∨ 133 ≤ character.toNat := by
  simp only [Text.isBlank, Text.blankRanges, List.any_cons, List.any_nil, Bool.or_eq_true,
    Bool.and_eq_true, decide_eq_true_eq, Bool.false_eq_true, or_false] at blank
  omega

theorem isNameRest_of_isBlank {character : Char} (blank : Text.isBlank character = true) :
    isNameRest character = false := by
  rw [Bool.eq_false_iff]
  intro named
  have inner := toNat_of_isNameRest named
  have outer := toNat_of_isBlank blank
  omega

theorem isNameRest_of_isNameStart {character : Char} (starts : isNameStart character = true) :
    isNameRest character = true := by
  rw [isNameRest, starts]
  rfl

theorem Name.exists_first (name : Name) :
    ∃ first others, name.text.toList = first :: others ∧ isNameStart first = true := by
  have valid := name.isName_text
  cases characters : name.text.toList with
  | nil =>
      rw [characters] at valid
      cases valid
  | cons first others =>
      rw [characters, isName, Bool.and_eq_true] at valid
      exact ⟨first, others, rfl, valid.1⟩

theorem Name.not_mem_of_not_isNameRest (name : Name) {character : Char}
    (other : isNameRest character = false) : character ∉ name.text.toList := by
  intro member
  have valid := name.isName_text
  cases characters : name.text.toList with
  | nil =>
      rw [characters] at member
      cases member
  | cons first rest =>
      rw [characters, isName, Bool.and_eq_true, List.all_eq_true] at valid
      rw [characters] at member
      have named : isNameRest character = true := by
        rcases List.mem_cons.1 member with rfl | member
        · exact isNameRest_of_isNameStart valid.1
        · exact valid.2 character member
      rw [named] at other
      cases other

theorem Name.startsSolid (name : Name) (rest : List Char) :
    StartsSolid (name.text.toList ++ rest) := by
  rcases name.exists_first with ⟨first, others, characters, starts⟩
  rw [characters, List.cons_append]
  apply startsOutside_cons_iff.2
  rw [Bool.eq_false_iff]
  intro blank
  have outside := isNameRest_of_isBlank blank
  rw [isNameRest_of_isNameStart starts] at outside
  cases outside

theorem Grammar.Blanks.endsName_append {gap rest : List Char} (blank : Blanks gap)
    (ends : EndsName rest) : EndsName (gap ++ rest) := by
  cases gap with
  | nil => exact ends
  | cons first gap =>
      exact startsOutside_cons_iff.2 (isNameRest_of_isBlank (blank first List.mem_cons_self))

namespace Cursor

/-- The longest name that a text starts with is the one that what follows does not go on
with. -/
theorem nameAtStart?_eq_some_iff {text name after : List Char} :
    nameAtStart? text = some (name, after) ↔
      text = name ++ after ∧ isName name = true ∧ EndsName after := by
  constructor
  · intro found
    refine ⟨eq_append_of_nameAtStart? found, isName_of_nameAtStart? found, ?_⟩
    cases text with
    | nil => cases found
    | cons first rest =>
        rw [nameAtStart?] at found
        split at found
        · simp only [Option.some.injEq, Prod.mk.injEq] at found
          intro character begins
          have dropped := List.head?_dropWhile_not isNameRest rest
          rw [found.2, Option.mem_def.1 begins] at dropped
          simpa using dropped
        · cases found
  · rintro ⟨rfl, valid, ended⟩
    cases name with
    | nil => cases valid
    | cons first rest =>
        rw [isName, Bool.and_eq_true, List.all_eq_true] at valid
        have taken : (rest ++ after).takeWhile isNameRest = rest := by
          rw [List.takeWhile_append_of_pos valid.2]
          cases after with
          | nil => simp
          | cons next after =>
              have stop := ended next rfl
              rw [List.takeWhile_cons_of_neg (by simp [stop]), List.append_nil]
        have dropped : (rest ++ after).dropWhile isNameRest = after := by
          have whole := List.takeWhile_append_dropWhile (p := isNameRest) (l := rest ++ after)
          rw [taken] at whole
          exact List.append_cancel_left whole
        rw [List.cons_append, nameAtStart?, if_pos valid.1, taken, dropped]

theorem readName_eq_ok_iff {cursor next : Cursor} {name : Name} :
    cursor.readName = .ok (name, next) ↔
      cursor.Consumes name.text.toList next ∧ EndsName next.rest := by
  constructor
  · intro read
    rw [readName] at read
    split at read
    · cases read
    · rename_i found
      rcases nameAtStart?_eq_some_iff.1 found with ⟨whole, valid, ended⟩
      cases read
      have consumed := consumes_skip whole
      have remaining := List.append_cancel_left (consumed.1.symm.trans whole)
      rw [Name.ofChars, String.toList_ofList, remaining]
      exact ⟨consumed, ended⟩
  · rintro ⟨consumed, ended⟩
    have found := nameAtStart?_eq_some_iff.2 ⟨consumed.1, name.isName_text, ended⟩
    rw [readName]
    split
    · rename_i missing
      rw [missing] at found
      cases found
    · rename_i present
      rw [present] at found
      cases found
      rw [← consumed.2]
      simp [Name.ofChars]

end Cursor

/-! ## Delimiters -/

namespace Grammar

theorem EndsFirst.tail {delimiter body : List Char} {first : Char}
    (ends : EndsFirst delimiter (first :: body)) : EndsFirst delimiter body := by
  intro before after equal
  apply ends (first :: before) after
  rw [List.cons_append, equal, List.cons_append, List.cons_append]

theorem EndsFirst.cons {delimiter body : List Char} {first : Char}
    (elsewhere : ¬ delimiter <+: first :: (body ++ delimiter)) (ends : EndsFirst delimiter body) :
    EndsFirst delimiter (first :: body) := by
  intro before after equal
  cases before with
  | nil => exact absurd ⟨after, equal.symm⟩ elsewhere
  | cons other before =>
      rw [List.cons_append, List.cons_append, List.cons_append, List.cons.injEq] at equal
      exact ends before after equal.2

/-- In a value without its quote, the quote ends it at once. -/
theorem endsFirst_quote_iff {quote : Char} {value : List Char} :
    EndsFirst [quote] value ↔ quote ∉ value := by
  constructor
  · intro ends member
    rcases List.append_of_mem member with ⟨before, after, rfl⟩
    have finished := ends before (after ++ [quote]) (by simp)
    simp at finished
  · intro absent before after equal
    rcases List.eq_nil_or_concat after with rfl | ⟨inner, last, rfl⟩
    · rfl
    · rw [List.concat_eq_append, ← List.append_assoc] at equal
      have fronts := (List.append_inj' equal rfl).1
      exact absurd (by rw [fronts]; simp) absent

/-- A delimiter does not start any earlier than where its first occurrence ends a body. -/
theorem EndsFirst.not_prefix {delimiter body after : List Char} {first : Char}
    (ends : EndsFirst delimiter (first :: body)) :
    ¬ delimiter <+: first :: (body ++ delimiter ++ after) := by
  intro starts
  have whole : first :: (body ++ delimiter) <+: first :: (body ++ delimiter ++ after) :=
    ⟨after, by simp⟩
  have shorter : delimiter.length ≤ (first :: (body ++ delimiter)).length := by
    simp only [List.length_cons, List.length_append]
    omega
  rcases List.prefix_of_prefix_length_le starts whole shorter with ⟨rest, equal⟩
  have finished := ends [] rest equal.symm
  rw [finished] at equal
  have lengths := congrArg List.length equal
  simp only [List.length_cons, List.length_append, List.length_nil] at lengths
  omega

end Grammar

theorem Text.endsFirst_of_cut? {delimiter text before after : List Char}
    (nonempty : delimiter ≠ []) (found : Text.cut? delimiter text = some (before, after)) :
    EndsFirst delimiter before := by
  induction text generalizing before with
  | nil =>
      rw [Text.cut?, if_neg (by simpa using nonempty)] at found
      cases found
  | cons first rest induction =>
      rw [Text.cut?] at found
      split at found
      · cases found
        intro before after equal
        have lengths := congrArg List.length equal
        simp only [List.length_append, List.length_nil] at lengths
        apply List.eq_nil_of_length_eq_zero
        omega
      · rename_i elsewhere
        simp only [Option.map_eq_some_iff, Prod.mk.injEq, Prod.exists] at found
        rcases found with ⟨inner, remainder, cut, rfl, rfl⟩
        apply EndsFirst.cons _ (induction cut)
        intro starts
        apply elsewhere
        rw [List.isPrefixOf_iff_prefix]
        rw [Text.eq_append_of_cut? cut]
        exact starts.trans ⟨remainder, by simp⟩

theorem Text.cut?_of_endsFirst {delimiter before : List Char} (nonempty : delimiter ≠ [])
    (ends : EndsFirst delimiter before) (after : List Char) :
    Text.cut? delimiter (before ++ delimiter ++ after) = some (before, after) := by
  induction before with
  | nil =>
      cases delimiter with
      | nil => exact absurd rfl nonempty
      | cons first delimiter =>
          rw [List.nil_append, List.cons_append, Text.cut?, if_pos]
          · simp
          · rw [List.isPrefixOf_iff_prefix]
            exact ⟨after, rfl⟩
  | cons first before induction =>
      rw [List.cons_append, List.cons_append, Text.cut?, if_neg, induction ends.tail]
      · rfl
      · rw [List.isPrefixOf_iff_prefix]
        exact ends.not_prefix

/-- A cut is where the delimiter occurs first. -/
theorem Text.cut?_eq_some_iff {delimiter text before after : List Char}
    (nonempty : delimiter ≠ []) :
    Text.cut? delimiter text = some (before, after) ↔
      text = before ++ delimiter ++ after ∧ EndsFirst delimiter before := by
  constructor
  · intro found
    exact ⟨Text.eq_append_of_cut? found, Text.endsFirst_of_cut? nonempty found⟩
  · rintro ⟨rfl, ends⟩
    exact Text.cut?_of_endsFirst nonempty ends after

namespace Cursor

theorem readUntil_eq_ok_iff {delimiter construct : String} {cursor next : Cursor}
    {body : List Char} (nonempty : delimiter.toList ≠ []) :
    cursor.readUntil delimiter construct = .ok (body, next) ↔
      EndsFirst delimiter.toList body ∧ cursor.Consumes (body ++ delimiter.toList) next := by
  constructor
  · intro read
    rw [readUntil] at read
    split at read
    · cases read
    · rename_i found
      rcases (Text.cut?_eq_some_iff nonempty).1 found with ⟨whole, ends⟩
      cases read
      have consumed := consumes_skip whole
      rw [List.length_append] at consumed
      exact ⟨ends, consumed⟩
  · rintro ⟨ends, consumed⟩
    rw [readUntil, (Text.cut?_eq_some_iff nonempty).2 ⟨consumed.1, ends⟩]
    rw [consumed.2, List.length_append]

end Cursor

end XmlGrove
