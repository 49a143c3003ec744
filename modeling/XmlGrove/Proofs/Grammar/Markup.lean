import XmlGrove.Proofs.Grammar.Scanning

/-!
# Reading markup by the grammar

Each reader of a piece of markup accepts exactly the texts of its production, and yields what
they stand for.
-/

namespace XmlGrove.Parse

open Grammar

theorem map_eq_ok_iff {first : Except ParsingFault α} {pass : α → β} {result : β} :
    first.map pass = .ok result ↔ ∃ value, first = .ok value ∧ pass value = result := by
  cases first with
  | error fault => simp [Except.map]
  | ok value => simp [Except.map]

/-! ## What markup starts with -/

section

variable {cursor next : Cursor} {text body : List Char}

theorem startsWith_of_enclosed {opening closing : String}
    (written : Enclosed opening closing text body) (consumed : cursor.Consumes text next) :
    cursor.startsWith opening = true := by
  rcases written with ⟨body, _⟩
  exact Cursor.startsWith_iff.2 ⟨_, by rw [consumed.1, List.append_assoc]⟩

theorem startsWith_of_instruction {target : Name} (written : Instruction text target body)
    (consumed : cursor.Consumes text next) : cursor.startsWith "<?" = true := by
  rcases written with ⟨_, gap, body, _, _, _, _⟩
  exact Cursor.startsWith_iff.2 ⟨_, by rw [consumed.1, List.append_assoc]⟩

theorem startsWith_of_endTag {name : Name} (written : EndTag text name)
    (consumed : cursor.Consumes text next) : cursor.startsWith "</" = true := by
  rcases written with ⟨_, gap, _⟩
  exact Cursor.startsWith_iff.2 ⟨_, by rw [consumed.1, List.append_assoc]⟩

end

/-! ## Comments, CDATA sections and processing instructions -/

private theorem readEnclosed_eq_ok_iff {opening closing construct : String}
    (nonempty : closing.toList ≠ []) {cursor next : Cursor} {content : String} :
    (do
      let cursor ← cursor.expect opening
      let (body, cursor) ← cursor.readUntil closing construct
      return (String.ofList body, cursor)) = Except.ok (content, next) ↔
      ∃ text body, Enclosed opening closing text body ∧ content = String.ofList body ∧
        cursor.Consumes text next := by
  constructor
  · intro read
    rcases bind_eq_ok_iff.1 read with ⟨opened, expected, read⟩
    rcases bind_eq_ok_iff.1 read with ⟨⟨body, closed⟩, ended, read⟩
    cases read
    rw [Cursor.expect_eq_ok_iff] at expected
    rw [Cursor.readUntil_eq_ok_iff nonempty] at ended
    exact ⟨_, body, .intro body ended.1, rfl, expected.trans ended.2⟩
  · rintro ⟨text, body, ⟨_, ends⟩, rfl, consumed⟩
    rcases Cursor.consumes_append_iff.1 consumed with ⟨opened, expected, ended⟩
    refine bind_eq_ok_iff.2 ⟨opened, Cursor.expect_eq_ok_iff.2 expected, ?_⟩
    refine bind_eq_ok_iff.2 ⟨(body, next), ?_, rfl⟩
    exact (Cursor.readUntil_eq_ok_iff nonempty).2 ⟨ends, ended⟩

theorem readComment_eq_ok_iff {cursor next : Cursor} {content : String} :
    readComment cursor = .ok (content, next) ↔
      ∃ text body, Comment text body ∧ content = String.ofList body ∧
        cursor.Consumes text next :=
  readEnclosed_eq_ok_iff (by decide)

theorem readCData_eq_ok_iff {cursor next : Cursor} {content : String} :
    readCData cursor = .ok (content, next) ↔
      ∃ text body, CData text body ∧ content = String.ofList body ∧
        cursor.Consumes text next :=
  readEnclosed_eq_ok_iff (by decide)

theorem readInstruction_eq_ok_iff {cursor next : Cursor} {target : Name} {content : String} :
    readInstruction cursor = .ok ((target, content), next) ↔
      ∃ text body, Instruction text target body ∧ content = String.ofList body ∧
        cursor.Consumes text next := by
  constructor
  · intro read
    rcases bind_eq_ok_iff.1 read with ⟨opened, expected, read⟩
    rcases bind_eq_ok_iff.1 read with ⟨⟨target, named⟩, naming, read⟩
    rcases bind_eq_ok_iff.1 read with ⟨⟨body, closed⟩, ended, read⟩
    cases read
    rw [Cursor.expect_eq_ok_iff] at expected
    rw [Cursor.readName_eq_ok_iff] at naming
    rw [Cursor.readUntil_eq_ok_iff (by decide)] at ended
    rcases Cursor.skipBlanks_eq_iff.1 (rfl : named.skipBlanks = _) with ⟨gap, blank, solid, skipped⟩
    have whole := expected.trans (naming.1.trans (skipped.trans ended.2))
    refine ⟨_, body, .intro target gap body blank ?_ ?_ ended.1, rfl, whole⟩
    · rw [ended.2.1] at solid
      exact solid.of_append.of_append
    · have munched := naming.2
      rw [(skipped.trans ended.2).1, ← List.append_assoc] at munched
      exact munched.of_append.of_append
  · rintro ⟨text, body, ⟨_, gap, _, blank, solid, munched, ends⟩, rfl, consumed⟩
    rcases Cursor.consumes_append_iff.1 consumed with ⟨opened, expected, consumed⟩
    rcases Cursor.consumes_append_iff.1 consumed with ⟨named, naming, consumed⟩
    rcases Cursor.consumes_append_iff.1 consumed with ⟨skipped, skipping, ended⟩
    have solidRest : StartsSolid skipped.rest := by
      rw [ended.1, List.append_assoc]
      exact solid.append (startsOutside_cons_iff.2 (by decide))
    have endsName : EndsName named.rest := by
      rw [consumed.1, ← List.append_assoc, List.append_assoc]
      exact munched.append (startsOutside_cons_iff.2 (by decide))
    refine bind_eq_ok_iff.2 ⟨opened, Cursor.expect_eq_ok_iff.2 expected, ?_⟩
    refine bind_eq_ok_iff.2 ⟨(target, named), Cursor.readName_eq_ok_iff.2 ⟨naming, endsName⟩, ?_⟩
    refine bind_eq_ok_iff.2 ⟨(body, next), ?_, rfl⟩
    simp only [Cursor.skipBlanks_eq_iff.2 ⟨gap, blank, solidRest, skipping⟩]
    exact (Cursor.readUntil_eq_ok_iff (by decide)).2 ⟨ends, ended⟩

/-! ## Attributes -/

theorem readQuoted_eq_ok_iff {cursor next : Cursor} {value : String} :
    readQuoted cursor = .ok (value, next) ↔
      ∃ quote raw, (quote = '\x22' ∨ quote = '\x27') ∧ quote ∉ raw ∧
        value = String.ofList (Entity.decode raw) ∧
        cursor.Consumes (quote :: (raw ++ [quote])) next := by
  constructor
  · intro read
    rw [readQuoted] at read
    split at read
    · rename_i quote current
      split at read
      · rename_i isQuote
        rcases bind_eq_ok_iff.1 read with ⟨⟨raw, closed⟩, ended, read⟩
        cases read
        rw [Cursor.readUntil_eq_ok_iff (by simp), String.toList_ofList] at ended
        rw [Cursor.current?, List.head?_eq_some_iff] at current
        rcases current with ⟨rest, follows⟩
        have opened := @Cursor.consumes_skip _ [quote] _ follows
        exact ⟨quote, raw, isQuote, endsFirst_quote_iff.1 ended.1, rfl, opened.trans ended.2⟩
      · cases read
    · cases read
  · rintro ⟨quote, raw, isQuote, absent, rfl, consumed⟩
    have current : cursor.current? = some quote := by
      rw [Cursor.current?, consumed.1]
      rfl
    rcases Cursor.consumes_cons_iff.1 consumed with ⟨opened, opening, ended⟩
    rw [readQuoted, current]
    simp only [if_pos isQuote]
    refine bind_eq_ok_iff.2 ⟨(raw, next), ?_, rfl⟩
    rw [Cursor.readUntil_eq_ok_iff (by simp), String.toList_ofList]
    rw [opening.2] at ended
    exact ⟨endsFirst_quote_iff.2 absent, ended⟩

theorem readAttribute_eq_ok_iff {cursor next : Cursor} {name : Name} {value : String} :
    readAttribute cursor = .ok ((name, value), next) ↔
      ∃ text raw, Attribute text (name, raw) ∧ value = String.ofList (Entity.decode raw) ∧
        cursor.Consumes text next ∧ StartsSolid next.rest := by
  constructor
  · intro read
    rcases bind_eq_ok_iff.1 read with ⟨⟨name, named⟩, naming, read⟩
    rcases bind_eq_ok_iff.1 read with ⟨equated, expected, read⟩
    rcases bind_eq_ok_iff.1 read with ⟨⟨value, closed⟩, quoted, read⟩
    cases read
    rw [Cursor.readName_eq_ok_iff] at naming
    rw [Cursor.expect_eq_ok_iff] at expected
    rcases readQuoted_eq_ok_iff.1 quoted with ⟨quote, raw, isQuote, absent, rfl, closing⟩
    rcases Cursor.skipBlanks_eq_iff.1 (rfl : named.skipBlanks = _) with
      ⟨before, beforeBlank, -, skipped⟩
    rcases Cursor.skipBlanks_eq_iff.1 (rfl : equated.skipBlanks = _) with
      ⟨after, afterBlank, -, reached⟩
    rcases Cursor.skipBlanks_eq_iff.1 (rfl : closed.skipBlanks = _) with
      ⟨gap, gapBlank, solid, left⟩
    have written := Attribute.intro name before after raw gap quote
      beforeBlank afterBlank gapBlank isQuote absent
    have whole := naming.1.trans
      (skipped.trans (expected.trans (reached.trans (closing.trans left))))
    refine ⟨_, raw, written, rfl, ?_, solid⟩
    simpa using whole
  · rintro ⟨text, raw, written, rfl, consumed, solid⟩
    rcases written with
      ⟨_, before, after, _, gap, quote, beforeBlank, afterBlank, gapBlank, isQuote, absent⟩
    rcases Cursor.consumes_append_iff.1 consumed with ⟨named, naming, consumed⟩
    rcases Cursor.consumes_append_iff.1 consumed with ⟨skipped, skipping, consumed⟩
    rcases Cursor.consumes_cons_iff.1 consumed with ⟨equated, equating, consumed⟩
    rcases Cursor.consumes_append_iff.1 consumed with ⟨reached, reaching, consumed⟩
    have split : quote :: (raw ++ quote :: gap) = quote :: (raw ++ [quote]) ++ gap := by simp
    rw [split] at consumed
    rcases Cursor.consumes_append_iff.1 consumed with ⟨closed, closing, leaving⟩
    have solidEquals : StartsSolid skipped.rest := by
      rw [equating.1]
      exact startsOutside_cons_iff.2 (by decide)
    have solidQuote : StartsSolid reached.rest := by
      rw [closing.1]
      rcases isQuote with rfl | rfl <;> exact startsOutside_cons_iff.2 (by decide)
    have endsName : EndsName named.rest := by
      rw [skipping.1, equating.1]
      exact beforeBlank.endsName_append (startsOutside_cons_iff.2 (by decide))
    refine bind_eq_ok_iff.2 ⟨(name, named), Cursor.readName_eq_ok_iff.2 ⟨naming, endsName⟩, ?_⟩
    simp only [Cursor.skipBlanks_eq_iff.2 ⟨before, beforeBlank, solidEquals, skipping⟩]
    refine bind_eq_ok_iff.2 ⟨equated, Cursor.expect_eq_ok_iff.2 equating, ?_⟩
    simp only [Cursor.skipBlanks_eq_iff.2 ⟨after, afterBlank, solidQuote, reaching⟩]
    refine bind_eq_ok_iff.2 ⟨(String.ofList (Entity.decode raw), closed), ?_, ?_⟩
    · exact readQuoted_eq_ok_iff.2 ⟨quote, raw, isQuote, absent, rfl, closing⟩
    · simp only [Cursor.skipBlanks_eq_iff.2 ⟨gap, gapBlank, solid, leaving⟩]
      rfl

/-! ## Tags -/

theorem attributeFollows_eq_false_iff {cursor : Cursor} :
    attributeFollows cursor = false ↔
      ∀ character ∈ cursor.rest.head?, character = '>' ∨ character = '/' := by
  rw [attributeFollows, Cursor.current?]
  cases cursor.rest.head? with
  | none => simp
  | some first =>
      simp only [Option.mem_def, Option.some.injEq, forall_eq', Bool.and_eq_false_iff,
        bne_eq_false_iff_eq]

/-- What follows the attributes of a start tag is outside every class of characters that
holds neither of the characters that end the tag. -/
theorem startsOutside_of_attributeFollows {holds : Char → Bool} {cursor : Cursor}
    (finished : attributeFollows cursor = false) (close : holds '>' = false)
    (slash : holds '/' = false) : StartsOutside holds cursor.rest := by
  intro character first
  rcases attributeFollows_eq_false_iff.1 finished character first with rfl | rfl
  · exact close
  · exact slash

theorem attributeFollows_of_name {cursor : Cursor} {name : Name} {rest : List Char}
    (follows : cursor.rest = name.text.toList ++ rest) : attributeFollows cursor = true := by
  rcases name.exists_first with ⟨first, others, characters, starts⟩
  rw [← Bool.not_eq_false, attributeFollows_eq_false_iff, follows, characters]
  intro finished
  rcases finished first rfl with rfl | rfl
  · cases starts
  · cases starts

theorem exists_name_of_attribute {text : List Char} {entry : Name × List Char}
    (written : Attribute text entry) : ∃ rest, text = entry.1.text.toList ++ rest := by
  rcases written with ⟨name, _, _, _, _, _, _, _, _, _, _⟩
  exact ⟨_, rfl⟩

theorem startsSolid_of_attributeList {text rest : List Char}
    {entries : List (Name × List Char)} (written : AttributeList text entries)
    (solid : StartsSolid rest) : StartsSolid (text ++ rest) := by
  cases written with
  | nil => exact solid
  | cons first others =>
      rcases exists_name_of_attribute first with ⟨remainder, rfl⟩
      rw [List.append_assoc, List.append_assoc]
      exact Name.startsSolid _ _

theorem readAttributes_eq_ok_iff {cursor next : Cursor} {given attributes : Attributes} :
    readAttributes given cursor = .ok (attributes, next) ↔
      ∃ text entries, AttributeList text entries ∧ cursor.Consumes text next ∧
        attributeFollows next = false ∧
        attributes = (entries.map decodedEntry).foldl
          (fun attributes (name, value) => attributes.set name value) given := by
  constructor
  · intro read
    fun_induction readAttributes given cursor with
    | case1 => cases read
    | case2 given cursor follows name value middle entryRead induction =>
        rcases readAttribute_eq_ok_iff.1 entryRead with ⟨first, raw, written, rfl, consumed, solid⟩
        rcases induction read with ⟨text, entries, listed, remaining, finished, rfl⟩
        exact ⟨_, _, .cons written listed, consumed.trans remaining, finished, rfl⟩
    | case3 given cursor follows =>
        cases read
        refine ⟨[], [], .nil, Cursor.consumes_nil_iff.2 rfl, ?_, rfl⟩
        simpa using follows
  · rintro ⟨text, entries, listed, consumed, finished, rfl⟩
    induction listed generalizing cursor given with
    | nil =>
        rw [Cursor.consumes_nil_iff] at consumed
        subst consumed
        rw [readAttributes, if_neg (by simp [finished])]
        rfl
    | cons first others induction =>
        rename_i entry entries
        rcases Cursor.consumes_append_iff.1 consumed with ⟨middle, firstConsumed, remaining⟩
        have solid : StartsSolid middle.rest := by
          rw [remaining.1]
          apply startsSolid_of_attributeList others
          exact startsOutside_of_attributeFollows finished (by decide) (by decide)
        have follows : attributeFollows cursor = true := by
          rcases exists_name_of_attribute first with ⟨rest, rfl⟩
          have starts := firstConsumed.1
          rw [List.append_assoc] at starts
          exact attributeFollows_of_name starts
        have read := readAttribute_eq_ok_iff.2 ⟨_, entry.2, first, rfl, firstConsumed, solid⟩
        rw [readAttributes, if_pos follows]
        split
        · rename_i failed
          rw [read] at failed
          cases failed
        · rename_i succeeded
          rw [read] at succeeded
          cases succeeded
          exact induction remaining

/-- The reading of a start tag up to what ends it. -/
theorem readStartTag_eq_ok_iff {cursor next : Cursor} {tag : StartTag} :
    readStartTag cursor = .ok (tag, next) ↔
      ∃ head name entries middle, TagHead head name entries ∧ cursor.Consumes head middle ∧
        attributeFollows middle = false ∧
        readStartTagEnd name (attributesOf entries) middle = .ok (tag, next) := by
  constructor
  · intro read
    rcases bind_eq_ok_iff.1 read with ⟨opened, expected, read⟩
    rcases bind_eq_ok_iff.1 read with ⟨⟨name, named⟩, naming, read⟩
    rcases bind_eq_ok_iff.1 read with ⟨⟨attributes, middle⟩, listing, read⟩
    rw [Cursor.expect_eq_ok_iff] at expected
    rw [Cursor.readName_eq_ok_iff] at naming
    rcases Cursor.skipBlanks_eq_iff.1 (rfl : named.skipBlanks = _) with ⟨gap, blank, -, skipped⟩
    rcases readAttributes_eq_ok_iff.1 listing with ⟨list, entries, listed, consumed, finished, rfl⟩
    have munched := naming.2
    rw [(skipped.trans consumed).1] at munched
    refine ⟨_, name, entries, middle, .intro name gap list entries blank listed
      munched.of_append, ?_, finished, read⟩
    exact expected.trans (naming.1.trans (skipped.trans consumed))
  · rintro ⟨head, name, entries, middle, ⟨_, gap, list, _, blank, listed, munched⟩, consumed,
      finished, read⟩
    rcases Cursor.consumes_cons_iff.1 consumed with ⟨opened, expected, consumed⟩
    rcases Cursor.consumes_append_iff.1 consumed with ⟨named, naming, consumed⟩
    have endsName : EndsName named.rest := by
      rw [consumed.1]
      apply munched.append
      exact startsOutside_of_attributeFollows finished (by decide) (by decide)
    rcases Cursor.consumes_append_iff.1 consumed with ⟨skipped, skipping, listing⟩
    have solid : StartsSolid skipped.rest := by
      rw [listing.1]
      apply startsSolid_of_attributeList listed
      exact startsOutside_of_attributeFollows finished (by decide) (by decide)
    refine bind_eq_ok_iff.2 ⟨opened, Cursor.expect_eq_ok_iff.2 expected, ?_⟩
    refine bind_eq_ok_iff.2 ⟨(name, named), Cursor.readName_eq_ok_iff.2 ⟨naming, endsName⟩, ?_⟩
    simp only [Cursor.skipBlanks_eq_iff.2 ⟨gap, blank, solid, skipping⟩]
    refine bind_eq_ok_iff.2 ⟨(attributesOf entries, middle), ?_, read⟩
    exact readAttributes_eq_ok_iff.2 ⟨list, entries, listed, listing, finished, rfl⟩

theorem readStartTagEnd_eq_ok_iff {cursor next : Cursor} {name : Name} {attributes : Attributes}
    {tag : StartTag} :
    readStartTagEnd name attributes cursor = .ok (tag, next) ↔
      (tag = .empty name attributes ∧ cursor.Consumes "/>".toList next) ∨
        (tag = .opening name attributes ∧ cursor.Consumes ">".toList next) := by
  rw [readStartTagEnd]
  split
  · rename_i starts
    rcases Cursor.startsWith_iff.1 starts with ⟨rest, follows⟩
    have consumed := Cursor.consumes_skip follows
    constructor
    · intro read
      cases read
      exact .inl ⟨rfl, consumed⟩
    · rintro (⟨rfl, given⟩ | ⟨rfl, given⟩)
      · rw [given.unique consumed]
        rfl
      · rw [given.1] at follows
        cases follows
  · rename_i different
    constructor
    · intro read
      rcases bind_eq_ok_iff.1 read with ⟨closed, expected, read⟩
      cases read
      exact .inr ⟨rfl, Cursor.expect_eq_ok_iff.1 expected⟩
    · rintro (⟨rfl, given⟩ | ⟨rfl, given⟩)
      · exact absurd (Cursor.startsWith_iff.2 ⟨_, given.1⟩) different
      · exact bind_eq_ok_iff.2 ⟨next, Cursor.expect_eq_ok_iff.2 given, rfl⟩

theorem readStartTag_eq_empty_iff {cursor next : Cursor} {name : Name}
    {attributes : Attributes} :
    readStartTag cursor = .ok (.empty name attributes, next) ↔
      ∃ head entries, TagHead head name entries ∧ attributes = attributesOf entries ∧
        cursor.Consumes (head ++ "/>".toList) next := by
  rw [readStartTag_eq_ok_iff]
  constructor
  · rintro ⟨head, _, entries, middle, written, consumed, -, ended⟩
    rcases readStartTagEnd_eq_ok_iff.1 ended with ⟨equal, closing⟩ | ⟨equal, -⟩
    · cases equal
      exact ⟨head, entries, written, rfl, consumed.trans closing⟩
    · cases equal
  · rintro ⟨head, entries, written, rfl, consumed⟩
    rcases Cursor.consumes_append_iff.1 consumed with ⟨middle, consumed, closing⟩
    refine ⟨head, name, entries, middle, written, consumed, ?_, ?_⟩
    · rw [attributeFollows_eq_false_iff, closing.1]
      simp
    · exact readStartTagEnd_eq_ok_iff.2 (.inl ⟨rfl, closing⟩)

theorem readStartTag_eq_opening_iff {cursor next : Cursor} {name : Name}
    {attributes : Attributes} :
    readStartTag cursor = .ok (.opening name attributes, next) ↔
      ∃ head entries, TagHead head name entries ∧ attributes = attributesOf entries ∧
        cursor.Consumes (head ++ ">".toList) next := by
  rw [readStartTag_eq_ok_iff]
  constructor
  · rintro ⟨head, _, entries, middle, written, consumed, -, ended⟩
    rcases readStartTagEnd_eq_ok_iff.1 ended with ⟨equal, -⟩ | ⟨equal, closing⟩
    · cases equal
    · cases equal
      exact ⟨head, entries, written, rfl, consumed.trans closing⟩
  · rintro ⟨head, entries, written, rfl, consumed⟩
    rcases Cursor.consumes_append_iff.1 consumed with ⟨middle, consumed, closing⟩
    refine ⟨head, name, entries, middle, written, consumed, ?_, ?_⟩
    · rw [attributeFollows_eq_false_iff, closing.1]
      simp
    · exact readStartTagEnd_eq_ok_iff.2 (.inr ⟨rfl, closing⟩)

theorem readEndTag_eq_ok_iff {cursor next : Cursor} {name : Name} :
    readEndTag cursor = .ok (name, next) ↔
      ∃ text, EndTag text name ∧ cursor.Consumes text next := by
  constructor
  · intro read
    rcases bind_eq_ok_iff.1 read with ⟨opened, expected, read⟩
    rcases bind_eq_ok_iff.1 read with ⟨⟨target, named⟩, naming, read⟩
    rcases bind_eq_ok_iff.1 read with ⟨closed, ended, read⟩
    cases read
    rw [Cursor.expect_eq_ok_iff] at expected ended
    rw [Cursor.readName_eq_ok_iff] at naming
    rcases Cursor.skipBlanks_eq_iff.1 (rfl : named.skipBlanks = _) with ⟨gap, blank, -, skipped⟩
    exact ⟨_, .intro _ gap blank, expected.trans (naming.1.trans (skipped.trans ended))⟩
  · rintro ⟨text, ⟨_, gap, blank⟩, consumed⟩
    rcases Cursor.consumes_append_iff.1 consumed with ⟨opened, expected, consumed⟩
    rcases Cursor.consumes_append_iff.1 consumed with ⟨named, naming, consumed⟩
    rcases Cursor.consumes_append_iff.1 consumed with ⟨skipped, skipping, ended⟩
    have solid : StartsSolid skipped.rest := by
      rw [ended.1]
      exact startsOutside_cons_iff.2 (by decide)
    have endsName : EndsName named.rest := by
      rw [consumed.1, List.append_assoc]
      exact blank.endsName_append (startsOutside_cons_iff.2 (by decide))
    refine bind_eq_ok_iff.2 ⟨opened, Cursor.expect_eq_ok_iff.2 expected, ?_⟩
    refine bind_eq_ok_iff.2 ⟨(name, named), Cursor.readName_eq_ok_iff.2 ⟨naming, endsName⟩, ?_⟩
    simp only [Cursor.skipBlanks_eq_iff.2 ⟨gap, blank, solid, skipping⟩]
    exact bind_eq_ok_iff.2 ⟨next, Cursor.expect_eq_ok_iff.2 ended, rfl⟩

end XmlGrove.Parse
