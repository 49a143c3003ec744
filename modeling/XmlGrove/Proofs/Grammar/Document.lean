import XmlGrove.Parse.Input
import XmlGrove.Proofs.Grammar.Content

/-!
# Reading documents by the grammar

The parser accepts exactly the texts of the grammar, and yields the documents that they denote.
-/

namespace XmlGrove.Parse

open Grammar

variable {options : ParserOptions}

/-! ## The prologue -/

theorem skipBlanks_eq_of_consumes {cursor next : Cursor} {gap : List Char} (blank : Blanks gap)
    (solid : StartsSolid next.rest) (consumed : cursor.Consumes gap next) :
    cursor.skipBlanks = next :=
  Cursor.skipBlanks_eq_iff.2 ⟨gap, blank, solid, consumed⟩

theorem startsWith_instruction_of_comment {cursor : Cursor}
    (starts : cursor.startsWith "<!--" = true) : cursor.startsWith "<?" = false := by
  rcases Cursor.startsWith_iff.1 starts with ⟨rest, follows⟩
  rw [Cursor.startsWith, follows]
  rfl

theorem startsSolid_of_prologue {text rest : List Char} {leaves : List Leaf}
    (written : Prologue text leaves) (solid : StartsSolid rest) :
    StartsSolid (text ++ rest) := by
  cases written with
  | nil => exact solid
  | comment first _ _ =>
      rcases first with ⟨_, _⟩
      exact startsOutside_cons_iff.2 (by decide)
  | instruction first _ _ =>
      rcases first with ⟨_, _, _, _, _, _, _⟩
      exact startsOutside_cons_iff.2 (by decide)

theorem readPrologue_sound {cursor next : Cursor} {kept : List Leaf}
    (read : readPrologue options cursor = .ok (kept, next)) :
    ∃ text leaves, Prologue text leaves ∧ kept = leaves.filter (keeps options) ∧
      cursor.Consumes text next := by
  fun_induction readPrologue options cursor generalizing kept with
  | case1 => cases read
  | case2 cursor starts target content middle instructionRead induction =>
      rcases readInstruction_eq_ok_iff.1 instructionRead with ⟨first, body, written, rfl, consumed⟩
      rcases Cursor.skipBlanks_eq_iff.1 (rfl : middle.skipBlanks = _) with
        ⟨gap, blank, solid, skipped⟩
      rcases map_eq_ok_iff.1 read with ⟨⟨others, last⟩, othersRead, equal⟩
      cases equal
      rcases induction othersRead with ⟨text, leaves, writtenOthers, rfl, remaining⟩
      refine ⟨_, _, .instruction written blank writtenOthers, ?_,
        consumed.trans (skipped.trans remaining)⟩
      rw [← List.filter_append, List.singleton_append]
  | case3 => cases read
  | case4 cursor _ starts content middle commentRead induction =>
      rcases readComment_eq_ok_iff.1 commentRead with ⟨first, body, written, rfl, consumed⟩
      rcases Cursor.skipBlanks_eq_iff.1 (rfl : middle.skipBlanks = _) with
        ⟨gap, blank, solid, skipped⟩
      rcases map_eq_ok_iff.1 read with ⟨⟨others, last⟩, othersRead, equal⟩
      cases equal
      rcases induction othersRead with ⟨text, leaves, writtenOthers, rfl, remaining⟩
      refine ⟨_, _, .comment written blank writtenOthers, ?_,
        consumed.trans (skipped.trans remaining)⟩
      rw [← List.filter_append, List.singleton_append]
  | case5 cursor =>
      cases read
      exact ⟨[], [], .nil, rfl, Cursor.consumes_nil_iff.2 rfl⟩

/-- A place where a prologue ends: nothing blank, no comment and no instruction follows. -/
structure EndsPrologue (cursor : Cursor) : Prop where
  solid : StartsSolid cursor.rest
  no_instruction : cursor.startsWith "<?" = false
  no_comment : cursor.startsWith "<!--" = false

theorem skipBlanks_eq_of_prologue {cursor middle next : Cursor} {gap text : List Char}
    {leaves : List Leaf} (blank : Blanks gap) (skipping : cursor.Consumes gap middle)
    (written : Prologue text leaves) (consumed : middle.Consumes text next)
    (ends : EndsPrologue next) : cursor.skipBlanks = middle := by
  apply skipBlanks_eq_of_consumes blank _ skipping
  rw [consumed.1]
  exact startsSolid_of_prologue written ends.solid

theorem readPrologue_eq_of_comment {cursor : Cursor}
    (starts : cursor.startsWith "<!--" = true) :
    readPrologue options cursor = readComment cursor >>= fun (content, next) =>
      (readPrologue options next.skipBlanks).map fun (leaves, cursor) =>
        ([Leaf.comment content].filter (keeps options) ++ leaves, cursor) := by
  rw [readPrologue, if_neg (by simp [startsWith_instruction_of_comment starts]), if_pos starts]
  split
  · rename_i failed
    rw [failed]
    rfl
  · rename_i read
    rw [read]
    rfl

theorem readPrologue_eq_of_instruction {cursor : Cursor}
    (starts : cursor.startsWith "<?" = true) :
    readPrologue options cursor = readInstruction cursor >>= fun ((target, content), next) =>
      (readPrologue options next.skipBlanks).map fun (leaves, cursor) =>
        ([Leaf.instruction target content].filter (keeps options) ++ leaves, cursor) := by
  rw [readPrologue, if_pos starts]
  split
  · rename_i failed
    rw [failed]
    rfl
  · rename_i read
    rw [read]
    rfl

theorem readPrologue_of_comment {cursor next : Cursor} {content : String}
    (starts : cursor.startsWith "<!--" = true) (read : readComment cursor = .ok (content, next)) :
    readPrologue options cursor =
      (readPrologue options next.skipBlanks).map fun (leaves, cursor) =>
        ([Leaf.comment content].filter (keeps options) ++ leaves, cursor) := by
  rw [readPrologue_eq_of_comment starts, read]
  rfl

theorem readPrologue_of_instruction {cursor next : Cursor} {target : Name} {content : String}
    (starts : cursor.startsWith "<?" = true)
    (read : readInstruction cursor = .ok ((target, content), next)) :
    readPrologue options cursor =
      (readPrologue options next.skipBlanks).map fun (leaves, cursor) =>
        ([Leaf.instruction target content].filter (keeps options) ++ leaves, cursor) := by
  rw [readPrologue_eq_of_instruction starts, read]
  rfl

theorem readPrologue_complete (options : ParserOptions) {text : List Char} {leaves : List Leaf}
    (written : Prologue text leaves) {cursor next : Cursor}
    (consumed : cursor.Consumes text next) (ends : EndsPrologue next) :
    readPrologue options cursor = .ok (leaves.filter (keeps options), next) := by
  induction written generalizing cursor with
  | nil =>
      rw [Cursor.consumes_nil_iff] at consumed
      subst consumed
      rw [readPrologue, if_neg (by simp [ends.no_instruction]),
        if_neg (by simp [ends.no_comment])]
      rfl
  | comment first blank others induction =>
      rcases Cursor.consumes_append_iff.1 consumed with ⟨middle, firstConsumed, consumed⟩
      rcases Cursor.consumes_append_iff.1 consumed with ⟨skipped, skipping, remaining⟩
      rw [readPrologue_of_comment (startsWith_of_enclosed first firstConsumed)
          (readComment_eq_ok_iff.2 ⟨_, _, first, rfl, firstConsumed⟩),
        skipBlanks_eq_of_prologue blank skipping others remaining ends, induction remaining,
        Except.map]
      dsimp only
      rw [← List.filter_append, List.singleton_append]
  | instruction first blank others induction =>
      rcases Cursor.consumes_append_iff.1 consumed with ⟨middle, firstConsumed, consumed⟩
      rcases Cursor.consumes_append_iff.1 consumed with ⟨skipped, skipping, remaining⟩
      rw [readPrologue_of_instruction (startsWith_of_instruction first firstConsumed)
          (readInstruction_eq_ok_iff.2 ⟨_, _, first, rfl, firstConsumed⟩),
        skipBlanks_eq_of_prologue blank skipping others remaining ends, induction remaining,
        Except.map]
      dsimp only
      rw [← List.filter_append, List.singleton_append]

/-! ## What precedes the root

The very first leaf is read on its own, as it may be the declaration. -/

theorem leading_sound {cursor middle next : Cursor} {opening : Opening} {kept : List Leaf}
    (openingRead : readOpening cursor = .ok (opening, middle))
    (prologueRead : readPrologue options middle = .ok (kept, next)) :
    ∃ text leaves, Prologue text leaves ∧ cursor.Consumes text next ∧
      ∀ root, assemble options opening kept root = documentOf options leaves root := by
  rcases readPrologue_sound prologueRead with ⟨text, leaves, written, rfl, remaining⟩
  rw [readOpening] at openingRead
  split at openingRead
  · rcases bind_eq_ok_iff.1 openingRead with
      ⟨⟨⟨target, content⟩, behind⟩, instructionRead, openingRead⟩
    rcases readInstruction_eq_ok_iff.1 instructionRead with
      ⟨first, body, writtenFirst, rfl, consumed⟩
    rcases Cursor.skipBlanks_eq_iff.1 (rfl : behind.skipBlanks = _) with
      ⟨gap, blank, solid, skipped⟩
    have whole := Prologue.instruction writtenFirst blank written
    dsimp only at openingRead
    split at openingRead
    · rename_i declared
      cases openingRead
      refine ⟨_, _, whole, consumed.trans (skipped.trans remaining), fun root => ?_⟩
      rw [assemble, documentOf, if_pos declared]
    · rename_i other
      cases openingRead
      refine ⟨_, _, whole, consumed.trans (skipped.trans remaining), fun root => ?_⟩
      rw [assemble, documentOf, if_neg other, ← List.filter_append, List.singleton_append]
  · rename_i different
    cases openingRead
    refine ⟨text, leaves, written, remaining, fun root => ?_⟩
    cases written with
    | nil => rfl
    | comment first blank others => rfl
    | instruction first blank others =>
        rcases Cursor.consumes_append_iff.1 remaining with ⟨middle, consumed, -⟩
        exact absurd (startsWith_of_instruction first consumed) different

theorem leading_complete (options : ParserOptions) {text : List Char} {leaves : List Leaf}
    (written : Prologue text leaves) {cursor next : Cursor}
    (consumed : cursor.Consumes text next) (ends : EndsPrologue next) :
    ∃ opening middle kept, readOpening cursor = .ok (opening, middle) ∧
      readPrologue options middle = .ok (kept, next) ∧
      ∀ root, assemble options opening kept root = documentOf options leaves root := by
  have whole := readPrologue_complete options written consumed ends
  cases written with
  | nil =>
      have same := Cursor.consumes_nil_iff.1 consumed
      refine ⟨.nothing, cursor, _, ?_, whole, fun root => rfl⟩
      rw [readOpening, if_neg (by simp [← same, ends.no_instruction])]
      rfl
  | comment first blank others =>
      rcases Cursor.consumes_append_iff.1 consumed with ⟨middle, firstConsumed, -⟩
      have starts := startsWith_of_enclosed first firstConsumed
      refine ⟨.nothing, cursor, _, ?_, whole, fun root => rfl⟩
      rw [readOpening, if_neg (by simp [startsWith_instruction_of_comment starts])]
      rfl
  | @instruction _ gap _ body target leaves first blank others =>
      rcases Cursor.consumes_append_iff.1 consumed with ⟨middle, firstConsumed, consumed⟩
      rcases Cursor.consumes_append_iff.1 consumed with ⟨skipped, skipping, remaining⟩
      have starts := startsWith_of_instruction first firstConsumed
      have blanks := skipBlanks_eq_of_prologue blank skipping others remaining ends
      have read := readInstruction_eq_ok_iff.2 ⟨_, _, first, rfl, firstConsumed⟩
      have rest := readPrologue_complete options others remaining ends
      by_cases declared : target = Name.xml
      · refine ⟨.declaration (String.ofList body), skipped, _, ?_, rest, fun root => ?_⟩
        · rw [readOpening, if_pos starts]
          refine bind_eq_ok_iff.2 ⟨_, read, ?_⟩
          dsimp only
          rw [if_pos declared, blanks]
          rfl
        · rw [assemble, documentOf, if_pos declared]
      · refine ⟨.node (.instruction target (String.ofList body)), skipped, _, ?_, rest,
          fun root => ?_⟩
        · rw [readOpening, if_pos starts]
          refine bind_eq_ok_iff.2 ⟨_, read, ?_⟩
          dsimp only
          rw [if_neg declared, blanks]
          rfl
        · rw [assemble, documentOf, if_neg declared, ← List.filter_append,
            List.singleton_append]

/-! ## Whole documents -/

theorem exists_tagHead_of_element {text : List Char} {name : Name}
    {entries : List (Name × List Char)} {pieces : List Piece}
    (fragment : Fragment text (.element name entries pieces)) :
    ∃ head rest, TagHead head name entries ∧ text = head ++ rest := by
  cases fragment with
  | empty written => exact ⟨_, _, written, rfl⟩
  | paired written _ _ => exact ⟨_, _, written, List.append_assoc _ _ _⟩

/-- Nothing that precedes a root could start where one does. -/
theorem endsPrologue_of_tagHead {cursor : Cursor} {head rest : List Char} {name : Name}
    {entries : List (Name × List Char)} (written : TagHead head name entries)
    (follows : cursor.rest = head ++ rest) :
    EndsPrologue cursor ∧ cursor.startsWith "<!DOCTYPE" = false := by
  rcases written with ⟨_, gap, list, _, _, _, _⟩
  rcases name.exists_first with ⟨first, others, characters, starts⟩
  have noBang : first ≠ '!' := by
    rintro rfl
    cases starts
  have noQuestion : first ≠ '?' := by
    rintro rfl
    cases starts
  rw [characters] at follows
  refine ⟨⟨?_, ?_, ?_⟩, ?_⟩
  · rw [follows]
    exact startsOutside_cons_iff.2 (by decide)
  · simp [Cursor.startsWith, follows, List.isPrefixOf, noQuestion.symm]
  · simp [Cursor.startsWith, follows, List.isPrefixOf, noBang.symm]
  · simp [Cursor.startsWith, follows, List.isPrefixOf, noBang.symm]

theorem consumes_start (text : List Char) :
    ∃ last, (Cursor.start text).Consumes text last ∧ last.rest = [] := by
  refine ⟨_, Cursor.consumes_skip (List.append_nil text).symm, ?_⟩
  rw [Cursor.rest_skip, Cursor.start, List.drop_length]

theorem document_sound {text : List Char} {parsed : ParsedDocument}
    (read : document options text = .ok parsed) :
    ∃ leaves name entries pieces, Grammar.Document text leaves (.element name entries pieces) ∧
      parsed = documentOf options leaves
        (.tag name (attributesOf entries) (nodesOf options [] pieces)) := by
  rcases bind_eq_ok_iff.1 read with ⟨⟨opening, opened⟩, openingRead, read⟩
  rcases bind_eq_ok_iff.1 read with ⟨⟨kept, reached⟩, prologueRead, read⟩
  rcases bind_eq_ok_iff.1 read with ⟨_, _, read⟩
  rcases bind_eq_ok_iff.1 read with ⟨⟨root, closed⟩, rootRead, read⟩
  rcases bind_eq_ok_iff.1 read with ⟨_, finished, read⟩
  cases read
  rcases Cursor.skipBlanks_eq_iff.1 (rfl : (Cursor.start text).skipBlanks = _) with
    ⟨before, blankBefore, -, skipped⟩
  rcases leading_sound openingRead prologueRead with ⟨leading, leaves, written, consumed, denoted⟩
  rcases readElement_eq_ok_iff.1 rootRead with
    ⟨element, name, entries, pieces, fragment, rfl, remaining⟩
  rcases Cursor.skipBlanks_eq_iff.1 (rfl : closed.skipBlanks = _) with ⟨after, blankAfter, -, left⟩
  have whole := (skipped.trans (consumed.trans (remaining.trans left))).1
  have exhausted : closed.skipBlanks.rest = [] := by
    rw [refuseTrailingContent] at finished
    split at finished
    · rename_i ended
      exact List.isEmpty_iff.1 ended
    · cases finished
  rw [exhausted, List.append_nil] at whole
  refine ⟨leaves, name, entries, pieces, ?_, denoted _⟩
  have derived := Grammar.Document.intro blankBefore written fragment blankAfter
  rw [← whole] at derived
  exact derived

theorem document_complete (options : ParserOptions) {text : List Char} {leaves : List Leaf}
    {name : Name}
    {entries : List (Name × List Char)} {pieces : List Piece}
    (derived : Grammar.Document text leaves (.element name entries pieces)) :
    document options text = .ok (documentOf options leaves
      (.tag name (attributesOf entries) (nodesOf options [] pieces))) := by
  rcases derived with
    @⟨before, leading, element, after, _, _, _, _, blankBefore, written, fragment, blankAfter⟩
  rcases consumes_start (before ++ (leading ++ (element ++ after))) with ⟨last, consumed, exhausted⟩
  rcases Cursor.consumes_append_iff.1 consumed with ⟨entered, skipping, consumed⟩
  rcases Cursor.consumes_append_iff.1 consumed with ⟨reached, leadingConsumed, consumed⟩
  rcases Cursor.consumes_append_iff.1 consumed with ⟨closed, elementConsumed, left⟩
  rcases exists_tagHead_of_element fragment with ⟨head, rest, tagged, rfl⟩
  have follows := elementConsumed.1
  rw [List.append_assoc] at follows
  rcases endsPrologue_of_tagHead tagged follows with ⟨ends, undeclared⟩
  have solid : StartsSolid entered.rest := by
    rw [leadingConsumed.1]
    exact startsSolid_of_prologue written ends.solid
  rcases leading_complete options written leadingConsumed ends with
    ⟨opening, middle, kept, openingRead, prologueRead, denoted⟩
  have rootRead : readElement options reached = .ok (.tag name (attributesOf entries)
      (nodesOf options [] pieces), closed) :=
    readElement_eq_ok_iff.2 ⟨_, name, entries, pieces, fragment, rfl, elementConsumed⟩
  have blankEnd : closed.skipBlanks = last :=
    skipBlanks_eq_of_consumes blankAfter (exhausted ▸ startsOutside_nil _) left
  rw [document, skipBlanks_eq_of_consumes blankBefore solid skipping]
  refine bind_eq_ok_iff.2 ⟨_, openingRead, ?_⟩
  refine bind_eq_ok_iff.2 ⟨_, prologueRead, ?_⟩
  refine bind_eq_ok_iff.2 ⟨(), by rw [refuseDocumentType, undeclared]; rfl, ?_⟩
  refine bind_eq_ok_iff.2 ⟨_, rootRead, ?_⟩
  dsimp only
  rw [blankEnd]
  refine bind_eq_ok_iff.2 ⟨(), ?_, ?_⟩
  · rw [refuseTrailingContent, Cursor.atEnd, exhausted]
    rfl
  · exact congrArg Except.ok (denoted _)

/-! ## The parser -/

theorem parse_text_eq (options : ParserOptions) (content : String) :
    (Input.text content).parse options =
      ((document options content.toList).mapError Fault.parsing).map
        fun parsed => (parsed, parsed.warning?) := by
  change ((document options content.toList).mapError Fault.parsing >>= _) = _
  cases document options content.toList with
  | error fault => rfl
  | ok parsed => rfl

/-- Parsing a text succeeds exactly if the text is derivable as a document, and yields the
document that the derivation denotes. -/
theorem parse_text_eq_ok_iff_derivable (options : ParserOptions) (content : String)
    (parsed : ParsedDocument) (note : Option String) :
    (Input.text content).parse options = .ok (parsed, note) ↔
      ∃ leaves name entries pieces,
        Grammar.Document content.toList leaves (.element name entries pieces) ∧
        parsed = documentOf options leaves
          (.tag name (attributesOf entries) (nodesOf options [] pieces)) ∧
        note = parsed.warning? := by
  rw [parse_text_eq]
  constructor
  · intro succeeded
    cases read : document options content.toList with
    | error fault =>
        rw [read] at succeeded
        cases succeeded
    | ok denoted =>
        rw [read] at succeeded
        cases succeeded
        rcases document_sound read with ⟨leaves, name, entries, pieces, derived, equal⟩
        exact ⟨leaves, name, entries, pieces, derived, equal, rfl⟩
  · rintro ⟨leaves, name, entries, pieces, derived, rfl, rfl⟩
    rw [document_complete options derived]
    rfl

end XmlGrove.Parse
