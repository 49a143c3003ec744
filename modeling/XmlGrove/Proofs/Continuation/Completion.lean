import XmlGrove.Proofs.Continuation.Document

/-!
# Texts that end too early

Where a text ends within a construct, that construct can be ended, and so can all tags that are
open around it. What is read of the text so far is in front of that, hence each text at whose end
something is missed can be completed to a document.
-/

namespace XmlGrove.Parse

open Grammar

variable {options : ParserOptions} {cursor : Cursor} {fault : ParsingFault}

/-! ## Markup -/

theorem not_unexpectedEnd_of_grammar {reading : Except ParsingFault α}
    (limited : FailsOnly [.grammar] reading) (failed : reading = .error fault) :
    fault.kind ≠ .unexpectedEnd := by
  intro ended
  have grammatical := limited fault failed
  rw [ended] at grammatical
  exact absurd grammatical (by decide)

/-- What is missed at the end of a text is missed behind what was demanded before it. -/
theorem exists_ok_of_missed {first : Except ParsingFault α} {next : α → Except ParsingFault β}
    (limited : FailsOnly [.grammar] first) (failed : (first >>= next) = .error fault)
    (ended : fault.kind = .unexpectedEnd) :
    ∃ value, first = .ok value ∧ next value = .error fault := by
  rcases bind_eq_error_iff.1 failed with missing | succeeded
  · exact absurd ended (not_unexpectedEnd_of_grammar limited missing)
  · exact succeeded

theorem not_infix_of_readUntil {delimiter construct : String}
    (failed : cursor.readUntil delimiter construct = .error fault) :
    ¬ delimiter.toList <:+: cursor.rest := by
  rw [Cursor.readUntil] at failed
  split at failed
  · rename_i missing
    intro inside
    have found := Text.cut?_isSome_iff.2 inside
    rw [missing] at found
    cases found
  · cases failed

/-- A body that lacks the literal behind it is enclosed once that is added. -/
private theorem exists_enclosed_of_missed {opening closing construct : String}
    (front : List Char) {last : Char} (split : closing.toList = front ++ [last])
    (unique : last ∉ front)
    (failed : (do
      let cursor ← cursor.expect opening
      let (body, cursor) ← cursor.readUntil closing construct
      return (String.ofList body, cursor)) = Except.error fault)
    (ended : fault.kind = .unexpectedEnd) :
    ∃ body, Enclosed opening closing (cursor.rest ++ closing.toList) body := by
  rcases exists_ok_of_missed (failsOnly_expect (by decide) _ _) failed ended with
    ⟨opened, expected, failed⟩
  rcases bind_eq_error_iff.1 failed with missed | ⟨_, _, failed⟩
  · have elsewhere := not_infix_of_readUntil missed
    rw [split] at elsewhere
    have ends := endsFirst_of_not_infix front unique elsewhere
    rw [← split] at ends
    refine ⟨opened.rest, ?_⟩
    rw [(Cursor.expect_eq_ok_iff.1 expected).1, List.append_assoc]
    exact .intro opened.rest ends
  · cases failed

theorem exists_comment_of_missed (failed : readComment cursor = .error fault)
    (ended : fault.kind = .unexpectedEnd) :
    ∃ body, Comment (cursor.rest ++ "-->".toList) body :=
  exists_enclosed_of_missed "--".toList rfl (by decide) failed ended

theorem exists_cdata_of_missed (failed : readCData cursor = .error fault)
    (ended : fault.kind = .unexpectedEnd) :
    ∃ body, CData (cursor.rest ++ "]]>".toList) body :=
  exists_enclosed_of_missed "]]".toList rfl (by decide) failed ended

theorem exists_instruction_of_missed (failed : readInstruction cursor = .error fault)
    (ended : fault.kind = .unexpectedEnd) :
    ∃ target body, Instruction (cursor.rest ++ "?>".toList) target body := by
  rcases exists_ok_of_missed (failsOnly_expect (by decide) _ _) failed ended with
    ⟨opened, expected, failed⟩
  rcases exists_ok_of_missed (failsOnly_readName (by decide) _) failed ended with
    ⟨⟨target, named⟩, naming, failed⟩
  rcases bind_eq_error_iff.1 failed with missed | ⟨_, _, failed⟩
  · rcases Cursor.readName_eq_ok_iff.1 naming with ⟨consumed, endsName⟩
    rcases Cursor.skipBlanks_eq_iff.1 (rfl : named.skipBlanks = _) with
      ⟨gap, blank, solid, skipped⟩
    have ends : EndsFirst "?>".toList named.skipBlanks.rest :=
      endsFirst_of_not_infix ['?'] (by decide) (not_infix_of_readUntil missed)
    rw [skipped.1] at endsName
    have written := Instruction.intro target gap _ blank solid endsName ends
    refine ⟨target, named.skipBlanks.rest, ?_⟩
    rw [(Cursor.expect_eq_ok_iff.1 expected).1, consumed.1, skipped.1]
    simpa only [List.append_assoc] using written
  · cases failed

/-! ## Start tags -/

theorem exists_quote_of_missed (failed : readQuoted cursor = .error fault)
    (ended : fault.kind = .unexpectedEnd) :
    ∃ quote raw, (quote = '\x22' ∨ quote = '\x27') ∧ quote ∉ raw ∧ cursor.rest = quote :: raw := by
  rw [readQuoted] at failed
  split at failed
  · rename_i quote current
    split at failed
    · rename_i isQuote
      rw [Cursor.current?, List.head?_eq_some_iff] at current
      rcases current with ⟨raw, follows⟩
      rcases bind_eq_error_iff.1 failed with missed | ⟨_, _, failed⟩
      · have elsewhere := not_infix_of_readUntil missed
        rw [String.toList_ofList, Cursor.rest_skip, follows, List.drop_one, List.tail_cons]
          at elsewhere
        refine ⟨quote, raw, isQuote, fun member => elsewhere ?_, follows⟩
        rcases List.append_of_mem member with ⟨before, after, equal⟩
        exact ⟨before, after, by rw [equal]; simp⟩
      · cases failed
    · cases failed
      cases ended
  · cases failed
    cases ended

theorem exists_attribute_of_missed (failed : readAttribute cursor = .error fault)
    (ended : fault.kind = .unexpectedEnd) :
    ∃ quote entry, (quote = '\x22' ∨ quote = '\x27') ∧
      Attribute (cursor.rest ++ [quote]) entry := by
  rcases exists_ok_of_missed (failsOnly_readName (by decide) _) failed ended with
    ⟨⟨name, named⟩, naming, failed⟩
  rcases exists_ok_of_missed (failsOnly_expect (by decide) _ _) failed ended with
    ⟨equated, expected, failed⟩
  rcases bind_eq_error_iff.1 failed with missed | ⟨_, _, failed⟩
  · rcases exists_quote_of_missed missed ended with ⟨quote, raw, isQuote, absent, follows⟩
    rcases Cursor.skipBlanks_eq_iff.1 (rfl : named.skipBlanks = _) with
      ⟨before, beforeBlank, -, skipped⟩
    rcases Cursor.skipBlanks_eq_iff.1 (rfl : equated.skipBlanks = _) with
      ⟨after, afterBlank, -, reached⟩
    have written := Attribute.intro name before after raw [] quote beforeBlank afterBlank
      blanks_nil isQuote absent
    refine ⟨quote, (name, raw), isQuote, ?_⟩
    rw [(Cursor.readName_eq_ok_iff.1 naming).1.1, skipped.1,
      (Cursor.expect_eq_ok_iff.1 expected).1, reached.1, follows]
    simpa using written
  · cases failed

theorem exists_attributeList_of_missed {given : Attributes}
    (failed : readAttributes given cursor = .error fault) (ended : fault.kind = .unexpectedEnd) :
    ∃ quote entries, (quote = '\x22' ∨ quote = '\x27') ∧
      AttributeList (cursor.rest ++ [quote]) entries := by
  fun_induction readAttributes given cursor with
  | case1 given cursor follows other missed =>
      cases failed
      rcases exists_attribute_of_missed missed ended with ⟨quote, entry, isQuote, written⟩
      have listed := AttributeList.cons written .nil
      rw [List.append_nil] at listed
      exact ⟨quote, _, isQuote, listed⟩
  | case2 given cursor follows name value next read induction =>
      rcases readAttribute_eq_ok_iff.1 read with ⟨text, raw, written, -, consumed, -⟩
      rcases induction failed with ⟨quote, entries, isQuote, listed⟩
      refine ⟨quote, (name, raw) :: entries, isQuote, ?_⟩
      rw [consumed.1, List.append_assoc]
      exact .cons written listed
  | case3 => cases failed

theorem exists_tagHead_of_missed (failed : readStartTag cursor = .error fault)
    (ended : fault.kind = .unexpectedEnd) :
    ∃ quote name entries, TagHead (cursor.rest ++ [quote]) name entries := by
  rcases exists_ok_of_missed (failsOnly_expect (by decide) _ _) failed ended with
    ⟨opened, expected, failed⟩
  rcases exists_ok_of_missed (failsOnly_readName (by decide) _) failed ended with
    ⟨⟨name, named⟩, naming, failed⟩
  rcases bind_eq_error_iff.1 failed with missed | ⟨⟨attributes, listed⟩, _, failed⟩
  · rcases Cursor.readName_eq_ok_iff.1 naming with ⟨consumed, endsName⟩
    rcases Cursor.skipBlanks_eq_iff.1 (rfl : named.skipBlanks = _) with ⟨gap, blank, -, skipped⟩
    rcases exists_attributeList_of_missed missed ended with ⟨quote, entries, isQuote, listed⟩
    have outside : EndsName [quote] := by
      apply startsOutside_cons_iff.2
      rcases isQuote with rfl | rfl
      · decide
      · decide
    have munched := endsName.append outside
    rw [skipped.1, List.append_assoc] at munched
    have written := TagHead.intro name gap _ entries blank listed munched
    refine ⟨quote, name, entries, ?_⟩
    rw [(Cursor.expect_eq_ok_iff.1 expected).1, consumed.1, skipped.1]
    simpa using written
  · exact absurd ended
      (not_unexpectedEnd_of_grammar (failsOnly_readStartTagEnd _ _ _) failed)

/-! ## Content -/

/-- A token that ends too early is a fragment once what it lacks is added. -/
theorem exists_fragment_of_missed (failed : readToken cursor = .error fault)
    (ended : fault.kind = .unexpectedEnd) :
    ∃ more piece, Fragment (cursor.rest ++ more) piece := by
  rw [readToken] at failed
  split at failed
  · cases failed
  · split at failed
    · exact absurd ended
        (not_unexpectedEnd_of_grammar (failsOnly_readEndTag _) (map_eq_error_iff.1 failed))
    · split at failed
      · rcases exists_comment_of_missed (map_eq_error_iff.1 failed) ended with ⟨body, written⟩
        exact ⟨_, _, .comment written⟩
      · split at failed
        · rcases exists_cdata_of_missed (map_eq_error_iff.1 failed) ended with ⟨body, written⟩
          exact ⟨_, _, .cdata written⟩
        · split at failed
          · rcases exists_instruction_of_missed (map_eq_error_iff.1 failed) ended with
              ⟨target, body, written⟩
            exact ⟨_, _, .instruction written⟩
          · rcases exists_tagHead_of_missed (map_eq_error_iff.1 failed) ended with
              ⟨quote, name, entries, written⟩
            have fragment := Fragment.empty written
            rw [List.append_assoc] at fragment
            exact ⟨_, _, fragment⟩

/-- The end tags of open tags, innermost one first. -/
def endTags (tags : List OpenTag) : List Char :=
  tags.flatMap fun tag => "</".toList ++ (tag.name.text.toList ++ ">".toList)

theorem endTag_of_name (name : Name) :
    EndTag ("</".toList ++ (name.text.toList ++ ">".toList)) name :=
  .intro name [] blanks_nil

theorem closes_endTags (options : ParserOptions) (outer : List OpenTag) (node : Tree) :
    ∃ tree, Closes options outer node (endTags outer) tree := by
  induction outer generalizing node with
  | nil => exact ⟨node, rfl, rfl⟩
  | cons parent outer induction =>
      rcases induction (.tag parent.name parent.attributes
        ((parent.push node).childrenReversed.reverse ++ nodesOf options [] [])) with
        ⟨tree, closes⟩
      exact ⟨tree, [], _, endTags outer, [], .nil, endTag_of_name parent.name, rfl, closes⟩

theorem completes_endTags (options : ParserOptions) (progress : Progress) :
    ∃ tree, progress.Completes options (endTags (progress.innermost :: progress.outer)) tree := by
  rcases closes_endTags options progress.outer (progress.closed options []) with ⟨tree, closes⟩
  exact ⟨tree, [], _, endTags progress.outer, [], .nil, endTag_of_name progress.innermost.name,
    rfl, closes⟩

theorem exists_completes_of_missed {progress : Progress}
    (failed : readContent options progress = .error fault)
    (ended : fault.kind = .unexpectedEnd) :
    ∃ more tree, progress.Completes options (progress.cursor.rest ++ more) tree := by
  -- The induction is on the steps of the reader, from the one that fails: before it the tags
  -- that are open demand what completes that step, with their end tags behind it.
  fun_induction readContent options progress with
  | case1 progress other stepped =>
      cases failed
      rcases step_error_cases stepped with ⟨exhausted, -⟩ | missed | ⟨_, _, _, _, rfl⟩
      · rcases completes_endTags options progress with ⟨tree, completes⟩
        rw [exhausted]
        exact ⟨_, tree, completes⟩
      · rcases exists_fragment_of_missed missed ended with ⟨more, piece, fragment⟩
        rcases completes_endTags options
          ((progress.take options piece).moveTo progress.cursor) with ⟨tree, completes⟩
        have whole := completes_of_take fragment completes
        rw [List.append_assoc] at whole
        exact ⟨_, tree, whole⟩
      · cases ended
  | case2 => cases failed
  | case3 progress following stepped induction =>
      rcases induction failed with ⟨more, tree, completes⟩
      rcases completes_of_step stepped completes with ⟨first, consumed, whole⟩
      refine ⟨more, tree, ?_⟩
      rw [consumed.1, List.append_assoc]
      exact whole

theorem exists_element_of_missed (failed : readElement options cursor = .error fault)
    (ended : fault.kind = .unexpectedEnd) :
    ∃ more name entries pieces,
      Fragment (cursor.rest ++ more) (.element name entries pieces) := by
  rw [readElement] at failed
  split at failed
  · rename_i other missed
    cases failed
    rcases exists_tagHead_of_missed missed ended with ⟨quote, name, entries, written⟩
    have fragment := Fragment.empty written
    rw [List.append_assoc] at fragment
    exact ⟨_, _, _, _, fragment⟩
  · cases failed
  · rename_i read
    rcases readStartTag_eq_opening_iff.1 read with ⟨head, entries, written, -, consumed⟩
    rcases exists_completes_of_missed failed ended with
      ⟨more, tree, inner, ending, rest, pieces, content, closed, equal, closes⟩
    rcases closes with ⟨rfl, -⟩
    rw [List.append_nil] at equal
    have fragment := Fragment.paired written content closed
    rw [← equal, ← List.append_assoc, ← consumed.1] at fragment
    exact ⟨more, _, _, _, fragment⟩

/-! ## Documents -/

/-- What precedes a root and ends too early lacks the end of its last leaf. -/
theorem exists_prologue_of_missed (failed : readPrologue options cursor = .error fault)
    (ended : fault.kind = .unexpectedEnd) :
    ∃ more leaves, Prologue (cursor.rest ++ more) leaves := by
  fun_induction readPrologue options cursor with
  | case1 cursor starts other missed =>
      cases failed
      rcases exists_instruction_of_missed missed ended with ⟨target, body, written⟩
      have prologue := Prologue.instruction written blanks_nil .nil
      rw [List.append_nil, List.append_nil] at prologue
      exact ⟨_, _, prologue⟩
  | case2 cursor starts target content next read induction =>
      rcases readInstruction_eq_ok_iff.1 read with ⟨text, body, written, -, consumed⟩
      rcases Cursor.skipBlanks_eq_iff.1 (rfl : next.skipBlanks = _) with ⟨gap, blank, -, skipped⟩
      rcases induction (map_eq_error_iff.1 failed) with ⟨more, leaves, others⟩
      have prologue := Prologue.instruction written blank others
      rw [← List.append_assoc gap, ← skipped.1, ← List.append_assoc, ← consumed.1] at prologue
      exact ⟨more, _, prologue⟩
  | case3 cursor different starts other missed =>
      cases failed
      rcases exists_comment_of_missed missed ended with ⟨body, written⟩
      have prologue := Prologue.comment written blanks_nil .nil
      rw [List.append_nil, List.append_nil] at prologue
      exact ⟨_, _, prologue⟩
  | case4 cursor different starts content next read induction =>
      rcases readComment_eq_ok_iff.1 read with ⟨text, body, written, -, consumed⟩
      rcases Cursor.skipBlanks_eq_iff.1 (rfl : next.skipBlanks = _) with ⟨gap, blank, -, skipped⟩
      rcases induction (map_eq_error_iff.1 failed) with ⟨more, leaves, others⟩
      have prologue := Prologue.comment written blank others
      rw [← List.append_assoc gap, ← skipped.1, ← List.append_assoc, ← consumed.1] at prologue
      exact ⟨more, _, prologue⟩
  | case5 => cases failed

theorem exists_prologue_of_readOpening {opening : Opening} {middle : Cursor}
    (read : readOpening cursor = .ok (opening, middle)) {rest : List Char} {leaves : List Leaf}
    (others : Prologue rest leaves) :
    ∃ text all, cursor.Consumes text middle ∧ Prologue (text ++ rest) all := by
  rw [readOpening] at read
  split at read
  · rcases bind_eq_ok_iff.1 read with ⟨⟨⟨target, content⟩, behind⟩, instructionRead, read⟩
    rcases readInstruction_eq_ok_iff.1 instructionRead with ⟨first, body, written, -, consumed⟩
    rcases Cursor.skipBlanks_eq_iff.1 (rfl : behind.skipBlanks = _) with ⟨gap, blank, -, skipped⟩
    have reached : middle = behind.skipBlanks := by
      dsimp only at read
      split at read
      · cases read
        rfl
      · cases read
        rfl
    have prologue := Prologue.instruction written blank others
    rw [← List.append_assoc] at prologue
    rw [reached]
    exact ⟨first ++ gap, _, consumed.trans skipped, prologue⟩
  · cases read
    exact ⟨[], leaves, Cursor.consumes_nil_iff.2 rfl, others⟩

theorem exists_prologue_of_opening_missed (failed : readOpening cursor = .error fault)
    (ended : fault.kind = .unexpectedEnd) :
    ∃ more leaves, Prologue (cursor.rest ++ more) leaves := by
  rw [readOpening] at failed
  split at failed
  · rcases bind_eq_error_iff.1 failed with missed | ⟨_, -, failed⟩
    · rcases exists_instruction_of_missed missed ended with ⟨target, body, written⟩
      have prologue := Prologue.instruction written blanks_nil .nil
      rw [List.append_nil, List.append_nil] at prologue
      exact ⟨_, _, prologue⟩
    · dsimp only at failed
      split at failed
      · cases failed
      · cases failed
  · cases failed

/-- What precedes a root can have any element behind it. -/
theorem exists_document_of_prologue {text : List Char} {more : List Char} {leaves : List Leaf}
    (prologue : Prologue ((Cursor.start text).skipBlanks.rest ++ more) leaves) :
    ∃ more leaves name entries pieces,
      Grammar.Document (text ++ more) leaves (.element name entries pieces) := by
  rcases Cursor.skipBlanks_eq_iff.1 (rfl : (Cursor.start text).skipBlanks = _) with
    ⟨gap, blank, -, skipped⟩
  have root := Fragment.empty (.intro ⟨"a", by decide⟩ [] [] [] blanks_nil .nil
    (startsOutside_nil _))
  have derived := Grammar.Document.intro blank prologue root blanks_nil
  rw [List.append_assoc, ← List.append_assoc gap, ← skipped.1] at derived
  exact ⟨_, leaves, _, _, _, derived⟩

theorem exists_document_of_missed {text : List Char}
    (failed : document options text = .error fault) (ended : fault.kind = .unexpectedEnd) :
    ∃ more leaves name entries pieces,
      Grammar.Document (text ++ more) leaves (.element name entries pieces) := by
  rcases bind_eq_error_iff.1 failed with missed | ⟨⟨opening, middle⟩, openingRead, failed⟩
  · rcases exists_prologue_of_opening_missed missed ended with ⟨more, leaves, prologue⟩
    exact exists_document_of_prologue prologue
  rcases bind_eq_error_iff.1 failed with missed | ⟨⟨kept, reached⟩, prologueRead, failed⟩
  · rcases exists_prologue_of_missed missed ended with ⟨more, leaves, others⟩
    rcases exists_prologue_of_readOpening openingRead others with ⟨first, all, consumed, prologue⟩
    rw [← List.append_assoc, ← consumed.1] at prologue
    exact exists_document_of_prologue prologue
  rcases bind_eq_error_iff.1 failed with declared | ⟨_, -, failed⟩
  · rw [(refuseDocumentType_eq_error_iff.1 declared).2] at ended
    cases ended
  rcases bind_eq_error_iff.1 failed with missed | ⟨⟨root, closed⟩, -, failed⟩
  · rcases Cursor.skipBlanks_eq_iff.1 (rfl : (Cursor.start text).skipBlanks = _) with
      ⟨gap, blank, -, skipped⟩
    rcases leading_sound openingRead prologueRead with ⟨leading, leaves, written, consumed, -⟩
    rcases exists_element_of_missed missed ended with ⟨more, name, entries, pieces, fragment⟩
    have derived := Grammar.Document.intro blank written fragment blanks_nil
    have whole : text = gap ++ leading ++ reached.rest := (skipped.trans consumed).1
    refine ⟨more, leaves, name, entries, pieces, ?_⟩
    rw [whole]
    simpa using derived
  rcases bind_eq_error_iff.1 failed with trailing | ⟨_, -, failed⟩
  · rw [refuseTrailingContent] at trailing
    split at trailing
    · cases trailing
    · cases trailing
      cases ended
  · cases failed

/-! ## Inputs -/

/-- A text at whose end something is missed can go on such that it is a document. With any other
fault than one within markup it can not, that fault is met in all texts that start so. -/
theorem parse_append_of_fault (options : ParserOptions) (content : String) (fault : ParsingFault)
    (failed : (Input.text content).parse options = .error (.parsing fault)) :
    (fault.kind = .unexpectedEnd →
      ∃ more result, (Input.text (content ++ more)).parse options = .ok result) ∧
    (fault.kind = .malformed ∨ fault.kind = .unsupported →
      ∀ more, (Input.text (content ++ more)).parse options = .error (.parsing fault)) := by
  rcases parse_text_eq_error_iff.1 failed with ⟨met, readFailed, equal⟩
  cases equal
  constructor
  · intro ended
    rcases exists_document_of_missed readFailed ended with
      ⟨more, leaves, name, entries, pieces, derived⟩
    have completes : ∃ parsed, document options (content ++ String.ofList more).toList =
        .ok parsed := by
      rw [String.toList_append, String.toList_ofList]
      exact ⟨_, document_complete options derived⟩
    rcases completes with ⟨parsed, read⟩
    exact ⟨String.ofList more, (parsed, parsed.warning?), parse_text_eq_ok_iff.2 ⟨read, rfl⟩⟩
  · intro settled more
    have outside : fault.kind ∉ lexicalKinds := by
      rcases settled with kind | kind
      · rw [kind]
        decide
      · rw [kind]
        decide
    refine parse_text_eq_error_iff.2 ⟨fault, ?_, rfl⟩
    rw [String.toList_append]
    exact document_append_of_settled readFailed outside more.toList

/-- The second text can not be completed, as its tags do not match, neither can the third one, that
has a document type. -/
theorem parse_append_of_fault_quote :
    (∃ more result, (Input.text ("<a b='<!--" ++ more)).parse {} = .ok result) ∧
    (Input.text ("<a></b" ++ ">" ++ "</a>")).parse {} =
      .error (.parsing (.mismatchedTags "a" "b" ⟨1, 8⟩)) ∧
    (Input.text ("<!DOCTYPE a" ++ "><a/>")).parse {} =
      .error (.parsing (.documentType ⟨1, 1⟩)) := by
  refine ⟨?_, ?_, ?_⟩
  · exact (parse_append_of_fault {} "<a b='<!--" _
      (by with_unfolding_all rfl)).1 rfl
  · exact (parse_append_of_fault {} ("<a></b" ++ ">") _
      (by with_unfolding_all rfl)).2 (.inl rfl) "</a>"
  · exact (parse_append_of_fault {} "<!DOCTYPE a" _
      (by with_unfolding_all rfl)).2 (.inr rfl) "><a/>"

end XmlGrove.Parse
