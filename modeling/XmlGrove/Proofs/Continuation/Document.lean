import XmlGrove.Proofs.Continuation.Extension
import XmlGrove.Proofs.RoundTrip.Parsed

/-!
# Documents that go on

The text of a document may go on with blank characters only, and stands for the same document
then. In the same way a fault that is met outside of markup is met again, whatever is added to
the text.
-/

namespace XmlGrove.Parse

open Grammar

variable {options : ParserOptions} {text : List Char} {cursor reached : Cursor}
  {together : Tree → ParsedDocument}

/-! ## What precedes the root -/

/-- What precedes the root of a text was read. It makes a document of a root, and the root is to
start where it ends. -/
def Leads (options : ParserOptions) (text : List Char) (together : Tree → ParsedDocument)
    (reached : Cursor) : Prop :=
  ∃ opening middle leaves,
    readOpening (Cursor.start text).skipBlanks = .ok (opening, middle) ∧
    readPrologue options middle = .ok (leaves, reached) ∧
    ∀ root, assemble options opening leaves root = together root

/-- Read the root and make a document of it, if nothing follows. -/
def readRoot (options : ParserOptions) (together : Tree → ParsedDocument) (cursor : Cursor) :
    Except ParsingFault ParsedDocument := do
  refuseDocumentType cursor
  let (root, cursor) ← readElement options cursor
  refuseTrailingContent cursor.skipBlanks
  return together root

theorem document_of_leads (leads : Leads options text together reached) :
    document options text = readRoot options together reached := by
  rcases leads with ⟨opening, middle, leaves, openingRead, prologueRead, equal⟩
  rw [document, openingRead]
  change (readPrologue options middle >>= _) = _
  rw [prologueRead]
  simp only [readRoot, ← equal]
  rfl

theorem leads_or_lexical (options : ParserOptions) (text : List Char) :
    (∃ together reached, Leads options text together reached) ∨
    (∃ fault, document options text = .error fault ∧ fault.kind ∈ lexicalKinds) := by
  cases openingRead : readOpening (Cursor.start text).skipBlanks with
  | error fault =>
      refine .inr ⟨fault, ?_, failsOnly_readOpening _ _ openingRead⟩
      rw [document, openingRead]
      rfl
  | ok opened =>
      rcases opened with ⟨opening, middle⟩
      cases prologueRead : readPrologue options middle with
      | error fault =>
          refine .inr ⟨fault, ?_, failsOnly_readPrologue _ _ _ prologueRead⟩
          rw [document, openingRead]
          change (readPrologue options middle >>= _) = _
          rw [prologueRead]
          rfl
      | ok read =>
          rcases read with ⟨leaves, reached⟩
          exact .inl ⟨_, reached, opening, middle, leaves, openingRead, prologueRead, fun _ => rfl⟩

theorem Leads.extend (leads : Leads options text together reached) {more : List Char}
    (ends : EndsPrologue (reached.extend more)) :
    Leads options (text ++ more) together (reached.extend more) := by
  rcases leads with ⟨opening, middle, kept, openingRead, prologueRead, equal⟩
  rcases leading_sound openingRead prologueRead with ⟨leading, leaves, written, consumed, denoted⟩
  rcases Cursor.skipBlanks_eq_iff.1 (rfl : (Cursor.start text).skipBlanks = _) with
    ⟨gap, blank, -, skipped⟩
  have reaches := consumed.extend more
  have solid : StartsSolid ((Cursor.start text).skipBlanks.extend more).rest := by
    rw [reaches.1]
    exact startsSolid_of_prologue written ends.solid
  rcases leading_complete options written reaches ends with
    ⟨otherOpening, otherMiddle, otherKept, otherOpeningRead, otherPrologueRead, otherDenoted⟩
  refine ⟨otherOpening, otherMiddle, otherKept, ?_, otherPrologueRead, fun root => ?_⟩
  · rw [Cursor.start_append, skipBlanks_eq_of_consumes blank solid (skipped.extend more)]
    exact otherOpeningRead
  · rw [otherDenoted, ← denoted, equal]

/-- A document type declaration is neither a comment nor a processing instruction. -/
theorem endsPrologue_of_documentType (declared : cursor.startsWith "<!DOCTYPE" = true) :
    EndsPrologue cursor := by
  rcases Cursor.startsWith_iff.1 declared with ⟨rest, follows⟩
  constructor
  · rw [follows]
    exact startsOutside_cons_iff.2 (by decide)
  · simp [Cursor.startsWith, follows, List.isPrefixOf]
  · simp [Cursor.startsWith, follows, List.isPrefixOf]

theorem refuseDocumentType_eq_error_iff {fault : ParsingFault} :
    refuseDocumentType cursor = .error fault ↔
      cursor.startsWith "<!DOCTYPE" = true ∧ fault = .documentType cursor.location := by
  rw [refuseDocumentType]
  cases cursor.startsWith "<!DOCTYPE" with
  | true => simp [eq_comm]
  | false => simp

/-- No more than what precedes a root does so, however the text goes on behind its start tag. -/
theorem Leads.extend_of_startTag (leads : Leads options text together reached)
    {tag : StartTag} {next : Cursor} (read : readStartTag reached = .ok (tag, next))
    (more : List Char) :
    Leads options (text ++ more) together (reached.extend more) ∧
      refuseDocumentType (reached.extend more) = .ok () := by
  rcases readStartTag_eq_ok_iff.1 (readStartTag_extend read more) with
    ⟨head, name, entries, middle, written, consumed, -, -⟩
  rcases endsPrologue_of_tagHead written consumed.1 with ⟨ends, undeclared⟩
  refine ⟨leads.extend ends, ?_⟩
  rw [refuseDocumentType, undeclared]
  rfl

theorem exists_startTag_of_readElement {root : Tree} {next : Cursor}
    (read : readElement options cursor = .ok (root, next)) :
    ∃ tag middle, readStartTag cursor = .ok (tag, middle) := by
  rw [readElement] at read
  split at read
  · cases read
  · rename_i started
    exact ⟨_, _, started⟩
  · rename_i started
    exact ⟨_, _, started⟩

/-! ## What follows the root -/

theorem skipBlanks_rest_eq_nil_iff : cursor.skipBlanks.rest = [] ↔ Blanks cursor.rest := by
  constructor
  · intro exhausted
    rcases Cursor.skipBlanks_eq_iff.1 (rfl : cursor.skipBlanks = _) with ⟨gap, blank, -, skipped⟩
    rw [skipped.1, exhausted, List.append_nil]
    exact blank
  · intro blank
    rcases Cursor.skipBlanks_eq_iff.1 (rfl : cursor.skipBlanks = _) with ⟨gap, -, solid, skipped⟩
    cases remaining : cursor.skipBlanks.rest with
    | nil => rfl
    | cons first rest =>
        have member : first ∈ cursor.rest := by
          rw [skipped.1, remaining]
          simp
        rw [remaining] at solid
        have different := startsOutside_cons_iff.1 solid
        rw [blank first member] at different
        cases different

theorem refuseTrailingContent_eq_ok_iff {value : Unit} :
    refuseTrailingContent cursor.skipBlanks = .ok value ↔ Blanks cursor.rest := by
  rw [← skipBlanks_rest_eq_nil_iff, refuseTrailingContent, Cursor.atEnd, ← List.isEmpty_iff]
  cases cursor.skipBlanks.rest.isEmpty with
  | true => simp
  | false => simp

theorem refuseTrailingContent_extend {fault : ParsingFault}
    (failed : refuseTrailingContent cursor.skipBlanks = .error fault) (more : List Char) :
    refuseTrailingContent (cursor.extend more).skipBlanks = .error fault := by
  rw [refuseTrailingContent, Cursor.atEnd] at failed
  split at failed
  · cases failed
  · rename_i remaining
    rw [List.isEmpty_iff] at remaining
    rw [Cursor.skipBlanks_extend remaining, refuseTrailingContent, Cursor.atEnd, if_neg]
    · exact failed
    · simp [remaining]

/-! ## Documents -/

/-- What is left to check once a root was read. -/
theorem readRoot_of_readElement {root : Tree} {closed : Cursor}
    (declined : refuseDocumentType cursor = .ok ())
    (read : readElement options cursor = .ok (root, closed)) :
    readRoot options together cursor =
      (refuseTrailingContent closed.skipBlanks).map fun _ => together root := by
  rw [readRoot, declined]
  change (readElement options cursor >>= _) = _
  rw [read]
  change (refuseTrailingContent closed.skipBlanks >>= _) = _
  cases refuseTrailingContent closed.skipBlanks with
  | error fault => rfl
  | ok value => rfl

theorem document_append_eq_ok_iff {parsed : ParsedDocument}
    (read : document options text = .ok parsed) (more : List Char) (other : ParsedDocument) :
    document options (text ++ more) = .ok other ↔ Blanks more ∧ other = parsed := by
  rcases leads_or_lexical options text with ⟨together, reached, leads⟩ | ⟨fault, failed, -⟩
  · rw [document_of_leads leads] at read
    rcases bind_eq_ok_iff.1 read with ⟨_, declined, read⟩
    rcases bind_eq_ok_iff.1 read with ⟨⟨root, closed⟩, rootRead, read⟩
    rcases bind_eq_ok_iff.1 read with ⟨_, finished, read⟩
    cases read
    rcases exists_startTag_of_readElement rootRead with ⟨tag, middle, started⟩
    rcases leads.extend_of_startTag started more with ⟨leads, declined⟩
    have blank := refuseTrailingContent_eq_ok_iff.1 finished
    have blanks : Blanks (closed.extend more).rest ↔ Blanks more := by
      rw [Cursor.rest_extend, Blanks, List.forall_mem_append]
      exact and_iff_right blank
    rw [document_of_leads leads,
      readRoot_of_readElement declined (readElement_extend rootRead more), map_eq_ok_iff]
    constructor
    · rintro ⟨value, finished, rfl⟩
      exact ⟨blanks.1 (refuseTrailingContent_eq_ok_iff.1 finished), rfl⟩
    · rintro ⟨blankMore, rfl⟩
      exact ⟨(), refuseTrailingContent_eq_ok_iff.2 (blanks.2 blankMore), rfl⟩
  · rw [failed] at read
    cases read

/-- A fault that is not met within markup does not go away if the text goes on. -/
theorem document_append_of_settled {fault : ParsingFault}
    (failed : document options text = .error fault) (settled : fault.kind ∉ lexicalKinds)
    (more : List Char) : document options (text ++ more) = .error fault := by
  rcases leads_or_lexical options text with ⟨together, reached, leads⟩ | ⟨other, lexical, member⟩
  · rw [document_of_leads leads] at failed
    rcases bind_eq_error_iff.1 failed with declared | ⟨_, -, failed⟩
    · rcases refuseDocumentType_eq_error_iff.1 declared with ⟨starts, rfl⟩
      have startsAgain := Cursor.startsWith_extend starts more
      have declaredAgain : refuseDocumentType (reached.extend more) =
          .error (.documentType reached.location) :=
        refuseDocumentType_eq_error_iff.2 ⟨startsAgain, rfl⟩
      rw [document_of_leads (leads.extend (endsPrologue_of_documentType startsAgain)), readRoot,
        declaredAgain]
      rfl
    · rcases bind_eq_error_iff.1 failed with rootFailed | ⟨⟨root, closed⟩, rootRead, failed⟩
      · rcases readElement_extend_of_settled rootFailed settled more with
          ⟨⟨tag, next, started⟩, failedAgain⟩
        rcases leads.extend_of_startTag started more with ⟨leads, declined⟩
        rw [document_of_leads leads, readRoot, declined]
        change (readElement options (reached.extend more) >>= _) = _
        rw [failedAgain]
        rfl
      · rcases exists_startTag_of_readElement rootRead with ⟨tag, middle, started⟩
        rcases leads.extend_of_startTag started more with ⟨leads, declined⟩
        rw [document_of_leads leads,
          readRoot_of_readElement declined (readElement_extend rootRead more)]
        rcases bind_eq_error_iff.1 failed with trailing | ⟨_, -, failed⟩
        · rw [refuseTrailingContent_extend trailing more]
          rfl
        · cases failed
  · rw [lexical] at failed
    cases failed
    exact absurd member settled

/-! ## Inputs -/

theorem parse_text_eq_ok_iff {content : String} {result : ParsedDocument × Option String} :
    (Input.text content).parse options = .ok result ↔
      document options content.toList = .ok result.1 ∧ result.2 = result.1.warning? := by
  rcases result with ⟨parsed, note⟩
  rw [parse_text_eq]
  cases document options content.toList with
  | error fault => simp [Except.map, Except.mapError]
  | ok denoted =>
      simp only [Except.map, Except.mapError, Except.ok.injEq, Prod.mk.injEq]
      constructor
      · rintro ⟨rfl, rfl⟩
        exact ⟨rfl, rfl⟩
      · rintro ⟨rfl, rfl⟩
        exact ⟨rfl, rfl⟩

theorem parse_text_eq_error_iff {content : String} {fault : Fault} :
    (Input.text content).parse options = .error fault ↔
      ∃ met, document options content.toList = .error met ∧ fault = .parsing met := by
  rw [parse_text_eq]
  cases document options content.toList with
  | error met => simp [Except.map, Except.mapError, eq_comm]
  | ok denoted => simp [Except.map, Except.mapError]

/-- If a text is a document, a text that goes on behind it is one exactly if only blank
characters were added, and then both parse to the same document. -/
theorem parse_append_eq_ok_iff (options : ParserOptions) (content more : String)
    (result other : ParsedDocument × Option String)
    (parsed : (Input.text content).parse options = .ok result) :
    (Input.text (content ++ more)).parse options = .ok other ↔
      Blanks more.toList ∧ other = result := by
  rcases parse_text_eq_ok_iff.1 parsed with ⟨read, noted⟩
  rw [parse_text_eq_ok_iff, String.toList_append, document_append_eq_ok_iff read]
  constructor
  · rintro ⟨⟨blank, equal⟩, notedAgain⟩
    refine ⟨blank, Prod.ext equal ?_⟩
    rw [notedAgain, noted, equal]
  · rintro ⟨blank, rfl⟩
    exact ⟨⟨blank, rfl⟩, noted⟩

/-- A document with a declaration, a comment in front of the root, and text between tags. -/
def noteDocument : ParsedDocument where
  declaration := some "version='1.1'"
  version := "1.1"
  prologue := [.comment "c"]
  root := .tag ⟨"note", by decide⟩ (Attributes.ofList [(⟨"to", by decide⟩, "1")])
    [.text "x", .tag ⟨"to", by decide⟩ {} []]

theorem parse_append_eq_ok_iff_noteDocument :
    (Input.text "<?xml version='1.1'?><!--c--><note to='1'>x<to/></note>").parse {} =
      .ok (noteDocument, none) ∧
    (Input.text ("<?xml version='1.1'?><!--c--><note to='1'>x<to/></note>" ++ "\n")).parse {} =
      .ok (noteDocument, none) ∧
    (Input.text ("<?xml version='1.1'?><!--c--><note to='1'>x<to/></note>" ++ "<to/>")).parse {} ≠
      .ok (noteDocument, none) := by
  have parsed : (Input.text "<?xml version='1.1'?><!--c--><note to='1'>x<to/></note>").parse {} =
      .ok (noteDocument, none) := by
    with_unfolding_all rfl
  have feedBlank : Blanks "\n".toList := by simp [Blanks]; decide
  have tagSolid : ¬ Blanks "<to/>".toList := fun blank => absurd (blank '<' (by simp)) (by decide)
  refine ⟨parsed, ?_, fun again => tagSolid ?_⟩
  · exact (parse_append_eq_ok_iff {} _ _ _ _ parsed).2 ⟨feedBlank, rfl⟩
  · exact ((parse_append_eq_ok_iff {} _ _ _ _ parsed).1 again).1

end XmlGrove.Parse
