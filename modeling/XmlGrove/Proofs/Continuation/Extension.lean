import XmlGrove.Proofs.Continuation.Faults
import XmlGrove.Proofs.Grammar.Document

/-!
# Texts that go on

The text that a reader is given may go on behind its end. A reader that looks to that end may
then read something else: the name that ends there, the blank characters or the text. Whatever
ends at a delimiter is read as before, hence so is a whole tag node.
-/

namespace XmlGrove

open Grammar

/-! ## Cursors -/

namespace Grammar

/-- What a text starts with does not change if it goes on. -/
theorem StartsOutside.extend {holds : Char → Bool} {text : List Char}
    (outside : StartsOutside holds text) (nonempty : text ≠ []) (more : List Char) :
    StartsOutside holds (text ++ more) := by
  cases text with
  | nil => exact absurd rfl nonempty
  | cons first rest => exact outside

end Grammar

namespace Cursor

/-- The same place in a text that goes on further. -/
def extend (more : List Char) (cursor : Cursor) : Cursor :=
  { cursor with rest := cursor.rest ++ more }

variable {cursor next : Cursor} {text : List Char}

@[simp] theorem rest_extend (more : List Char) (cursor : Cursor) :
    (cursor.extend more).rest = cursor.rest ++ more := rfl

theorem start_append (text more : List Char) : start (text ++ more) = (start text).extend more :=
  rfl

theorem skip_extend {count : Nat} (inside : count ≤ cursor.rest.length) (more : List Char) :
    (cursor.extend more).skip count = (cursor.skip count).extend more := by
  simp only [skip, extend, List.take_append_of_le_length inside,
    List.drop_append_of_le_length inside]

/-- What comes next at a cursor still does if the text goes on. -/
theorem Consumes.extend (consumed : cursor.Consumes text next) (more : List Char) :
    (cursor.extend more).Consumes text (next.extend more) := by
  constructor
  · rw [rest_extend, rest_extend, consumed.1, List.append_assoc]
  · rw [skip_extend, ← consumed.2]
    rw [consumed.1, List.length_append]
    exact Nat.le_add_right _ _

theorem startsWith_extend {literal : String} (starts : cursor.startsWith literal = true)
    (more : List Char) : (cursor.extend more).startsWith literal = true := by
  rcases startsWith_iff.1 starts with ⟨rest, follows⟩
  apply startsWith_iff.2
  exact ⟨rest ++ more, by rw [rest_extend, follows, List.append_assoc]⟩

/-- Blank characters that something follows are as many if the text goes on. -/
theorem skipBlanks_extend (nonempty : cursor.skipBlanks.rest ≠ []) (more : List Char) :
    (cursor.extend more).skipBlanks = cursor.skipBlanks.extend more := by
  rcases skipBlanks_eq_iff.1 (rfl : cursor.skipBlanks = _) with ⟨gap, blank, solid, consumed⟩
  exact skipBlanks_eq_iff.2 ⟨gap, blank, solid.extend nonempty more, consumed.extend more⟩

end Cursor

namespace Parse

variable {options : ParserOptions} {cursor next : Cursor}

/-! ## Tags -/

theorem readEndTag_extend {name : Name} (read : readEndTag cursor = .ok (name, next))
    (more : List Char) : readEndTag (cursor.extend more) = .ok (name, next.extend more) := by
  rcases readEndTag_eq_ok_iff.1 read with ⟨text, written, consumed⟩
  exact readEndTag_eq_ok_iff.2 ⟨text, written, consumed.extend more⟩

theorem readStartTag_extend {tag : StartTag} (read : readStartTag cursor = .ok (tag, next))
    (more : List Char) : readStartTag (cursor.extend more) = .ok (tag, next.extend more) := by
  cases tag with
  | empty name attributes =>
      rcases readStartTag_eq_empty_iff.1 read with ⟨head, entries, written, equal, consumed⟩
      exact readStartTag_eq_empty_iff.2 ⟨head, entries, written, equal, consumed.extend more⟩
  | opening name attributes =>
      rcases readStartTag_eq_opening_iff.1 read with ⟨head, entries, written, equal, consumed⟩
      exact readStartTag_eq_opening_iff.2 ⟨head, entries, written, equal, consumed.extend more⟩

theorem readElement_extend {root : Tree} (read : readElement options cursor = .ok (root, next))
    (more : List Char) :
    readElement options (cursor.extend more) = .ok (root, next.extend more) := by
  rcases readElement_eq_ok_iff.1 read with
    ⟨text, name, entries, pieces, fragment, denoted, consumed⟩
  exact readElement_eq_ok_iff.2
    ⟨text, name, entries, pieces, fragment, denoted, consumed.extend more⟩

/-! ## Content -/

/-- The same progress in a text that goes on further. -/
def Progress.extend (more : List Char) (progress : Progress) : Progress :=
  progress.moveTo (progress.cursor.extend more)

variable {progress following : Progress}

/-- A step may take more text if there is more, but that is gathered with what follows. -/
theorem readContent_extend_of_continues
    (stepped : step options progress = .ok (.continues following)) (more : List Char) :
    readContent options (progress.extend more) = readContent options (following.extend more) := by
  rcases step_cases stepped with ⟨text, piece, next, fragment, consumed, equal⟩ |
    ⟨head, name, entries, next, written, consumed, equal⟩ |
    ⟨text, next, written, consumed, equal⟩
  · cases equal
    have extended : (progress.extend more).cursor.Consumes text (next.extend more) :=
      consumed.extend more
    rw [readContent_of_fragment fragment extended, Progress.extend, Progress.moveTo_take]
    rfl
  · cases equal
    have extended := consumed.extend more
    have follows := extended.1
    rw [List.append_assoc] at follows
    apply readContent_of_continues
    rw [step_of_tagHead written follows, stepStartTag_eq_ok_iff]
    refine ⟨head, name, entries, next.extend more, written, .inr ⟨extended, ?_⟩⟩
    simp only [Progress.enter, Progress.extend, Progress.flush_eq, Progress.moveTo]
  · have extended : (progress.extend more).cursor.Consumes text (next.extend more) :=
      consumed.extend more
    have ended : stepEndTag options (progress.extend more) =
        .ok (close ((progress.extend more).flush options) (next.extend more)) :=
      stepEndTag_eq_ok_iff.2 ⟨text, _, written, extended, rfl⟩
    apply readContent_of_continues
    rw [step_of_startsWith_endTag (startsWith_of_endTag written extended), ended]
    rw [close] at equal ⊢
    simp only [Progress.extend, Progress.flush_eq, Progress.moveTo] at equal ⊢
    split at equal
    · cases equal
    · cases equal
      rfl

/-! ## Tags that do not match

An end tag is compared once it is read as a whole, hence what follows it does not matter. -/

/-- Of the tokens that were read, only an end tag of another name is not taken. -/
theorem exists_endTag_of_after {token : Token} {fault : ParsingFault}
    (failed : progress.after options next token = .error fault) :
    ∃ name, token = .endTag name ∧ name ≠ progress.innermost.name ∧
      fault = .mismatchedTags progress.innermost.name.text name.text next.location := by
  cases token with
  | text characters => cases failed
  | leaf content =>
      rw [Progress.after] at failed
      split at failed
      · cases failed
      · cases failed
  | startTag tag =>
      cases tag with
      | empty name attributes => cases failed
      | opening name attributes => cases failed
  | endTag name =>
      rw [Progress.after] at failed
      split at failed
      · cases failed
      · rename_i different
        cases failed
        exact ⟨name, rfl, different, rfl⟩

theorem readEndTag_of_readToken {name : Name}
    (read : readToken cursor = .ok (.endTag name, next)) :
    readEndTag cursor = .ok (name, next) := by
  rcases readToken_cases read with ⟨_, equal, _⟩ | ⟨_, equal, ended⟩ | ⟨_, equal, _⟩ |
    ⟨_, equal, _⟩ | ⟨_, _, equal, _⟩ | ⟨_, equal, _⟩
  all_goals cases equal
  exact ended

/-- There are three ways for a step to fail. -/
theorem step_error_cases {fault : ParsingFault} (failed : step options progress = .error fault) :
    (progress.cursor.rest = [] ∧ fault.kind = .unexpectedEnd) ∨
    readToken progress.cursor = .error fault ∨
    (∃ name next, readEndTag progress.cursor = .ok (name, next) ∧
      name ≠ progress.innermost.name ∧
      fault = .mismatchedTags progress.innermost.name.text name.text next.location) := by
  rw [step_eq, takeToken] at failed
  split at failed
  · rename_i ended
    cases failed
    exact .inl ⟨List.isEmpty_iff.1 ended, rfl⟩
  · cases read : readToken progress.cursor with
    | error other =>
        rw [read] at failed
        cases failed
        exact .inr (.inl rfl)
    | ok result =>
        rcases result with ⟨token, next⟩
        rw [read] at failed
        rcases exists_endTag_of_after failed with ⟨name, rfl, different, equal⟩
        exact .inr (.inr ⟨name, next, readEndTag_of_readToken read, different, equal⟩)

theorem step_extend_of_settled {fault : ParsingFault}
    (failed : step options progress = .error fault) (settled : fault.kind ∉ lexicalKinds)
    (more : List Char) : step options (progress.extend more) = .error fault := by
  rcases step_error_cases failed with ⟨-, ended⟩ | failed | ⟨name, next, read, different, rfl⟩
  · rw [ended] at settled
    exact absurd (by decide) settled
  · exact absurd (failsOnly_readToken _ _ failed) settled
  rcases readEndTag_eq_ok_iff.1 read with ⟨text, written, consumed⟩
  have extended : (progress.extend more).cursor.Consumes text (next.extend more) :=
    consumed.extend more
  have ended : readEndTag (progress.extend more).cursor = .ok (name, next.extend more) :=
    readEndTag_extend read more
  rw [step_of_startsWith_endTag (startsWith_of_endTag written extended), stepEndTag, ended]
  exact if_neg different

theorem readContent_extend_of_settled {fault : ParsingFault}
    (failed : readContent options progress = .error fault) (settled : fault.kind ∉ lexicalKinds)
    (more : List Char) : readContent options (progress.extend more) = .error fault := by
  fun_induction readContent options progress with
  | case1 progress other stepped =>
      cases failed
      exact readContent_of_error (step_extend_of_settled stepped settled more)
  | case2 => cases failed
  | case3 progress following stepped induction =>
      rw [readContent_extend_of_continues stepped more]
      exact induction failed

/-- A root that fails for another reason than its markup has a start tag. -/
theorem readElement_extend_of_settled {fault : ParsingFault}
    (failed : readElement options cursor = .error fault) (settled : fault.kind ∉ lexicalKinds)
    (more : List Char) :
    (∃ tag next, readStartTag cursor = .ok (tag, next)) ∧
      readElement options (cursor.extend more) = .error fault := by
  rw [readElement] at failed
  split at failed
  · rename_i other read
    cases failed
    exact absurd (failsOnly_readStartTag _ _ read) settled
  · cases failed
  · rename_i name attributes next read
    refine ⟨⟨_, next, read⟩, ?_⟩
    rw [readElement, readStartTag_extend read more]
    exact readContent_extend_of_settled failed settled more

end Parse

end XmlGrove
