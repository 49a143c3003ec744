import XmlGrove.Parse.Document
import XmlGrove.Proofs.Grammar.Content

/-!
# Content in tokens

What a step of reading content reads depends on the text alone, what it makes of that depends on
the tags that are open. The two are taken apart here: a token is read, and the progress takes it.
-/

namespace XmlGrove.Parse

/-- What comes next in content. -/
inductive Token where
  | text (characters : List Char)
  | endTag (name : Name)
  | leaf (content : Leaf)
  | startTag (tag : StartTag)

/-- Read the next token of content that is not at its end. -/
def readToken (cursor : Cursor) : Except ParsingFault (Token × Cursor) :=
  if cursor.current? ≠ some '<' then .ok (.text cursor.readText.1, cursor.readText.2)
  else if cursor.startsWith "</" then
    (readEndTag cursor).map fun (name, next) => (.endTag name, next)
  else if cursor.startsWith "<!--" then
    (readComment cursor).map fun (content, next) => (.leaf (.comment content), next)
  else if cursor.startsWith "<![CDATA[" then
    (readCData cursor).map fun (content, next) => (.leaf (.cdata content), next)
  else if cursor.startsWith "<?" then
    (readInstruction cursor).map fun ((target, content), next) =>
      (.leaf (.instruction target content), next)
  else (readStartTag cursor).map fun (tag, next) => (.startTag tag, next)

/-- What a token that ends at a cursor makes of the progress. -/
def Progress.after (options : ParserOptions) (progress : Progress) (next : Cursor) :
    Token → Except ParsingFault Outcome
  | .text characters =>
    .ok (.continues { progress with cursor := next, raw := progress.raw ++ characters })
  | .endTag name =>
    if name = progress.innermost.name then .ok (close (progress.flush options) next)
    else .error (.mismatchedTags progress.innermost.name.text name.text next.location)
  | .leaf content =>
    if keeps options content then .ok (.continues (progress.add options (.leaf content) next))
    else .ok (.continues (progress.moveTo next))
  | .startTag (.empty name attributes) =>
    .ok (.continues (progress.add options (.tag name attributes []) next))
  | .startTag (.opening name attributes) =>
    .ok (.continues (progress.enter options name attributes next))

/-- Take the token that was read, if one was. -/
def takeToken (options : ParserOptions) (progress : Progress)
    (read : Except ParsingFault (Token × Cursor)) : Except ParsingFault Outcome :=
  read >>= fun (token, next) => progress.after options next token

theorem stepEndTag_eq (options : ParserOptions) (progress : Progress) :
    stepEndTag options progress = takeToken options progress
      ((readEndTag progress.cursor).map fun (name, next) => (.endTag name, next)) := by
  rw [stepEndTag]
  cases readEndTag progress.cursor with
  | error fault => rfl
  | ok read => rfl

theorem stepComment_eq (options : ParserOptions) (progress : Progress) :
    stepComment options progress = takeToken options progress
      ((readComment progress.cursor).map fun (content, next) =>
        (.leaf (.comment content), next)) := by
  rw [stepComment]
  cases readComment progress.cursor with
  | error fault => rfl
  | ok read =>
      change _ = ite (keeps options (.comment read.1)) _ _
      cases removed : options.removeComments with
      | true => simp [keeps, removed, Progress.moveTo]
      | false => simp [keeps, removed]

theorem stepCData_eq (options : ParserOptions) (progress : Progress) :
    stepCData options progress = takeToken options progress
      ((readCData progress.cursor).map fun (content, next) => (.leaf (.cdata content), next)) := by
  rw [stepCData]
  cases readCData progress.cursor with
  | error fault => rfl
  | ok read => rfl

theorem stepInstruction_eq (options : ParserOptions) (progress : Progress) :
    stepInstruction options progress = takeToken options progress
      ((readInstruction progress.cursor).map fun ((target, content), next) =>
        (.leaf (.instruction target content), next)) := by
  rw [stepInstruction]
  cases readInstruction progress.cursor with
  | error fault => rfl
  | ok read =>
      change _ = ite (keeps options (.instruction read.1.1 read.1.2)) _ _
      cases removed : options.removeInstructions with
      | true => simp [keeps, removed, Progress.moveTo]
      | false => simp [keeps, removed]

theorem stepStartTag_eq (options : ParserOptions) (progress : Progress) :
    stepStartTag options progress = takeToken options progress
      ((readStartTag progress.cursor).map fun (tag, next) => (.startTag tag, next)) := by
  rw [stepStartTag]
  rcases readStartTag progress.cursor with fault | ⟨tag, next⟩
  · rfl
  · cases tag with
    | empty name attributes => rfl
    | opening name attributes => rfl

/-- A step reads a token, unless there is none, and takes it. -/
theorem step_eq (options : ParserOptions) (progress : Progress) :
    step options progress =
      if progress.cursor.atEnd then
        .error (.unterminated s!"element <{progress.innermost.name}>" progress.cursor.location)
      else takeToken options progress (readToken progress.cursor) := by
  rw [step, Cursor.atEnd]
  cases remaining : progress.cursor.rest with
  | nil => rfl
  | cons first rest =>
      rw [readToken, Cursor.current?, remaining]
      by_cases markup : first = '<'
      · subst markup
        simp only [List.isEmpty_cons, List.head?_cons, ne_eq, not_true_eq_false, if_false,
          bne_self_eq_false, Bool.false_eq_true]
        split
        · exact stepEndTag_eq options progress
        · split
          · exact stepComment_eq options progress
          · split
            · exact stepCData_eq options progress
            · split
              · exact stepInstruction_eq options progress
              · exact stepStartTag_eq options progress
      · have textual : (first != '<') = true := by simpa using markup
        simp only [textual, if_true, List.isEmpty_cons, List.head?_cons, ne_eq,
          Option.some.injEq, markup, not_false_eq_true, Bool.false_eq_true, if_false]
        rfl

/-- Each token was read by the reader for its kind. -/
theorem readToken_cases {cursor next : Cursor} {token : Token}
    (read : readToken cursor = .ok (token, next)) :
    (cursor.current? ≠ some '<' ∧ token = .text cursor.readText.1 ∧ next = cursor.readText.2) ∨
    (∃ name, token = .endTag name ∧ readEndTag cursor = .ok (name, next)) ∨
    (∃ content, token = .leaf (.comment content) ∧ readComment cursor = .ok (content, next)) ∨
    (∃ content, token = .leaf (.cdata content) ∧ readCData cursor = .ok (content, next)) ∨
    (∃ target content, token = .leaf (.instruction target content) ∧
      readInstruction cursor = .ok ((target, content), next)) ∨
    (∃ tag, token = .startTag tag ∧ readStartTag cursor = .ok (tag, next)) := by
  rw [readToken] at read
  split at read
  · rename_i textual
    cases read
    exact .inl ⟨textual, rfl, rfl⟩
  · repeat' split at read
    all_goals rcases map_eq_ok_iff.1 read with ⟨value, succeeded, equal⟩
    all_goals cases equal
    · exact .inr (.inl ⟨_, rfl, succeeded⟩)
    · exact .inr (.inr (.inl ⟨_, rfl, succeeded⟩))
    · exact .inr (.inr (.inr (.inl ⟨_, rfl, succeeded⟩)))
    · exact .inr (.inr (.inr (.inr (.inl ⟨_, _, rfl, succeeded⟩))))
    · exact .inr (.inr (.inr (.inr (.inr ⟨_, rfl, succeeded⟩))))

theorem length_rest_of_readToken {cursor next : Cursor} {token : Token}
    (more : ¬ cursor.atEnd = true) (read : readToken cursor = .ok (token, next)) :
    next.rest.length < cursor.rest.length := by
  rcases readToken_cases read with ⟨textual, _, rfl⟩ | ⟨_, _, read⟩ | ⟨_, _, read⟩ |
    ⟨_, _, read⟩ | ⟨_, _, _, read⟩ | ⟨_, _, read⟩
  · rw [Cursor.atEnd] at more
    rw [Cursor.current?] at textual
    cases remaining : cursor.rest with
    | nil =>
        rw [remaining] at more
        exact absurd rfl more
    | cons first rest =>
        rw [remaining, List.head?_cons, ne_eq, Option.some.injEq] at textual
        have taken : (first :: rest).takeWhile (· != '<') = first :: rest.takeWhile (· != '<') :=
          List.takeWhile_cons_of_pos (by simpa using textual)
        simp only [Cursor.readText, Cursor.length_rest_skip, remaining, taken, List.length_cons]
        omega
  · exact length_rest_of_readEndTag read
  · exact length_rest_of_readComment read
  · exact length_rest_of_readCData read
  · exact length_rest_of_readInstruction read
  · exact length_rest_of_readStartTag read

end XmlGrove.Parse
