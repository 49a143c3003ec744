import XmlGrove.Parse.Markup
import XmlGrove.Parse.Options

/-!
# Reading a tag node with its content

A tag node is read piece by piece. The tags that were started and not ended yet
are kept in a list, innermost first, so that the nesting of a document is not
limited. Text is gathered until something is met that separates it from what
follows; markup that the options remove does not.
-/

namespace XmlGrove.Parse

structure OpenTag where
  name : Name
  attributes : Attributes
  childrenReversed : List Tree := []

namespace OpenTag

def push (tag : OpenTag) (child : Tree) : OpenTag :=
  { tag with childrenReversed := child :: tag.childrenReversed }

def toTree (tag : OpenTag) : Tree :=
  .tag tag.name tag.attributes tag.childrenReversed.reverse

end OpenTag

structure Progress where
  cursor : Cursor
  /-- Text that was gathered, as it was written. -/
  raw : List Char := []
  innermost : OpenTag
  outer : List OpenTag := []

def textNode? (options : ParserOptions) (raw : List Char) : Option Tree :=
  let content := Entity.decode raw
  if content.isEmpty then none
  else if !options.preserveWhitespace && Text.allBlank content then none
  else some (.text (String.ofList content))

namespace Progress

def flush (options : ParserOptions) (progress : Progress) : Progress :=
  match textNode? options progress.raw with
  | none => { progress with raw := [] }
  | some node => { progress with raw := [], innermost := progress.innermost.push node }

/-- Append a node that separates the text before it from the text after it. -/
def add (options : ParserOptions) (progress : Progress) (node : Tree) (cursor : Cursor) :
    Progress :=
  let flushed := progress.flush options
  { flushed with cursor := cursor, innermost := flushed.innermost.push node }

@[simp] theorem cursor_add (options : ParserOptions) (progress : Progress) (node : Tree)
    (cursor : Cursor) : (progress.add options node cursor).cursor = cursor := rfl

end Progress

/-- What comes of reading a piece of content: there is more to read, or the
outermost tag node is complete. -/
inductive Outcome where
  | continues (progress : Progress)
  | complete (node : Tree) (cursor : Cursor)

namespace Outcome

def cursor : Outcome → Cursor
  | continues progress => progress.cursor
  | complete _ cursor => cursor

end Outcome

def close (progress : Progress) (cursor : Cursor) : Outcome :=
  let node := progress.innermost.toTree
  match progress.outer with
  | [] => .complete node cursor
  | parent :: outer => .continues ⟨cursor, [], parent.push node, outer⟩

def stepEndTag (options : ParserOptions) (progress : Progress) :
    Except ParsingFault Outcome :=
  match readEndTag progress.cursor with
  | .error fault => .error fault
  | .ok (name, cursor) =>
    if name = progress.innermost.name then .ok (close (progress.flush options) cursor)
    else .error (.mismatchedTags progress.innermost.name.text name.text cursor.location)

def stepComment (options : ParserOptions) (progress : Progress) :
    Except ParsingFault Outcome :=
  match readComment progress.cursor with
  | .error fault => .error fault
  | .ok (content, cursor) =>
    if options.removeComments then .ok (.continues { progress with cursor := cursor })
    else .ok (.continues (progress.add options (.leaf (.comment content)) cursor))

def stepCData (options : ParserOptions) (progress : Progress) :
    Except ParsingFault Outcome :=
  match readCData progress.cursor with
  | .error fault => .error fault
  | .ok (content, cursor) =>
    .ok (.continues (progress.add options (.leaf (.cdata content)) cursor))

def stepInstruction (options : ParserOptions) (progress : Progress) :
    Except ParsingFault Outcome :=
  match readInstruction progress.cursor with
  | .error fault => .error fault
  | .ok ((target, content), cursor) =>
    if options.removeInstructions then .ok (.continues { progress with cursor := cursor })
    else
      .ok (.continues (progress.add options (.leaf (.instruction target content)) cursor))

def stepStartTag (options : ParserOptions) (progress : Progress) :
    Except ParsingFault Outcome :=
  match readStartTag progress.cursor with
  | .error fault => .error fault
  | .ok (.empty name attributes, cursor) =>
    .ok (.continues (progress.add options (.tag name attributes []) cursor))
  | .ok (.opening name attributes, cursor) =>
    let flushed := progress.flush options
    .ok (.continues ⟨cursor, [], ⟨name, attributes, []⟩,
      flushed.innermost :: flushed.outer⟩)

def stepText (progress : Progress) : Outcome :=
  let (text, cursor) := progress.cursor.readText
  .continues { progress with cursor := cursor, raw := progress.raw ++ text }

def step (options : ParserOptions) (progress : Progress) : Except ParsingFault Outcome :=
  match progress.cursor.rest with
  | [] =>
    .error (.unterminated s!"element <{progress.innermost.name}>" progress.cursor.location)
  | character :: _ =>
    if character != '<' then .ok (stepText progress)
    else if progress.cursor.startsWith "</" then stepEndTag options progress
    else if progress.cursor.startsWith "<!--" then stepComment options progress
    else if progress.cursor.startsWith "<![CDATA[" then stepCData options progress
    else if progress.cursor.startsWith "<?" then stepInstruction options progress
    else stepStartTag options progress

/-! ## Progress

Each step leaves less to read, hence the content is read in finitely many. -/

@[simp] theorem cursor_close (progress : Progress) (cursor : Cursor) :
    (close progress cursor).cursor = cursor := by
  rw [close]
  split <;> rfl

theorem length_rest_of_stepEndTag {options : ParserOptions} {progress : Progress}
    {outcome : Outcome} (stepped : stepEndTag options progress = .ok outcome) :
    outcome.cursor.rest.length < progress.cursor.rest.length := by
  rw [stepEndTag] at stepped
  split at stepped
  · cases stepped
  · rename_i read
    split at stepped
    · cases stepped
      rw [cursor_close]
      exact length_rest_of_readEndTag read
    · cases stepped

theorem length_rest_of_stepComment {options : ParserOptions} {progress : Progress}
    {outcome : Outcome} (stepped : stepComment options progress = .ok outcome) :
    outcome.cursor.rest.length < progress.cursor.rest.length := by
  rw [stepComment] at stepped
  split at stepped
  · cases stepped
  · rename_i read
    split at stepped <;> cases stepped <;> exact length_rest_of_readComment read

theorem length_rest_of_stepCData {options : ParserOptions} {progress : Progress}
    {outcome : Outcome} (stepped : stepCData options progress = .ok outcome) :
    outcome.cursor.rest.length < progress.cursor.rest.length := by
  rw [stepCData] at stepped
  split at stepped
  · cases stepped
  · rename_i read
    cases stepped
    exact length_rest_of_readCData read

theorem length_rest_of_stepInstruction {options : ParserOptions} {progress : Progress}
    {outcome : Outcome} (stepped : stepInstruction options progress = .ok outcome) :
    outcome.cursor.rest.length < progress.cursor.rest.length := by
  rw [stepInstruction] at stepped
  split at stepped
  · cases stepped
  · rename_i read
    split at stepped <;> cases stepped <;> exact length_rest_of_readInstruction read

theorem length_rest_of_stepStartTag {options : ParserOptions} {progress : Progress}
    {outcome : Outcome} (stepped : stepStartTag options progress = .ok outcome) :
    outcome.cursor.rest.length < progress.cursor.rest.length := by
  rw [stepStartTag] at stepped
  split at stepped
  · cases stepped
  · rename_i read
    cases stepped
    exact length_rest_of_readStartTag read
  · rename_i read
    cases stepped
    exact length_rest_of_readStartTag read

theorem length_rest_of_stepText {progress : Progress} {character : Char} {rest : List Char}
    (remaining : progress.cursor.rest = character :: rest)
    (textual : (character != '<') = true) :
    (stepText progress).cursor.rest.length < progress.cursor.rest.length := by
  have taken : (character :: rest).takeWhile (· != '<') =
      character :: rest.takeWhile (· != '<') := List.takeWhile_cons_of_pos textual
  simp only [stepText, Outcome.cursor, Cursor.readText, remaining, Cursor.length_rest_skip,
    taken, List.length_cons]
  omega

theorem length_rest_of_step {options : ParserOptions} {progress : Progress}
    {outcome : Outcome} (stepped : step options progress = .ok outcome) :
    outcome.cursor.rest.length < progress.cursor.rest.length := by
  rw [step] at stepped
  split at stepped
  · cases stepped
  · rename_i remaining
    split at stepped
    · rename_i textual
      cases stepped
      exact length_rest_of_stepText remaining textual
    · repeat' split at stepped
      · exact length_rest_of_stepEndTag stepped
      · exact length_rest_of_stepComment stepped
      · exact length_rest_of_stepCData stepped
      · exact length_rest_of_stepInstruction stepped
      · exact length_rest_of_stepStartTag stepped

/-! ## Whole tag nodes -/

def readContent (options : ParserOptions) (progress : Progress) :
    Except ParsingFault (Tree × Cursor) :=
  match _stepped : step options progress with
  | .error fault => .error fault
  | .ok (.complete node cursor) => .ok (node, cursor)
  | .ok (.continues next) => readContent options next
termination_by progress.cursor.rest.length
decreasing_by exact length_rest_of_step _stepped

def readElement (options : ParserOptions) (cursor : Cursor) :
    Except ParsingFault (Tree × Cursor) :=
  match readStartTag cursor with
  | .error fault => .error fault
  | .ok (.empty name attributes, cursor) => .ok (.tag name attributes [], cursor)
  | .ok (.opening name attributes, cursor) =>
    readContent options { cursor := cursor, innermost := ⟨name, attributes, []⟩ }

end XmlGrove.Parse
