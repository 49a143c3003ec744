import XmlGrove.Proofs.Grammar.Markup

/-!
# Reading content by the grammar

The reader of content keeps the open tags in a list. Each of its steps over a fragment of the
grammar is described by the piece that the fragment stands for; that whole contents are read
follows by induction on how they are put together, and that only contents are read follows by
induction on the run, from what the open tags demand of the remaining text.
-/

namespace XmlGrove.Parse

open Grammar

/-! ## What a piece does to the progress -/

theorem toList_textNode? (options : ParserOptions) (raw : List Char) :
    (textNode? options raw).toList = textRun options raw := by
  rw [textNode?, textRun]
  cases decoded : Entity.decode raw with
  | nil => rfl
  | cons first rest =>
      cases preserved : options.preserveWhitespace with
      | true => simp
      | false =>
          cases blank : (first :: rest).all Text.isBlank with
          | true => simp [Text.allBlank, blank]
          | false => simp [Text.allBlank, blank]

namespace Progress

/-- The same progress at another place. -/
def moveTo (progress : Progress) (cursor : Cursor) : Progress :=
  { progress with cursor := cursor }

@[simp] theorem innermost_moveTo (progress : Progress) (cursor : Cursor) :
    (progress.moveTo cursor).innermost = progress.innermost := rfl

@[simp] theorem outer_moveTo (progress : Progress) (cursor : Cursor) :
    (progress.moveTo cursor).outer = progress.outer := rfl

/-- Gathered text becomes the nodes of its run, last in the innermost tag. -/
theorem flush_eq (options : ParserOptions) (progress : Progress) :
    progress.flush options =
      { progress with
        raw := []
        innermost :=
          { progress.innermost with
            childrenReversed :=
              (textRun options progress.raw).reverse ++
                progress.innermost.childrenReversed } } := by
  rw [flush, ← toList_textNode?]
  cases textNode? options progress.raw with
  | none => rfl
  | some node => rfl

/-- Take a piece into the innermost tag: as a node behind the gathered text, or as text that
is gathered. -/
def take (options : ParserOptions) (progress : Progress) (piece : Piece) : Progress :=
  match piece.node? options with
  | some node => progress.add options node progress.cursor
  | none => { progress with raw := progress.raw ++ piece.characters }

/-- Take several pieces, one after the other. -/
def takeAll (options : ParserOptions) (progress : Progress) (pieces : List Piece) : Progress :=
  pieces.foldl (take options) progress

theorem take_of_node {options : ParserOptions} {progress : Progress} {piece : Piece}
    {node : Tree} (kept : piece.node? options = some node) :
    progress.take options piece = progress.add options node progress.cursor := by
  rw [take, kept]

theorem take_of_none {options : ParserOptions} {progress : Progress} {piece : Piece}
    (dropped : piece.node? options = none) :
    progress.take options piece = { progress with raw := progress.raw ++ piece.characters } := by
  rw [take, dropped]

theorem moveTo_take_of_node {options : ParserOptions} {progress : Progress}
    {piece : Piece} {node : Tree} {next : Cursor}
    (kept : piece.node? options = some node) :
    (progress.take options piece).moveTo next = progress.add options node next := by
  rw [take_of_node kept]
  rfl

theorem moveTo_take_of_none {options : ParserOptions} {progress : Progress}
    {piece : Piece} {next : Cursor}
    (dropped : piece.node? options = none) (silent : piece.characters = []) :
    (progress.take options piece).moveTo next = progress.moveTo next := by
  rw [take_of_none dropped, silent, List.append_nil]

@[simp] theorem outer_take (options : ParserOptions) (progress : Progress) (piece : Piece) :
    (progress.take options piece).outer = progress.outer := by
  rw [take]
  cases piece.node? options with
  | none => rfl
  | some node =>
      simp only [add, flush_eq]

theorem moveTo_take (options : ParserOptions) (progress : Progress) (piece : Piece)
    (cursor : Cursor) :
    (progress.moveTo cursor).take options piece =
      (progress.take options piece).moveTo cursor := by
  rw [take, take]
  cases piece.node? options with
  | none => rfl
  | some node =>
      simp only [add, flush_eq, moveTo]

theorem moveTo_takeAll (options : ParserOptions) (progress : Progress) (pieces : List Piece)
    (cursor : Cursor) :
    (progress.moveTo cursor).takeAll options pieces =
      (progress.takeAll options pieces).moveTo cursor := by
  induction pieces generalizing progress with
  | nil => rfl
  | cons piece pieces induction =>
      rw [takeAll, List.foldl_cons, moveTo_take]
      exact induction (progress.take options piece)

@[simp] theorem name_take (options : ParserOptions) (progress : Progress) (piece : Piece) :
    (progress.take options piece).innermost.name = progress.innermost.name := by
  rw [take]
  cases piece.node? options with
  | none => rfl
  | some node =>
      simp only [add, flush_eq, OpenTag.push]

@[simp] theorem outer_takeAll (options : ParserOptions) (progress : Progress)
    (pieces : List Piece) : (progress.takeAll options pieces).outer = progress.outer := by
  induction pieces generalizing progress with
  | nil => rfl
  | cons piece pieces induction =>
      rw [takeAll, List.foldl_cons]
      exact (induction (progress.take options piece)).trans (outer_take options progress piece)

/-- The tag node that the innermost tag becomes if it ends behind the given pieces. -/
def closed (options : ParserOptions) (progress : Progress) (pieces : List Piece) : Tree :=
  .tag progress.innermost.name progress.innermost.attributes
    (progress.innermost.childrenReversed.reverse ++ nodesOf options progress.raw pieces)

@[simp] theorem closed_moveTo (options : ParserOptions) (progress : Progress)
    (cursor : Cursor) (pieces : List Piece) :
    (progress.moveTo cursor).closed options pieces = progress.closed options pieces := rfl

/-- Whether a piece is taken first or is the first of those that follow makes no difference. -/
theorem closed_take (options : ParserOptions) (progress : Progress) (piece : Piece)
    (pieces : List Piece) :
    (progress.take options piece).closed options pieces =
      progress.closed options (piece :: pieces) := by
  rw [closed, closed, nodesOf]
  cases kept : piece.node? options with
  | none => rw [take_of_none kept]
  | some node =>
      rw [take_of_node kept]
      simp only [add, flush_eq, OpenTag.push, List.reverse_cons, List.reverse_append,
        List.reverse_reverse, List.append_assoc, List.singleton_append]

theorem toTree_flush (options : ParserOptions) (progress : Progress) :
    (progress.flush options).innermost.toTree = progress.closed options [] := by
  rw [flush_eq, closed, OpenTag.toTree, nodesOf]
  simp only [List.reverse_append, List.reverse_reverse]

theorem closed_takeAll (options : ParserOptions) (progress : Progress) (pieces : List Piece) :
    (progress.takeAll options pieces).closed options [] = progress.closed options pieces := by
  induction pieces generalizing progress with
  | nil => rfl
  | cons piece pieces induction =>
      rw [← closed_take, ← induction]
      rfl

end Progress

variable {options : ParserOptions} {progress : Progress} {outcome : Outcome}

/-! ## Steps

What each kind of step does, by the text that it moves over. -/

theorem stepComment_eq_ok_iff :
    stepComment options progress = .ok outcome ↔
      ∃ text body next, Comment text body ∧ progress.cursor.Consumes text next ∧
        outcome = .continues ((progress.take options (.comment body)).moveTo next) := by
  have taken (body : List Char) (next : Cursor) :
      (if options.removeComments then .ok (.continues { progress with cursor := next })
        else .ok (.continues (progress.add options (.leaf (.comment (String.ofList body))) next))) =
      (Except.ok (.continues ((progress.take options (.comment body)).moveTo next)) :
        Except ParsingFault Outcome) := by
    split
    · rename_i removed
      rw [Progress.moveTo_take_of_none (by rw [Piece.node?, if_pos removed]) rfl]
      rfl
    · rename_i kept
      rw [Progress.moveTo_take_of_node (by rw [Piece.node?, if_neg kept])]
  rw [stepComment]
  constructor
  · intro stepped
    split at stepped
    · cases stepped
    · rename_i read
      rcases readComment_eq_ok_iff.1 read with ⟨text, body, written, rfl, consumed⟩
      rw [taken] at stepped
      cases stepped
      exact ⟨text, body, _, written, consumed, rfl⟩
  · rintro ⟨text, body, next, written, consumed, rfl⟩
    rw [readComment_eq_ok_iff.2 ⟨text, body, written, rfl, consumed⟩]
    exact taken body next

theorem stepCData_eq_ok_iff :
    stepCData options progress = .ok outcome ↔
      ∃ text body next, CData text body ∧ progress.cursor.Consumes text next ∧
        outcome = .continues ((progress.take options (.cdata body)).moveTo next) := by
  rw [stepCData]
  constructor
  · intro stepped
    split at stepped
    · cases stepped
    · rename_i read
      rcases readCData_eq_ok_iff.1 read with ⟨text, body, written, rfl, consumed⟩
      cases stepped
      exact ⟨text, body, _, written, consumed, rfl⟩
  · rintro ⟨text, body, next, written, consumed, rfl⟩
    rw [readCData_eq_ok_iff.2 ⟨text, body, written, rfl, consumed⟩]
    rfl

theorem stepInstruction_eq_ok_iff :
    stepInstruction options progress = .ok outcome ↔
      ∃ text target body next, Instruction text target body ∧
        progress.cursor.Consumes text next ∧
        outcome = .continues ((progress.take options (.instruction target body)).moveTo next) := by
  have taken (target : Name) (body : List Char) (next : Cursor) :
      (if options.removeInstructions then .ok (.continues { progress with cursor := next })
        else .ok (.continues
          (progress.add options (.leaf (.instruction target (String.ofList body))) next))) =
      (Except.ok (.continues ((progress.take options (.instruction target body)).moveTo next)) :
        Except ParsingFault Outcome) := by
    split
    · rename_i removed
      rw [Progress.moveTo_take_of_none (by rw [Piece.node?, if_pos removed]) rfl]
      rfl
    · rename_i kept
      rw [Progress.moveTo_take_of_node (by rw [Piece.node?, if_neg kept])]
  rw [stepInstruction]
  constructor
  · intro stepped
    split at stepped
    · cases stepped
    · rename_i read
      rcases readInstruction_eq_ok_iff.1 read with ⟨text, body, written, rfl, consumed⟩
      rw [taken] at stepped
      cases stepped
      exact ⟨text, _, body, _, written, consumed, rfl⟩
  · rintro ⟨text, target, body, next, written, consumed, rfl⟩
    rw [readInstruction_eq_ok_iff.2 ⟨text, body, written, rfl, consumed⟩]
    exact taken target body next

/-- The progress behind a start tag that content follows. -/
def Progress.enter (options : ParserOptions) (progress : Progress) (name : Name)
    (attributes : Attributes) (next : Cursor) : Progress :=
  ⟨next, [], ⟨name, attributes, []⟩,
    (progress.flush options).innermost :: (progress.flush options).outer⟩

theorem stepStartTag_eq_ok_iff :
    stepStartTag options progress = .ok outcome ↔
      ∃ head name entries next, TagHead head name entries ∧
        ((progress.cursor.Consumes (head ++ "/>".toList) next ∧ outcome =
            .continues ((progress.take options (.element name entries [])).moveTo next)) ∨
          (progress.cursor.Consumes (head ++ ">".toList) next ∧ outcome =
            .continues (progress.enter options name (attributesOf entries) next))) := by
  rw [stepStartTag]
  constructor
  · intro stepped
    split at stepped
    · cases stepped
    · rename_i read
      rcases readStartTag_eq_empty_iff.1 read with ⟨head, entries, written, rfl, consumed⟩
      cases stepped
      refine ⟨head, _, entries, _, written, .inl ⟨consumed, ?_⟩⟩
      rfl
    · rename_i read
      rcases readStartTag_eq_opening_iff.1 read with ⟨head, entries, written, rfl, consumed⟩
      cases stepped
      exact ⟨head, _, entries, _, written, .inr ⟨consumed, rfl⟩⟩
  · rintro ⟨head, name, entries, next, written, ⟨consumed, rfl⟩ | ⟨consumed, rfl⟩⟩
    · rw [readStartTag_eq_empty_iff.2 ⟨head, entries, written, rfl, consumed⟩]
      rfl
    · rw [readStartTag_eq_opening_iff.2 ⟨head, entries, written, rfl, consumed⟩]
      rfl

theorem stepEndTag_eq_ok_iff :
    stepEndTag options progress = .ok outcome ↔
      ∃ text next, EndTag text progress.innermost.name ∧ progress.cursor.Consumes text next ∧
        outcome = close (progress.flush options) next := by
  rw [stepEndTag]
  constructor
  · intro stepped
    split at stepped
    · cases stepped
    · rename_i read
      rcases readEndTag_eq_ok_iff.1 read with ⟨text, written, consumed⟩
      split at stepped
      · rename_i equal
        cases stepped
        exact ⟨text, _, equal ▸ written, consumed, rfl⟩
      · cases stepped
  · rintro ⟨text, next, written, consumed, rfl⟩
    rw [readEndTag_eq_ok_iff.2 ⟨text, written, consumed⟩]
    exact if_pos rfl

theorem stepText_eq (options : ParserOptions) (progress : Progress) :
    ∃ characters next, '<' ∉ characters ∧ progress.cursor.Consumes characters next ∧
      stepText progress =
        .continues ((progress.take options (.text characters)).moveTo next) := by
  have split : progress.cursor.rest = progress.cursor.rest.takeWhile (· != '<') ++
      progress.cursor.rest.dropWhile (· != '<') := List.takeWhile_append_dropWhile.symm
  refine ⟨_, _, ?_, Cursor.consumes_skip split, rfl⟩
  intro member
  have different := List.all_eq_true.1 List.all_takeWhile '<' member
  simp at different

/-! ## Which step is next -/

theorem step_of_startsWith_endTag (starts : progress.cursor.startsWith "</" = true) :
    step options progress = stepEndTag options progress := by
  rcases Cursor.startsWith_iff.1 starts with ⟨rest, follows⟩
  simp [step, Cursor.startsWith, follows]

theorem step_of_startsWith_comment (starts : progress.cursor.startsWith "<!--" = true) :
    step options progress = stepComment options progress := by
  rcases Cursor.startsWith_iff.1 starts with ⟨rest, follows⟩
  simp [step, Cursor.startsWith, follows]

theorem step_of_startsWith_cdata (starts : progress.cursor.startsWith "<![CDATA[" = true) :
    step options progress = stepCData options progress := by
  rcases Cursor.startsWith_iff.1 starts with ⟨rest, follows⟩
  simp [step, Cursor.startsWith, follows]

theorem step_of_startsWith_instruction (starts : progress.cursor.startsWith "<?" = true) :
    step options progress = stepInstruction options progress := by
  rcases Cursor.startsWith_iff.1 starts with ⟨rest, follows⟩
  simp [step, Cursor.startsWith, follows]

/-- No other markup starts with a name. -/
theorem step_of_tagHead {head rest : List Char} {name : Name}
    {entries : List (Name × List Char)} (written : TagHead head name entries)
    (follows : progress.cursor.rest = head ++ rest) :
    step options progress = stepStartTag options progress := by
  rcases written with ⟨_, gap, list, _, _, _, _⟩
  rcases name.exists_first with ⟨first, others, characters, starts⟩
  have noSlash : first ≠ '/' := by
    rintro rfl
    cases starts
  have noBang : first ≠ '!' := by
    rintro rfl
    cases starts
  have noQuestion : first ≠ '?' := by
    rintro rfl
    cases starts
  rw [characters] at follows
  simp [step, Cursor.startsWith, follows, noSlash.symm, noBang.symm, noQuestion.symm]

/-! ## Content is read -/

theorem readContent_of_continues {next : Progress}
    (stepped : step options progress = .ok (.continues next)) :
    readContent options progress = readContent options next := by
  rw [readContent]
  split
  · rename_i failed
    rw [stepped] at failed
    cases failed
  · rename_i completed
    rw [stepped] at completed
    cases completed
  · rename_i continued
    rw [stepped] at continued
    cases continued
    rfl

theorem readContent_of_complete {node : Tree} {cursor : Cursor}
    (stepped : step options progress = .ok (.complete node cursor)) :
    readContent options progress = .ok (node, cursor) := by
  rw [readContent]
  split
  · rename_i failed
    rw [stepped] at failed
    cases failed
  · rename_i completed
    rw [stepped] at completed
    cases completed
    rfl
  · rename_i continued
    rw [stepped] at continued
    cases continued

theorem readContent_of_error {fault : ParsingFault}
    (stepped : step options progress = .error fault) :
    readContent options progress = .error fault := by
  rw [readContent]
  split
  · rename_i failed
    rw [stepped] at failed
    cases failed
    rfl
  · rename_i completed
    rw [stepped] at completed
    cases completed
  · rename_i continued
    rw [stepped] at continued
    cases continued

/-- The progress with the text gathered that comes next, however little that is. -/
def Progress.gather (progress : Progress) : Progress :=
  { progress with
    cursor := progress.cursor.readText.2
    raw := progress.raw ++ progress.cursor.readText.1 }

/-- It makes no difference whether the text that comes next is gathered beforehand. -/
theorem readContent_gather (options : ParserOptions) (progress : Progress) :
    readContent options progress.gather = readContent options progress := by
  have idle (nothing : progress.cursor.rest.takeWhile (· != '<') = []) :
      progress.gather = progress := by
    simp only [Progress.gather, Cursor.readText, nothing, List.length_nil, Cursor.skip_zero,
      List.append_nil]
  cases remaining : progress.cursor.rest with
  | nil => rw [idle (by rw [remaining]; rfl)]
  | cons first rest =>
      by_cases markup : first = '<'
      · rw [idle (by rw [remaining, markup]; rfl)]
      · symm
        apply readContent_of_continues
        have textual : (first != '<') = true := by simpa using markup
        rw [step, remaining]
        simp only [textual, if_true]
        rfl

theorem readContent_of_text {characters : List Char} {next : Cursor}
    (plain : '<' ∉ characters) (consumed : progress.cursor.Consumes characters next) :
    readContent options progress =
      readContent options ((progress.take options (.text characters)).moveTo next) := by
  have every : ∀ character ∈ characters, (character != '<') = true := by
    intro character member
    simp only [bne_iff_ne, ne_eq]
    rintro rfl
    exact plain member
  have same : ((progress.take options (.text characters)).moveTo next).gather =
      progress.gather := by
    simp only [Progress.gather, Progress.take, Piece.node?, Progress.moveTo, Piece.characters,
      Cursor.readText, consumed.1, List.takeWhile_append_of_pos every, List.append_assoc,
      List.length_append, ← Cursor.skip_skip, ← consumed.2]
  rw [← readContent_gather, ← same, readContent_gather]

theorem readContent_of_endTag {text : List Char} {next : Cursor} {parent : OpenTag}
    {outer : List OpenTag} (written : EndTag text progress.innermost.name)
    (consumed : progress.cursor.Consumes text next) (within : progress.outer = parent :: outer) :
    readContent options progress =
      readContent options ⟨next, [], parent.push (progress.closed options []), outer⟩ := by
  apply readContent_of_continues
  rw [step_of_startsWith_endTag (startsWith_of_endTag written consumed),
    stepEndTag_eq_ok_iff.2 ⟨text, next, written, consumed, rfl⟩, close, Progress.toTree_flush,
    Progress.flush_eq]
  simp only [within]

theorem readContent_of_last_endTag {text : List Char} {next : Cursor}
    (written : EndTag text progress.innermost.name)
    (consumed : progress.cursor.Consumes text next) (outermost : progress.outer = []) :
    readContent options progress = .ok (progress.closed options [], next) := by
  apply readContent_of_complete
  rw [step_of_startsWith_endTag (startsWith_of_endTag written consumed),
    stepEndTag_eq_ok_iff.2 ⟨text, next, written, consumed, rfl⟩, close, Progress.toTree_flush,
    Progress.flush_eq]
  simp only [outermost]

mutual

theorem readContent_of_fragment {text : List Char} {piece : Piece} :
    Fragment text piece → ∀ {progress : Progress} {next : Cursor},
      progress.cursor.Consumes text next →
      readContent options progress =
        readContent options ((progress.take options piece).moveTo next)
  | .text plain, progress, next, consumed => readContent_of_text plain consumed
  | .comment written, progress, next, consumed => by
      apply readContent_of_continues
      rw [step_of_startsWith_comment (startsWith_of_enclosed written consumed)]
      exact stepComment_eq_ok_iff.2 ⟨text, _, next, written, consumed, rfl⟩
  | .cdata written, progress, next, consumed => by
      apply readContent_of_continues
      rw [step_of_startsWith_cdata (startsWith_of_enclosed written consumed)]
      exact stepCData_eq_ok_iff.2 ⟨text, _, next, written, consumed, rfl⟩
  | .instruction written, progress, next, consumed => by
      apply readContent_of_continues
      rw [step_of_startsWith_instruction (startsWith_of_instruction written consumed)]
      exact stepInstruction_eq_ok_iff.2 ⟨text, _, _, next, written, consumed, rfl⟩
  | @Fragment.empty head name entries written, progress, next, consumed => by
      apply readContent_of_continues
      have follows := consumed.1
      rw [List.append_assoc] at follows
      rw [step_of_tagHead written follows]
      exact stepStartTag_eq_ok_iff.2 ⟨head, name, entries, next, written, .inl ⟨consumed, rfl⟩⟩
  | @Fragment.paired head inner ending name entries pieces written content ended, progress, next,
      consumed => by
      rcases Cursor.consumes_append_iff.1 consumed with ⟨opened, opening, consumed⟩
      rcases Cursor.consumes_append_iff.1 consumed with ⟨filled, filling, closing⟩
      have follows := opening.1
      rw [List.append_assoc] at follows
      -- The start tag makes a new innermost tag, around which is what was the innermost one.
      let entered := progress.enter options name (attributesOf entries) opened
      have whole := Progress.closed_takeAll options entered pieces
      have named : ((entered.takeAll options pieces).moveTo filled).innermost.name = name :=
        (Tree.tag.inj whole).1
      have within : ((entered.takeAll options pieces).moveTo filled).outer =
          (progress.flush options).innermost :: (progress.flush options).outer :=
        Progress.outer_takeAll options entered pieces
      have parent : ⟨next, [], (progress.flush options).innermost.push
          ((entered.takeAll options pieces).closed options []), (progress.flush options).outer⟩ =
          (progress.take options (.element name entries pieces)).moveTo next := by
        rw [whole, Progress.moveTo_take_of_node (by rw [Piece.node?]), Progress.add,
          Progress.flush_eq]
        rfl
      calc
        readContent options progress = readContent options entered := by
          apply readContent_of_continues
          rw [step_of_tagHead written follows]
          exact stepStartTag_eq_ok_iff.2
            ⟨head, name, entries, opened, written, .inr ⟨opening, rfl⟩⟩
        _ = readContent options ((entered.takeAll options pieces).moveTo filled) :=
          readContent_of_content content filling
        _ = readContent options ((progress.take options (.element name entries pieces)).moveTo
            next) := by
          rw [readContent_of_endTag (named.symm ▸ ended) closing within, ← parent]
          rfl

theorem readContent_of_content {text : List Char} {pieces : List Piece} :
    Content text pieces → ∀ {progress : Progress} {next : Cursor},
      progress.cursor.Consumes text next →
      readContent options progress =
        readContent options ((progress.takeAll options pieces).moveTo next)
  | .nil, progress, next, consumed => by
      rw [Cursor.consumes_nil_iff] at consumed
      rw [consumed]
      rfl
  | .cons fragment content, progress, next, consumed => by
      rcases Cursor.consumes_append_iff.1 consumed with ⟨middle, first, others⟩
      rw [readContent_of_fragment fragment first, readContent_of_content content others]
      rw [Progress.moveTo_takeAll]
      rfl

end

/-! ## Only content is read -/

/-- Each step is one over a fragment, into an element or out of one. -/
theorem step_cases (stepped : step options progress = .ok outcome) :
    (∃ text piece next, Fragment text piece ∧ progress.cursor.Consumes text next ∧
      outcome = .continues ((progress.take options piece).moveTo next)) ∨
    (∃ head name entries next, TagHead head name entries ∧
      progress.cursor.Consumes (head ++ ">".toList) next ∧
      outcome = .continues (progress.enter options name (attributesOf entries) next)) ∨
    (∃ text next, EndTag text progress.innermost.name ∧ progress.cursor.Consumes text next ∧
      outcome = close (progress.flush options) next) := by
  rw [step] at stepped
  split at stepped
  · cases stepped
  · split at stepped
    · cases stepped
      rcases stepText_eq options progress with ⟨characters, next, plain, consumed, equal⟩
      exact .inl ⟨characters, _, next, .text plain, consumed, equal⟩
    · split at stepped
      · exact .inr (.inr (stepEndTag_eq_ok_iff.1 stepped))
      · split at stepped
        · rcases stepComment_eq_ok_iff.1 stepped with ⟨text, body, next, written, consumed, equal⟩
          exact .inl ⟨text, _, next, .comment written, consumed, equal⟩
        · split at stepped
          · rcases stepCData_eq_ok_iff.1 stepped with ⟨text, body, next, written, consumed, equal⟩
            exact .inl ⟨text, _, next, .cdata written, consumed, equal⟩
          · split at stepped
            · rcases stepInstruction_eq_ok_iff.1 stepped with
                ⟨text, target, body, next, written, consumed, equal⟩
              exact .inl ⟨text, _, next, .instruction written, consumed, equal⟩
            · rcases stepStartTag_eq_ok_iff.1 stepped with
                ⟨head, name, entries, next, written, ⟨consumed, equal⟩ | ⟨consumed, equal⟩⟩
              · exact .inl ⟨_, _, next, .empty written, consumed, equal⟩
              · exact .inr (.inl ⟨head, name, entries, next, written, consumed, equal⟩)

/-- What the open tags demand of the text behind a complete node: each of them is to be
continued with content and ended, and this yields the given tree. -/
def Closes (options : ParserOptions) : List OpenTag → Tree → List Char → Tree → Prop
  | [], node, text, tree => text = [] ∧ tree = node
  | parent :: outer, node, text, tree =>
    ∃ inner ending rest pieces, Content inner pieces ∧ EndTag ending parent.name ∧
      text = inner ++ (ending ++ rest) ∧
      Closes options outer
        (.tag parent.name parent.attributes
          ((parent.push node).childrenReversed.reverse ++ nodesOf options [] pieces))
        rest tree

/-- What a progress demands of the text that remains. -/
def Progress.Completes (options : ParserOptions) (progress : Progress) (text : List Char)
    (tree : Tree) : Prop :=
  ∃ inner ending rest pieces, Content inner pieces ∧ EndTag ending progress.innermost.name ∧
    text = inner ++ (ending ++ rest) ∧
    Closes options progress.outer (progress.closed options pieces) rest tree

/-- A fragment may precede the text that is demanded behind it. -/
theorem completes_of_take {first text : List Char} {piece : Piece} {next : Cursor} {tree : Tree}
    (fragment : Fragment first piece)
    (completes : ((progress.take options piece).moveTo next).Completes options text tree) :
    progress.Completes options (first ++ text) tree := by
  rcases completes with ⟨inner, ending, rest, pieces, content, ended, rfl, closes⟩
  refine ⟨first ++ inner, ending, rest, piece :: pieces, .cons fragment content, ?_, ?_, ?_⟩
  · simpa using ended
  · rw [List.append_assoc]
  · rw [← Progress.closed_take]
    simpa using closes

theorem completes_of_enter {head text : List Char} {name : Name}
    {entries : List (Name × List Char)} {next : Cursor} {tree : Tree}
    (written : TagHead head name entries)
    (completes : (progress.enter options name (attributesOf entries) next).Completes options
      text tree) :
    progress.Completes options (head ++ ">".toList ++ text) tree := by
  rcases completes with ⟨inner, ending, rest, pieces, content, ended, rfl, closes⟩
  have around : ((progress.take options (.element name entries pieces)).moveTo next).Completes
      options rest tree := by
    rw [Progress.moveTo_take_of_node (by rw [Piece.node?]), Progress.add, Progress.flush_eq]
    rw [Progress.enter, Progress.flush_eq] at closes
    exact closes
  have whole := completes_of_take (.paired written content ended) around
  simpa only [List.append_assoc] using whole

/-- What a step reads may precede the text that is demanded behind it. -/
theorem completes_of_step {following : Progress} {text : List Char} {tree : Tree}
    (stepped : step options progress = .ok (.continues following))
    (completes : following.Completes options text tree) :
    ∃ first, progress.cursor.Consumes first following.cursor ∧
      progress.Completes options (first ++ text) tree := by
  rcases step_cases stepped with ⟨first, piece, middle, fragment, consumed, equal⟩ |
    ⟨head, name, entries, middle, written, consumed, equal⟩ |
    ⟨ending, middle, written, consumed, equal⟩
  · cases equal
    exact ⟨first, consumed, completes_of_take fragment completes⟩
  · cases equal
    exact ⟨_, consumed, completes_of_enter written completes⟩
  · rw [close] at equal
    split at equal
    · cases equal
    · rename_i parent outer within
      rw [Progress.flush_eq] at within
      cases equal
      refine ⟨ending, consumed, [], ending, text, [], .nil, written, by simp, ?_⟩
      rw [within, ← Progress.toTree_flush]
      exact completes

theorem readContent_sound {tree : Tree} {next : Cursor}
    (read : readContent options progress = .ok (tree, next)) :
    ∃ text, progress.Completes options text tree ∧ progress.cursor.Consumes text next := by
  -- The induction is on the steps of the reader, from the last one: each step puts what it read
  -- in front of the text that ends all tags that are open behind it.
  fun_induction readContent options progress with
  | case1 => cases read
  | case2 progress node cursor stepped =>
      cases read
      rcases step_cases stepped with ⟨_, _, _, _, _, equal⟩ | ⟨_, _, _, _, _, _, equal⟩ |
        ⟨text, closing, written, consumed, equal⟩
      · cases equal
      · cases equal
      · rw [close] at equal
        split at equal
        · rename_i outermost
          rw [Progress.flush_eq] at outermost
          cases equal
          refine ⟨text, ⟨[], text, [], [], .nil, written, by simp, ?_⟩, consumed⟩
          rw [Progress.toTree_flush, outermost]
          exact ⟨rfl, rfl⟩
        · cases equal
  | case3 progress following stepped induction =>
      rcases induction read with ⟨text, completes, remaining⟩
      rcases completes_of_step stepped completes with ⟨first, consumed, whole⟩
      exact ⟨_, whole, consumed.trans remaining⟩

/-! ## Elements -/

theorem nodesOf_nil (options : ParserOptions) : nodesOf options [] [] = [] := by
  rw [nodesOf]
  rfl

theorem readElement_eq_ok_iff {cursor next : Cursor} {tree : Tree} :
    readElement options cursor = .ok (tree, next) ↔
      ∃ text name entries pieces, Fragment text (.element name entries pieces) ∧
        tree = .tag name (attributesOf entries) (nodesOf options [] pieces) ∧
        cursor.Consumes text next := by
  rw [readElement]
  constructor
  · intro read
    split at read
    · cases read
    · rename_i started
      rcases readStartTag_eq_empty_iff.1 started with ⟨head, entries, written, rfl, consumed⟩
      cases read
      refine ⟨_, _, entries, [], .empty written, ?_, consumed⟩
      rw [nodesOf_nil]
    · rename_i started
      rcases readStartTag_eq_opening_iff.1 started with ⟨head, entries, written, rfl, consumed⟩
      rcases readContent_sound read with
        ⟨text, ⟨inner, ending, rest, pieces, content, ended, rfl, closes⟩, remaining⟩
      rcases closes with ⟨rfl, rfl⟩
      rw [List.append_nil] at remaining
      exact ⟨_, _, entries, pieces, .paired written content ended, rfl,
        consumed.trans remaining⟩
  · rintro ⟨text, name, entries, pieces, fragment, rfl, consumed⟩
    cases fragment with
    | empty written =>
        rw [readStartTag_eq_empty_iff.2 ⟨_, entries, written, rfl, consumed⟩, nodesOf_nil]
    | paired written content ended =>
        rcases Cursor.consumes_append_iff.1 consumed with ⟨opened, opening, consumed⟩
        rcases Cursor.consumes_append_iff.1 consumed with ⟨filled, filling, closing⟩
        rw [readStartTag_eq_opening_iff.2 ⟨_, entries, written, rfl, opening⟩]
        let entered : Progress :=
          { cursor := opened, innermost := ⟨name, attributesOf entries, []⟩ }
        have whole := Progress.closed_takeAll options entered pieces
        have named : ((entered.takeAll options pieces).moveTo filled).innermost.name = name :=
          (Tree.tag.inj whole).1
        have outermost : ((entered.takeAll options pieces).moveTo filled).outer = [] :=
          Progress.outer_takeAll options entered pieces
        change readContent options entered = _
        rw [readContent_of_content content filling,
          readContent_of_last_endTag (named.symm ▸ ended) closing outermost,
          Progress.closed_moveTo, whole]
        rfl

end XmlGrove.Parse
