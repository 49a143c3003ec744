import XmlGrove.Parse.Input
import XmlGrove.Proofs.Failure.Location
import XmlGrove.Proofs.Failure.Stack
import XmlGrove.Proofs.Grammar.Document

/-!
# How parsing ends

Constructing the nodes of a text while it is read ends as parsing the text does: with the nodes
of the document, or with the fault of a reader, which is located in the text. None of the faults
of the constructors, of attaching and of the stacks is met.
-/

namespace XmlGrove

open Grove Parse

namespace Parse

variable {origin grove last : Grove} {options : ParserOptions}

/-! ## Content -/

/-- One round of reading content on the stacks. -/
def Assembly.advance (options : ParserOptions) (assembly : Assembly) (cursor : Cursor) :
    Edit (Assembly × Cursor) := do
  if cursor.atEnd then
    let name ← assembly.innermostName
    throw (.parsing (.unterminated s!"element <{name}>" cursor.location))
  else
    let (token, next) ← parsed (readToken cursor)
    let taken ← assembly.take options next token
    return (taken, next)

theorem cursor_of_after {progress : Progress} {token : Token} {next : Cursor} {outcome : Outcome}
    (taken : progress.after options next token = .ok outcome) : outcome.cursor = next := by
  cases token with
  | text characters =>
      cases taken
      rfl
  | endTag name =>
      rw [Progress.after] at taken
      split at taken
      · cases taken
        exact cursor_close _ _
      · cases taken
  | leaf content =>
      rw [Progress.after] at taken
      split at taken
      · cases taken
        rfl
      · cases taken
        rfl
  | startTag tag =>
      cases tag with
      | empty name attributes =>
          cases taken
          rfl
      | opening name attributes =>
          cases taken
          rfl

theorem Assembly.Represents.advance {assembly : Assembly} {progress : Progress}
    (represents : assembly.Represents origin grove progress.raw progress.tags) :
    (assembly.advance options progress.cursor).Mirrors grove (step options progress)
      fun outcome taken last =>
        taken.2 = outcome.cursor ∧ taken.1.Reaches origin last outcome := by
  rw [Assembly.advance, step_eq, takeToken]
  by_cases ended : progress.cursor.atEnd = true
  · rw [if_pos ended, if_pos ended]
    apply Edit.Yields.bind_mirrors
    apply represents.innermostName.mono
    intro name unchanged both
    rcases both with ⟨rfl, rfl⟩
    rfl
  · rw [if_neg ended, if_neg ended]
    apply parsed_bind_mirrors
    intro both read
    rcases both with ⟨token, next⟩
    have writable (content : Leaf) (equal : token = .leaf content) :
        content.isWritable = true := by
      rw [equal] at read
      exact isWritable_of_readToken read
    apply Edit.Mirrors.returns
    apply (represents.take writable next).mono
    intro outcome taken last after reaches
    exact ⟨(cursor_of_after after).symm, reaches⟩

theorem constructContent_of_started {assembly : Assembly} (cursor : Cursor)
    (started : assembly.started ≠ []) :
    constructContent options cursor assembly =
      assembly.advance options cursor >>= fun (taken, next) =>
        constructContent options next taken := by
  rw [constructContent, Assembly.advance, if_neg (by simpa using started)]
  split
  · rw [bind_assoc]
    rfl
  · split
    · rename_i failed
      rw [failed]
      rfl
    · rename_i read
      rw [read]
      simp only [parsed, pure_bind, bind_assoc]

theorem constructContent_of_ended {assembly : Assembly} {node : NodeId} (cursor : Cursor)
    (ended : assembly.started = []) (result : assembly.result = some node) :
    constructContent options cursor assembly = pure (node, cursor) := by
  rw [constructContent, if_pos (by simp [ended]), result]

theorem readContent_eq (options : ParserOptions) (progress : Progress) :
    readContent options progress =
      step options progress >>= fun
        | .complete node cursor => .ok (node, cursor)
        | .continues next => readContent options next := by
  cases stepped : step options progress with
  | error fault => exact readContent_of_error stepped
  | ok outcome =>
      cases outcome with
      | complete node cursor => exact readContent_of_complete stepped
      | continues next => exact readContent_of_continues stepped

/-- Reading content on the stacks comes to the tree that is read. -/
theorem constructContent_mirrors {assembly : Assembly} {progress : Progress}
    (represents : assembly.Represents origin grove progress.raw progress.tags) :
    (constructContent options progress.cursor assembly).Mirrors grove
      (readContent options progress) fun read constructed last =>
        constructed.2 = read.2 ∧ origin.Adds last [constructed.1] [read.1] := by
  -- The induction is on the text that remains, of which each step leaves less.
  induction remaining : progress.cursor.rest.length using Nat.strongRecOn
    generalizing progress assembly grove with
  | ind length induction =>
      rw [constructContent_of_started _ represents.stack.started_ne_nil, readContent_eq]
      apply Edit.Mirrors.bind
      apply represents.advance.mono
      intro outcome advanced middle stepped both
      rcases advanced with ⟨taken, next⟩
      rcases both with ⟨rfl, reaches⟩
      cases outcome with
      | complete tree cursor =>
          rcases reaches with ⟨ended, node, result, added⟩
          dsimp only
          rw [constructContent_of_ended _ ended result]
          exact ⟨rfl, added⟩
      | continues next =>
          apply induction _ _ reaches rfl
          rw [← remaining]
          exact length_rest_of_step stepped

/-! ## Elements -/

theorem readElement_eq (options : ParserOptions) (cursor : Cursor) :
    readElement options cursor =
      readStartTag cursor >>= fun
        | (.empty name attributes, next) => .ok (.tag name attributes [], next)
        | (.opening name attributes, next) =>
          readContent options { cursor := next, innermost := ⟨name, attributes, []⟩ } := by
  rw [readElement]
  rcases readStartTag cursor with fault | ⟨tag, next⟩
  · rfl
  · cases tag with
    | empty name attributes => rfl
    | opening name attributes => rfl

theorem constructElement_mirrors (cursor : Cursor) :
    (constructElement options cursor).Mirrors grove (readElement options cursor)
      fun read constructed last =>
        constructed.2 = read.2 ∧ grove.Adds last [constructed.1] [read.1] := by
  rw [constructElement, readElement_eq]
  apply parsed_bind_mirrors
  intro started _
  rcases started with ⟨tag, next⟩
  cases tag with
  | empty name attributes =>
      apply Edit.Yields.mirrors
      apply Edit.Ensures.bind
      apply (constructTag_yields name attributes).mono
      intro node last added
      apply Edit.ensures_pure
      exact ⟨rfl, added⟩
  | opening name attributes =>
      apply Edit.Yields.bind_mirrors
      apply (constructTag_yields name attributes).mono
      intro node middle added
      have empty : ({} : Assembly).Represents grove grove [] [] :=
        ⟨.refl _ grove, rfl, .nil (Nat.le_refl _)⟩
      exact constructContent_mirrors (empty.enter added)

/-! ## Documents -/

/-- What a constructed instruction at the start of a document is for. -/
def openingOf : Option (NodeId × Name × String) → Opening
  | none => .nothing
  | some (_, target, content) =>
    if target = Name.xml then .declaration content else .node (.instruction target content)

/-- The trees of a constructed instruction at the start of a document. -/
def openingTrees (given : Option (NodeId × Name × String)) : List Tree :=
  given.toList.map fun (_, target, content) => .leaf (.instruction target content)

theorem constructOpening_mirrors (cursor : Cursor) :
    (constructOpening cursor).Mirrors grove (readOpening cursor)
      fun read constructed last =>
        constructed.2 = read.2 ∧ read.1 = openingOf constructed.1 ∧
          grove.Adds last (constructed.1.toList.map Prod.fst) (openingTrees constructed.1) := by
  rw [constructOpening, readOpening]
  split
  · apply parsed_bind_mirrors
    intro instruction read
    rcases instruction with ⟨⟨target, content⟩, next⟩
    apply Edit.Yields.bind_mirrors
    apply (constructLeaf_yields (isWritable_of_readInstruction read)).mono
    intro node last added
    dsimp only
    split
    · rename_i named
      apply Edit.Yields.mirrors
      apply Edit.ensures_pure
      exact ⟨rfl, by rw [openingOf, if_pos named], added⟩
    · rename_i named
      apply Edit.Yields.mirrors
      apply Edit.ensures_pure
      exact ⟨rfl, by rw [openingOf, if_neg named], added⟩
  · exact ⟨rfl, rfl, adds_nil grove⟩

theorem constructKept_mirrors {leaf : Leaf} {rest : Edit (List NodeId × Cursor)}
    {reading : Except ParsingFault (List Leaf × Cursor)} (writable : leaf.isWritable = true)
    (mirrors : ∀ middle : Grove, rest.Mirrors middle reading fun read constructed last =>
      constructed.2 = read.2 ∧ middle.Adds last constructed.1 (read.1.map .leaf)) :
    (constructKept options leaf rest).Mirrors grove
      (reading.map fun (leaves, cursor) => ([leaf].filter (keeps options) ++ leaves, cursor))
      fun read constructed last =>
        constructed.2 = read.2 ∧ grove.Adds last constructed.1 (read.1.map .leaf) := by
  rw [constructKept]
  apply Edit.Yields.bind_mirrors
  apply (constructLeaf_yields writable).mono
  intro node middle added
  apply Edit.Mirrors.map
  apply Edit.Mirrors.returns
  apply (mirrors middle).mono
  intro read constructed last _ both
  rcases read with ⟨leaves, next⟩
  rcases constructed with ⟨nodes, _⟩
  rcases both with ⟨rfl, more⟩
  refine ⟨rfl, ?_⟩
  cases kept : keeps options leaf with
  | true => simpa [kept] using added.append more
  | false => simpa [kept] using added.none.append more

theorem constructPrologue_eq (options : ParserOptions) (cursor : Cursor) :
    constructPrologue options cursor =
      if cursor.startsWith "<?" then
        parsed (readInstruction cursor) >>= fun ((target, content), next) =>
          constructKept options (.instruction target content)
            (constructPrologue options next.skipBlanks)
      else if cursor.startsWith "<!--" then
        parsed (readComment cursor) >>= fun (content, next) =>
          constructKept options (.comment content) (constructPrologue options next.skipBlanks)
      else pure ([], cursor) := by
  rw [constructPrologue]
  split
  · split
    · rename_i failed
      rw [failed]
      rfl
    · rename_i read
      rw [read]
      rfl
  · split
    · split
      · rename_i failed
        rw [failed]
        rfl
      · rename_i read
        rw [read]
        rfl
    · rfl

theorem constructPrologue_mirrors (cursor : Cursor) :
    (constructPrologue options cursor).Mirrors grove (readPrologue options cursor)
      fun read constructed last =>
        constructed.2 = read.2 ∧ grove.Adds last constructed.1 (read.1.map .leaf) := by
  fun_induction readPrologue options cursor generalizing grove with
  | case1 cursor starts fault failed =>
      rw [constructPrologue_eq, if_pos starts, failed]
      rfl
  | case2 cursor starts target content next read induction =>
      rw [constructPrologue_eq, if_pos starts, read]
      exact constructKept_mirrors (isWritable_of_readInstruction read) fun _ => induction
  | case3 cursor different starts fault failed =>
      rw [constructPrologue_eq, if_neg different, if_pos starts, failed]
      rfl
  | case4 cursor different starts content next read induction =>
      rw [constructPrologue_eq, if_neg different, if_pos starts, read]
      exact constructKept_mirrors (isWritable_of_readComment read) fun _ => induction
  | case5 cursor different ends =>
      rw [constructPrologue_eq, if_neg different, if_neg ends]
      exact ⟨rfl, adds_nil grove⟩

/-- Nodes of a grove are those of a parsed document, and all of them are detached. -/
structure DocumentNodes.Represents (nodes : DocumentNodes) (grove : Grove)
    (document : ParsedDocument) : Prop where
  declaration : nodes.declaration.map grove.view? =
    document.declaration.map fun content => some (.leaf (.instruction Name.xml content))
  version : nodes.version = document.version
  encoding : nodes.encoding = document.encoding
  views : (nodes.prologue ++ [nodes.root]).map grove.view? = document.nodes.map some
  detached : ∀ id ∈ nodes.declaration.toList ++ nodes.prologue ++ [nodes.root],
    grove.parentLink? id = none

/-- The nodes are put together as what was read is. -/
theorem represents_assembleNodes {first second : Grove}
    {given : Option (NodeId × Name × String)} {prologue : List NodeId} {leaves : List Leaf}
    {root : NodeId} {tree : Tree}
    (opening : grove.Adds first (given.toList.map Prod.fst) (openingTrees given))
    (leading : first.Adds second prologue (leaves.map .leaf))
    (element : second.Adds last [root] [tree]) :
    (assembleNodes options given prologue root).Represents last
      (assemble options (openingOf given) leaves tree) := by
  have whole := (opening.append leading).append element
  have views := whole.shows.map_view?
  have free := whole.free
  rcases given with _ | ⟨node, target, content⟩
  · refine ⟨rfl, rfl, rfl, ?_, by simpa [assembleNodes] using free⟩
    simpa [openingTrees, assemble, assembleNodes, openingOf, ParsedDocument.nodes] using views
  · by_cases named : target = Name.xml
    · subst named
      simp only [openingTrees, Option.toList_some, List.map_cons, List.map_nil, List.cons_append,
        List.nil_append, List.cons.injEq] at views
      simp only [assembleNodes, openingOf, if_true]
      exact ⟨congrArg some views.1, rfl, rfl, views.2, by simpa using free⟩
    · cases kept : keeps options (.instruction target content) with
      | true =>
          simp only [assembleNodes, openingOf, named, kept, if_true, if_false]
          refine ⟨rfl, rfl, rfl, ?_, by simpa using free⟩
          simpa [openingTrees, assemble, ParsedDocument.nodes, kept] using views
      | false =>
          -- The instruction was constructed, but it is not one of the nodes.
          have fewer := (opening.none.append leading).append element
          have fewerViews := fewer.shows.map_view?
          have fewerFree := fewer.free
          simp only [assembleNodes, openingOf, named, kept, if_false]
          refine ⟨rfl, rfl, rfl, ?_, by simpa using fewerFree⟩
          simpa [assemble, ParsedDocument.nodes, kept] using fewerViews

theorem constructDocument_mirrors (options : ParserOptions) (text : List Char) (grove : Grove) :
    (constructDocument options text).Mirrors grove (document options text)
      fun parsed nodes last => nodes.Represents last parsed := by
  rw [constructDocument, document]
  apply Edit.Mirrors.bind
  apply (constructOpening_mirrors _).mono
  intro opening given first _ opened
  rcases opening with ⟨opening, behind⟩
  rcases given with ⟨given, _⟩
  rcases opened with ⟨rfl, rfl, opened⟩
  apply Edit.Mirrors.bind
  apply (constructPrologue_mirrors _).mono
  intro leaves prologue second _ leading
  rcases leaves with ⟨leaves, next⟩
  rcases prologue with ⟨prologue, _⟩
  rcases leading with ⟨rfl, leading⟩
  apply parsed_bind_mirrors
  intro _ _
  apply Edit.Mirrors.bind
  apply (constructElement_mirrors _).mono
  intro tree root last _ element
  rcases tree with ⟨tree, ending⟩
  rcases root with ⟨root, _⟩
  rcases element with ⟨rfl, element⟩
  apply parsed_bind_mirrors
  intro _ _
  apply Edit.Yields.mirrors
  apply Edit.ensures_pure
  exact represents_assembleNodes opened leading element

end Parse

/-! ## Texts -/

/-- Whatever the text and the options are, constructing the nodes of a document while its text is
read ends in one of two ways, and parsing the text ends in the same way: with a document, which
is what the nodes are, or with a fault of parsing that is located at a place of the text. -/
theorem parse_text_document_or_located_fault (options : ParserOptions) (content : String)
    (grove : Grove) :
    (∃ document nodes last,
      (Input.text content).parse options = .ok (document, document.warning?) ∧
      (constructDocument options content.toList).outcome grove = (.ok nodes, last) ∧
      nodes.Represents last document) ∨
    (∃ fault last offset,
      (Input.text content).parse options = .error (.parsing fault) ∧
      (constructDocument options content.toList).outcome grove = (.error (.parsing fault), last) ∧
      offset ≤ content.length ∧
      fault.location? = some (Location.ofOffset content.toList offset)) := by
  have mirrors := constructDocument_mirrors options content.toList grove
  rw [parse_text_eq]
  cases read : document options content.toList with
  | ok parsed =>
      rw [read] at mirrors
      rcases succeeded : (constructDocument options content.toList).outcome grove with
        ⟨fault | nodes, last⟩
      · exact (Edit.Ensures.of_error mirrors succeeded).elim
      · exact .inl ⟨parsed, nodes, last, rfl, rfl, Edit.Ensures.of_ok mirrors succeeded⟩
  | error fault =>
      rw [read] at mirrors
      rcases isIn_of_document_eq_error read with ⟨offset, inside, located⟩
      rcases failed : (constructDocument options content.toList).outcome grove with ⟨result, last⟩
      rw [Edit.Mirrors, failed] at mirrors
      dsimp only at mirrors
      rw [mirrors]
      refine .inr ⟨fault, last, offset, rfl, rfl, ?_, located⟩
      rwa [String.length_toList] at inside

end XmlGrove
