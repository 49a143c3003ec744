import XmlGrove.Proofs.RoundTrip.Comparison

/-!
# Trees as parsing yields them

A tree that was parsed can be written: its leaves passed for what ends at their terminators. What
is more, its texts are kept and stand apart from each other, so that reading it again after it was
written neither merges nor drops a node.
-/

namespace XmlGrove

open Grammar Text

variable {options : ParserOptions}

/-! ## Leaves -/

/-- A delimiter does not occur in a body that it ends at its first occurrence. -/
theorem Grammar.EndsFirst.not_infix {delimiter body : List Char} (nonempty : delimiter ≠ [])
    (ends : EndsFirst delimiter body) : ¬ delimiter <:+: body := by
  rintro ⟨before, after, rfl⟩
  have finished := ends before (after ++ delimiter) (by simp)
  exact nonempty (List.append_eq_nil_iff.1 finished).2

namespace Leaf

theorem isWritable_of_endsFirst (leaf : Leaf) {ending : String} {fault : Fault}
    (terminated : terminator? leaf.kind = some (ending, fault)) (nonempty : ending.toList ≠ [])
    (ends : EndsFirst ending.toList leaf.content.toList) : leaf.isWritable = true := by
  have absent : occurs ending.toList leaf.content.toList = false := by
    rw [Bool.eq_false_iff, ne_eq, occurs_iff_infix]
    exact ends.not_infix nonempty
  rw [isWritable, isTerminatedBy, terminated]
  simp [absent]

theorem isWritable_comment {text body : List Char} (written : Comment text body) :
    (comment (String.ofList body)).isWritable = true := by
  rcases written with ⟨_, ends⟩
  apply isWritable_of_endsFirst _ rfl (by decide)
  simpa [content] using ends

theorem isWritable_cdata {text body : List Char} (written : CData text body) :
    (cdata (String.ofList body)).isWritable = true := by
  rcases written with ⟨_, ends⟩
  apply isWritable_of_endsFirst _ rfl (by decide)
  simpa [content] using ends

theorem isWritable_instruction {text body : List Char} {target : Name}
    (written : Instruction text target body) :
    (instruction target (String.ofList body)).isWritable = true := by
  rcases written with ⟨_, _, _, _, _, _, ends⟩
  apply isWritable_of_endsFirst _ rfl (by decide)
  simpa [content] using ends

/-- The content of a leaf as it is read: a text is kept, and what an instruction holds does not
start with a blank character. -/
def IsRead (preserveWhitespace : Bool) : Leaf → Prop
  | text content => Tree.isKept preserveWhitespace (.text content) = true
  | comment _ | cdata _ => True
  | instruction _ content => StartsSolid content.toList

end Leaf

/-! ## Trees -/

namespace Tree

mutual

/-- A tree whose leaves are as they are read, without adjacent text nodes. -/
def IsRead (preserveWhitespace : Bool) : Tree → Prop
  | leaf content => content.IsRead preserveWhitespace
  | tag _ _ children => AreRead preserveWhitespace children

/-- Sibling trees of this kind. -/
def AreRead (preserveWhitespace : Bool) : List Tree → Prop
  | [] => True
  | first :: rest =>
    first.IsRead preserveWhitespace ∧
      (first.isText = true → ∀ next ∈ rest.head?, next.isText = false) ∧
      AreRead preserveWhitespace rest

end

theorem isText_iff {tree : Tree} : tree.isText = true ↔ ∃ content, tree = text content := by
  constructor
  · intro textual
    cases tree with
    | tag name attributes children => cases textual
    | leaf leaf =>
        cases leaf with
        | text content => exact ⟨content, rfl⟩
        | comment content => cases textual
        | cdata content => cases textual
        | instruction target content => cases textual
  · rintro ⟨content, rfl⟩
    rfl

theorem areWritable_append (former latter : List Tree) :
    areWritable (former ++ latter) = (areWritable former && areWritable latter) := by
  induction former with
  | nil => rfl
  | cons first former induction =>
      rw [List.cons_append, areWritable, areWritable, induction, Bool.and_assoc]

/-- A run of text denotes at most one text node, and that is kept. -/
theorem textRun_cases (options : ParserOptions) (raw : List Char) :
    textRun options raw = [] ∨ ∃ content, textRun options raw = [text content] ∧
      isKept options.preserveWhitespace (text content) = true := by
  rw [textRun_eq]
  cases kept : isKept options.preserveWhitespace (text (String.ofList (Entity.decode raw))) with
  | true => exact .inr ⟨_, List.filter_cons_of_pos kept, kept⟩
  | false => exact .inl (List.filter_cons_of_neg (by simp [kept]))

theorem areWritable_textRun (raw : List Char) : areWritable (textRun options raw) = true := by
  rcases textRun_cases options raw with equal | ⟨content, equal, -⟩
  · rw [equal]
    rfl
  · rw [equal]
    rfl

theorem areRead_textRun_append (raw : List Char) {trees : List Tree}
    (read : AreRead options.preserveWhitespace trees)
    (apart : ∀ next ∈ trees.head?, next.isText = false) :
    AreRead options.preserveWhitespace (textRun options raw ++ trees) := by
  rcases textRun_cases options raw with equal | ⟨content, equal, kept⟩
  · rw [equal]
    exact read
  · rw [equal]
    exact ⟨kept, fun _ => apart, read⟩

mutual

theorem isRead_of_fragment {text : List Char} {piece : Piece} {node : Tree} :
    Fragment text piece → piece.node? options = some node →
      node.isText = false ∧ node.isWritable = true ∧ node.IsRead options.preserveWhitespace
  | .text _, denoted => by cases denoted
  | .comment written, denoted => by
      rw [Piece.node?] at denoted
      split at denoted
      · cases denoted
      · cases denoted
        exact ⟨rfl, Leaf.isWritable_comment written, trivial⟩
  | .cdata written, denoted => by
      cases denoted
      exact ⟨rfl, Leaf.isWritable_cdata written, trivial⟩
  | .instruction written, denoted => by
      rw [Piece.node?] at denoted
      split at denoted
      · cases denoted
      · cases denoted
        refine ⟨rfl, Leaf.isWritable_instruction written, ?_⟩
        rcases written with ⟨_, _, _, _, solid, _, _⟩
        simpa [IsRead, Leaf.IsRead] using solid
  | .empty _, denoted => by
      cases denoted
      exact ⟨rfl, rfl, trivial⟩
  | .paired _ content _, denoted => by
      cases denoted
      exact ⟨rfl, areRead_of_content content []⟩

theorem areRead_of_content {text : List Char} {pieces : List Piece} :
    Content text pieces → (pending : List Char) →
      areWritable (nodesOf options pending pieces) = true ∧
        AreRead options.preserveWhitespace (nodesOf options pending pieces)
  | .nil, pending => by
      have read : AreRead options.preserveWhitespace (textRun options pending ++ []) :=
        areRead_textRun_append pending trivial (by simp)
      rw [List.append_nil] at read
      exact ⟨areWritable_textRun pending, read⟩
  | @Content.cons _ _ piece _ fragment content, pending => by
      rw [nodesOf]
      cases denoted : piece.node? options with
      | none => exact areRead_of_content content _
      | some node =>
          rcases isRead_of_fragment fragment denoted with ⟨other, writable, read⟩
          rcases areRead_of_content content [] with ⟨restWritable, restRead⟩
          constructor
          · simp [areWritable_append, areWritable_textRun, areWritable, writable, restWritable]
          · apply areRead_textRun_append
            · exact ⟨read, by simp [other], restRead⟩
            · simpa using other

end

end Tree

/-! ## Documents -/

namespace Parse

/-- A text without a prologue is parsed as the tag node that it denotes, and nothing is noted. -/
theorem parse_of_derivable {content : String} {name : Name} {entries : List (Name × List Char)}
    {pieces : List Piece} (options : ParserOptions)
    (derived : Grammar.Document content.toList [] (.element name entries pieces)) :
    (Input.text content).parse options =
      .ok ({ prologue := [],
             root := .tag name (attributesOf entries) (nodesOf options [] pieces) }, none) := by
  rw [parse_text_eq, document_complete options derived]
  rfl

theorem document_of_parse {content : String} {document : ParsedDocument} {note : Option String}
    (parsed : (Input.text content).parse options = .ok (document, note)) :
    Parse.document options content.toList = .ok document := by
  rw [parse_text_eq] at parsed
  cases read : Parse.document options content.toList with
  | error fault =>
      rw [read] at parsed
      cases parsed
  | ok denoted =>
      rw [read] at parsed
      cases parsed
      rfl

theorem root_documentOf (leaves : List Leaf) (root : Tree) :
    (documentOf options leaves root).root = root := by
  unfold documentOf
  split
  · split
    · rfl
    · rfl
  · rfl

/-- The root of a parsed document is a tag node that can be written, with leaves as they are
read. -/
theorem isRead_root {content : String} {document : ParsedDocument} {note : Option String}
    (parsed : (Input.text content).parse options = .ok (document, note)) :
    ∃ name attributes children, document.root = .tag name attributes children ∧
      document.root.isWritable = true ∧ document.root.IsRead options.preserveWhitespace := by
  rcases document_sound (document_of_parse parsed) with
    ⟨leaves, name, entries, pieces, derived, rfl⟩
  rw [root_documentOf]
  generalize content.toList = text at derived
  rcases derived with ⟨_, _, fragment, _⟩
  have denoted : (Piece.element name entries pieces).node? options =
      some (.tag name (attributesOf entries) (nodesOf options [] pieces)) := by
    rw [Piece.node?]
  exact ⟨_, _, _, rfl, (Tree.isRead_of_fragment fragment denoted).2⟩

/-- What is parsed is a document that is read from characters. -/
theorem exists_document_of_parse {input : Input} {document : ParsedDocument}
    {note : Option String} (parsed : input.parse options = .ok (document, note)) :
    ∃ characters, Parse.document options characters = .ok document := by
  rw [Input.parse] at parsed
  cases decoded : input.decode options with
  | error fault =>
      rw [decoded] at parsed
      cases parsed
  | ok characters =>
      rw [decoded] at parsed
      change ((Parse.document options characters).mapError Fault.parsing >>= _) = _ at parsed
      cases read : Parse.document options characters with
      | error fault =>
          rw [read] at parsed
          cases parsed
      | ok denoted =>
          rw [read] at parsed
          refine ⟨characters, ?_⟩
          cases input with
          | text content =>
              cases parsed
              exact read
          | bytes data =>
              cases parsed
              exact read

end Parse

/-- A document whose declaration and nodes can be written. -/
structure ParsedDocument.IsWritable (document : ParsedDocument) : Prop where
  declaration : ∀ content ∈ document.declaration,
    (Leaf.instruction Name.xml content).isWritable = true
  nodes : ∀ node ∈ document.nodes, node.isWritable = true

theorem Grammar.Prologue.isWritable {text : List Char} {leaves : List Leaf}
    (written : Prologue text leaves) : ∀ leaf ∈ leaves, leaf.isWritable = true := by
  induction written with
  | nil =>
      intro leaf member
      cases member
  | comment first gap rest induction =>
      rw [List.forall_mem_cons]
      exact ⟨Leaf.isWritable_comment first, induction⟩
  | instruction first gap rest induction =>
      rw [List.forall_mem_cons]
      exact ⟨Leaf.isWritable_instruction first, induction⟩

theorem Grammar.isWritable_documentOf {leaves : List Leaf} {root : Tree}
    (writable : ∀ leaf ∈ leaves, leaf.isWritable = true) (written : root.isWritable = true) :
    (documentOf options leaves root).IsWritable := by
  have kept : ∀ others : List Leaf, (∀ leaf ∈ others, leaf ∈ leaves) →
      ∀ node ∈ (others.filter (Parse.keeps options)).map Tree.leaf ++ [root],
        node.isWritable = true := by
    intro others among node member
    rcases List.mem_append.1 member with before | last
    · rcases List.mem_map.1 before with ⟨leaf, listed, rfl⟩
      rw [Tree.isWritable]
      exact writable leaf (among leaf (List.mem_of_mem_filter listed))
    · rw [List.mem_singleton.1 last]
      exact written
  have plain : ParsedDocument.IsWritable
      { prologue := leaves.filter (Parse.keeps options), root := root } := by
    refine ⟨?_, kept leaves fun leaf member => member⟩
    intro content declared
    cases declared
  unfold documentOf
  split
  · rename_i target content rest
    split
    · rename_i same
      refine ⟨?_, kept rest fun leaf member => List.mem_cons_of_mem _ member⟩
      intro noted declared
      cases declared
      rw [← same]
      exact writable _ List.mem_cons_self
    · exact plain
  · exact plain

theorem Parse.isWritable_document {characters : List Char} {document : ParsedDocument}
    (read : Parse.document options characters = .ok document) : document.IsWritable := by
  rcases document_sound read with ⟨leaves, name, entries, pieces, derived, rfl⟩
  cases derived with
  | intro _ written fragment _ =>
      apply isWritable_documentOf written.isWritable
      have denoted : (Piece.element name entries pieces).node? options =
          some (.tag name (attributesOf entries) (nodesOf options [] pieces)) := by
        rw [Piece.node?]
      exact (Tree.isRead_of_fragment fragment denoted).2.1

end XmlGrove
