import XmlGrove.Proofs.Options.Independence
import XmlGrove.Proofs.Options.Pruning

/-!
# Blank texts as a matter of options

Whether blank texts are preserved makes no other difference than that: the nodes of a document
without them are its nodes with them, of which the blank text nodes are deleted at every depth.
-/

namespace XmlGrove

open Grammar

/-! ## Contents -/

namespace Grammar

open XmlGrove.Tree

theorem not_isText_node? {options : ParserOptions} {piece : Piece} {node : Tree}
    (denoted : piece.node? options = some node) : node.isText = false := by
  cases piece with
  | text characters => cases denoted
  | comment body =>
      rw [Piece.node?] at denoted
      split at denoted
      · cases denoted
      · cases denoted
        rfl
  | cdata body =>
      cases denoted
      rfl
  | instruction target body =>
      rw [Piece.node?] at denoted
      split at denoted
      · cases denoted
      · cases denoted
        rfl
  | element name entries pieces =>
      cases denoted
      rfl

/-- A run that is not preserved is blank as a text node. -/
theorem pruneAll_textRun (options : ParserOptions) (raw : List Char) :
    pruneAll Leaf.isBlankText (textRun { options with preserveWhitespace := true } raw) =
      textRun { options with preserveWhitespace := false } raw := by
  cases decoded : Entity.decode raw with
  | nil => simp [textRun, decoded, pruneAll]
  | cons first rest =>
      cases blank : (first :: rest).all Text.isBlank with
      | true =>
          simp [textRun, decoded, pruneAll, isLeafWith, Leaf.isBlankText, Text.allBlank, blank]
      | false =>
          simp [textRun, decoded, pruneAll, isLeafWith, Leaf.isBlankText, Text.allBlank, blank,
            prune]

mutual

theorem node?_eq_prune (options : ParserOptions) : (piece : Piece) →
    piece.node? { options with preserveWhitespace := false } =
      (piece.node? { options with preserveWhitespace := true }).map (prune Leaf.isBlankText)
  | .text characters => by rw [Piece.node?, Piece.node?]; rfl
  | .comment body => by
      rw [Piece.node?, Piece.node?]
      cases options.removeComments with
      | true => rfl
      | false => rfl
  | .cdata body => by rw [Piece.node?, Piece.node?]; rfl
  | .instruction target body => by
      rw [Piece.node?, Piece.node?]
      cases options.removeInstructions with
      | true => rfl
      | false => rfl
  | .element name entries pieces => by
      rw [Piece.node?, Piece.node?, nodesOf_eq_pruneAll options pieces]
      rfl

/-- Blank texts are deleted from what pieces stand for, and nothing else. -/
theorem nodesOf_eq_pruneAll (options : ParserOptions) : (pieces : List Piece) →
    (pending : List Char) →
    nodesOf { options with preserveWhitespace := false } pending pieces =
      pruneAll Leaf.isBlankText (nodesOf { options with preserveWhitespace := true } pending pieces)
  | [], pending => by
      rw [nodesOf, nodesOf, pruneAll_textRun]
  | piece :: rest, pending => by
      rw [nodesOf, nodesOf, node?_eq_prune options piece]
      cases denoted : piece.node? { options with preserveWhitespace := true } with
      | none => exact nodesOf_eq_pruneAll options rest _
      | some node =>
          have kept := isLeafWith_isBlankText_of_not_text (not_isText_node? denoted)
          rw [Option.map_some, pruneAll_append, pruneAll_textRun, pruneAll_cons_of_kept _ kept,
            nodesOf_eq_pruneAll options rest]

end

end Grammar

/-! ## Documents -/

namespace Parse

open XmlGrove.Tree

theorem not_isBlankText_of_prologue {text : List Char} {leaves : List Leaf}
    (written : Prologue text leaves) : ∀ leaf ∈ leaves, leaf.isBlankText = false := by
  induction written with
  | nil => simp
  | comment _ _ _ induction => simpa [Leaf.isBlankText] using induction
  | instruction _ _ _ induction => simpa [Leaf.isBlankText] using induction

/-- All leaves in front of a root, the declaration aside, are in the prologue if they are kept. -/
theorem exists_prologue_documentOf (leaves : List Leaf) :
    ∃ others, others <:+ leaves ∧ ∀ options root,
      (documentOf options leaves root).prologue = others.filter (keeps options) := by
  unfold documentOf
  split
  · split
    · exact ⟨_, List.suffix_cons _ _, fun _ _ => rfl⟩
    · exact ⟨_, List.suffix_refl _, fun _ _ => rfl⟩
  · exact ⟨_, List.suffix_refl _, fun _ _ => rfl⟩

theorem nodes_documentOf_eq_pruneAll (options : ParserOptions) {text : List Char}
    {leaves : List Leaf} (written : Prologue text leaves) (name : Name)
    (entries : List (Name × List Char)) (pieces : List Piece) :
    (documentOf { options with preserveWhitespace := false } leaves
      (.tag name (attributesOf entries)
        (nodesOf { options with preserveWhitespace := false } [] pieces))).nodes =
    pruneAll Leaf.isBlankText (documentOf { options with preserveWhitespace := true } leaves
      (.tag name (attributesOf entries)
        (nodesOf { options with preserveWhitespace := true } [] pieces))).nodes := by
  rcases exists_prologue_documentOf leaves with ⟨others, among, equal⟩
  have filled : ∀ leaf ∈ others.filter (keeps options), (!leaf.isBlankText) = true := by
    intro leaf member
    have inside := among.subset (List.mem_filter.1 member).1
    simp [not_isBlankText_of_prologue written leaf inside]
  rw [ParsedDocument.nodes, ParsedDocument.nodes, root_documentOf, root_documentOf, equal, equal,
    pruneAll_append, pruneAll_leaves, nodesOf_eq_pruneAll]
  have kept := List.filter_eq_self.2 filled
  exact congrArg (fun leaves => leaves.map Tree.leaf ++ _) kept.symm

theorem document_nodes_eq_pruneAll (options : ParserOptions) (text : List Char) :
    (document { options with preserveWhitespace := false } text).map ParsedDocument.nodes =
      (document { options with preserveWhitespace := true } text).map
        fun parsed => pruneAll Leaf.isBlankText parsed.nodes := by
  have same := document_heading { options with preserveWhitespace := false }
    { options with preserveWhitespace := true } text
  cases read : document { options with preserveWhitespace := true } text with
  | error fault =>
      rw [read] at same
      rw [map_eq_error_iff.1 same]
      rfl
  | ok parsed =>
      rcases document_sound read with ⟨leaves, name, entries, pieces, derived, rfl⟩
      rw [document_complete _ derived]
      rcases derived with ⟨_, written, _, _⟩
      exact congrArg Except.ok (nodes_documentOf_eq_pruneAll options written name entries pieces)

theorem warning?_eq_of_heading {former latter : ParsedDocument}
    (same : former.heading = latter.heading) : former.warning? = latter.warning? := by
  simp only [ParsedDocument.heading, Prod.mk.injEq] at same
  simp [ParsedDocument.warning?, same]

theorem map_parse_text (options : ParserOptions) (content : String)
    (view : ParsedDocument × Option String → α) :
    ((Input.text content).parse options).map view =
      ((document options content.toList).map fun parsed =>
        view (parsed, parsed.warning?)).mapError Fault.parsing := by
  rw [parse_text_eq]
  cases document options content.toList with
  | error fault => rfl
  | ok parsed => rfl

/-- Under all options a text fails to parse with the same fault, or it parses to documents with
the same heading, and the same is noted. Without blank texts the nodes are those with them, of
which the blank text nodes are deleted at every depth. -/
theorem parse_heading_eq_and_nodes_eq_pruneAll (first second : ParserOptions)
    (content : String) :
    ((Input.text content).parse first).map (fun result => (result.1.heading, result.2)) =
      ((Input.text content).parse second).map (fun result => (result.1.heading, result.2)) ∧
    ((Input.text content).parse { first with preserveWhitespace := false }).map (·.1.nodes) =
      ((Input.text content).parse { first with preserveWhitespace := true }).map
        fun result => pruneAll Leaf.isBlankText result.1.nodes := by
  simp only [map_parse_text]
  constructor
  · have same := document_heading first second content.toList
    cases read : document first content.toList with
    | error fault =>
        rw [read] at same
        rw [map_eq_error_iff.1 same.symm]
    | ok parsed =>
        rw [read] at same
        rcases map_eq_ok_iff.1 same.symm with ⟨other, otherRead, equal⟩
        rw [otherRead]
        simp [Except.map, equal, warning?_eq_of_heading equal]
  · exact congrArg (Except.mapError Fault.parsing)
      (document_nodes_eq_pruneAll first content.toList)

end Parse

end XmlGrove
