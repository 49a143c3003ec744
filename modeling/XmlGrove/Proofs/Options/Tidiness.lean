import Mathlib.Data.List.Chain
import XmlGrove.Proofs.Options.Removal
import XmlGrove.Proofs.Options.Whitespace

/-!
# The nodes of parsed documents

No text node of a parsed document is void or next to another one, and no node is there that the
options exclude, at whatever depth it is.
-/

namespace XmlGrove

open Grammar

variable {options : ParserOptions}

/-! ## Tidy trees -/

namespace Tree

/-- A node is a tree, or it is below that at any depth. -/
inductive OccursIn : Tree → Tree → Prop
  | root (tree : Tree) : OccursIn tree tree
  | inner {node child : Tree} {children : List Tree} (name : Name) (attributes : Attributes) :
      child ∈ children → OccursIn node child → OccursIn node (tag name attributes children)

/-- Of two nodes at most one is a text node. -/
def Apart (former latter : Tree) : Prop := ¬ (former.isText = true ∧ latter.isText = true)

/-- A node that is no void or blank text, that the options do not exclude, and among whose
children no two text nodes are adjacent. -/
structure IsTidy (options : ParserOptions) (node : Tree) : Prop where
  nonempty : ∀ content, node = text content → content ≠ ""
  solid : options.preserveWhitespace = false →
    ∀ content, node = text content → Text.allBlank content.toList = false
  uncommented : options.removeComments = true → node.kind ≠ .comment
  uninstructed : options.removeInstructions = true → node.kind ≠ .instruction
  apart : node.children.IsChain Apart

/-- A tree that is tidy at every depth. -/
def IsTidyThroughout (options : ParserOptions) (tree : Tree) : Prop :=
  ∀ node, OccursIn node tree → node.IsTidy options

theorem isTidyThroughout_leaf {leaf : Leaf} (tidy : (Tree.leaf leaf).IsTidy options) :
    (Tree.leaf leaf).IsTidyThroughout options := by
  rintro _ ⟨⟩
  exact tidy

theorem isTidyThroughout_tag {children : List Tree} (name : Name) (attributes : Attributes)
    (apart : children.IsChain Apart)
    (tidy : ∀ child ∈ children, child.IsTidyThroughout options) :
    (tag name attributes children).IsTidyThroughout options := by
  intro node occurs
  cases occurs with
  | root =>
      exact
        { nonempty := nofun
          solid := nofun
          uncommented := nofun
          uninstructed := nofun
          apart := apart }
  | inner _ _ member within => exact tidy _ member node within

/-- A text is tidy if it is kept. -/
theorem isTidy_text {content : String}
    (kept : isKept options.preserveWhitespace (text content) = true) :
    (text content).IsTidy options := by
  simp only [isKept, Bool.and_eq_true, bne_iff_ne, Bool.or_eq_true, Bool.not_eq_true'] at kept
  exact
    { nonempty := by
        rintro _ ⟨⟩
        exact kept.1
      solid := by
        rintro discarded _ ⟨⟩
        have solid := kept.2.resolve_left (by simp [discarded])
        simp [Text.allBlank, solid]
      uncommented := by rintro _ ⟨⟩
      uninstructed := by rintro _ ⟨⟩
      apart := .nil }

theorem isTidy_leaf {leaf : Leaf} (other : leaf.kind ≠ .text)
    (kept : Parse.keeps options leaf = true) : (Tree.leaf leaf).IsTidy options where
  nonempty := by
    rintro content ⟨⟩
    exact absurd rfl other
  solid := by
    rintro _ content ⟨⟩
    exact absurd rfl other
  uncommented := by
    intro removing kind
    cases leaf with
    | comment content => simp [Parse.keeps, removing] at kept
    | text content => cases kind
    | cdata content => cases kind
    | instruction target content => cases kind
  uninstructed := by
    intro removing kind
    cases leaf with
    | instruction target content => simp [Parse.keeps, removing] at kept
    | text content => cases kind
    | comment content => cases kind
    | cdata content => cases kind
  apart := .nil

/-! ## Pieces -/

theorem isTidyThroughout_textRun (raw : List Char) :
    ∀ node ∈ textRun options raw, node.IsTidyThroughout options := by
  intro node member
  rcases textRun_cases options raw with equal | ⟨content, equal, kept⟩
  · rw [equal] at member
    cases member
  · rw [equal, List.mem_singleton] at member
    rw [member]
    exact isTidyThroughout_leaf (isTidy_text kept)

/-- A run of text may be put in front of nodes that do not start with a text. -/
theorem isChain_textRun_append (raw : List Char) {trees : List Tree}
    (apart : trees.IsChain Apart) (other : ∀ next ∈ trees.head?, next.isText = false) :
    (textRun options raw ++ trees).IsChain Apart := by
  rcases textRun_cases options raw with equal | ⟨content, equal, kept⟩
  · rw [equal]
    exact apart
  · rw [equal]
    refine .cons apart ?_
    intro next first both
    rw [other next first] at both
    cases both.2

mutual

/-- What a piece stands for is tidy, whatever it is made of. -/
theorem isTidyThroughout_node? : (piece : Piece) →
    ∀ node ∈ piece.node? options, node.IsTidyThroughout options
  | .text characters => by
      rintro node ⟨⟩
  | .comment body => by
      intro node denoted
      rw [Piece.node?] at denoted
      split at denoted
      · cases denoted
      · rename_i keeping
        cases denoted
        exact isTidyThroughout_leaf (isTidy_leaf nofun (by simp [Parse.keeps, keeping]))
  | .cdata body => by
      rintro node ⟨⟩
      exact isTidyThroughout_leaf (isTidy_leaf nofun rfl)
  | .instruction target body => by
      intro node denoted
      rw [Piece.node?] at denoted
      split at denoted
      · cases denoted
      · rename_i keeping
        cases denoted
        exact isTidyThroughout_leaf (isTidy_leaf nofun (by simp [Parse.keeps, keeping]))
  | .element name entries pieces => by
      rintro node ⟨⟩
      rcases isTidyThroughout_nodesOf pieces [] with ⟨apart, tidy⟩
      exact isTidyThroughout_tag _ _ apart tidy

/-- The text that is pending becomes a node in front of one that is no text, or in front of
nothing. -/
theorem isTidyThroughout_nodesOf : (pieces : List Piece) → (pending : List Char) →
    (nodesOf options pending pieces).IsChain Apart ∧
      ∀ node ∈ nodesOf options pending pieces, node.IsTidyThroughout options
  | [], pending => by
      rw [nodesOf]
      have apart : (textRun options pending ++ []).IsChain Apart :=
        isChain_textRun_append pending .nil nofun
      rw [List.append_nil] at apart
      exact ⟨apart, isTidyThroughout_textRun pending⟩
  | piece :: pieces, pending => by
      cases denoted : piece.node? options with
      | none =>
          rw [nodesOf_cons_of_none denoted]
          exact isTidyThroughout_nodesOf pieces _
      | some node =>
          rw [nodesOf_cons_of_some denoted]
          rcases isTidyThroughout_nodesOf pieces [] with ⟨apart, tidy⟩
          have other := not_isText_node? denoted
          constructor
          · apply isChain_textRun_append pending (.cons apart _)
            · rintro _ ⟨⟩
              exact other
            · rintro next _ both
              rw [other] at both
              cases both.1
          · rw [List.forall_mem_append, List.forall_mem_cons]
            exact ⟨isTidyThroughout_textRun pending, isTidyThroughout_node? piece node denoted,
              tidy⟩

end

end Tree

/-! ## Documents -/

namespace Parse

open XmlGrove.Tree

theorem kind_ne_text_of_prologue {text : List Char} {leaves : List Leaf}
    (written : Prologue text leaves) : ∀ leaf ∈ leaves, leaf.kind ≠ .text := by
  induction written with
  | nil => simp
  | comment _ _ _ induction => simpa [Leaf.kind] using induction
  | instruction _ _ _ induction => simpa [Leaf.kind] using induction

/-- All nodes of a parsed document are tidy, those in the prologue, the root, and whatever is below
that. -/
theorem isTidy_of_parse {input : Input} {document : ParsedDocument} {note : Option String}
    (parsed : input.parse options = .ok (document, note)) :
    ∀ tree ∈ document.nodes, ∀ node, OccursIn node tree → node.IsTidy options := by
  rcases exists_document_of_parse parsed with ⟨characters, read⟩
  rcases document_sound read with ⟨leaves, name, entries, pieces, derived, rfl⟩
  rcases derived with ⟨_, written, _, _⟩
  rcases exists_prologue_documentOf leaves with ⟨others, among, equal⟩
  rw [ParsedDocument.nodes, root_documentOf, equal, List.forall_mem_append]
  constructor
  · intro tree member
    rcases List.mem_map.1 member with ⟨leaf, listed, rfl⟩
    rcases List.mem_filter.1 listed with ⟨inside, kept⟩
    exact isTidyThroughout_leaf
      (isTidy_leaf (kind_ne_text_of_prologue written leaf (among.subset inside)) kept)
  · intro tree member
    rw [List.mem_singleton.1 member]
    exact isTidyThroughout_node? (.element name entries pieces) _ (by rw [Piece.node?]; rfl)

/-- Texts around what is removed are one text, and the blank one behind it is dropped. -/
theorem isTidy_of_parse_removing :
    (Input.text "<p>a<!--x-->b<q/> <?y?> </p>").parse
        { removeComments := true, removeInstructions := true } =
      .ok (rootedDocument [.text "ab", .tag ⟨"q", by decide⟩ {} []], none) ∧
    ∀ node, OccursIn node (rootedDocument [.text "ab", .tag ⟨"q", by decide⟩ {} []]).root →
      node.IsTidy { removeComments := true, removeInstructions := true } := by
  have parsed : (Input.text "<p>a<!--x-->b<q/> <?y?> </p>").parse
        { removeComments := true, removeInstructions := true } =
      .ok (rootedDocument [.text "ab", .tag ⟨"q", by decide⟩ {} []], none) := by
    with_unfolding_all rfl
  exact ⟨parsed, isTidy_of_parse parsed _ (List.mem_singleton_self _)⟩

end Parse

end XmlGrove
