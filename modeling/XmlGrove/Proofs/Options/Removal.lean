import XmlGrove.Proofs.Options.Straddling
import XmlGrove.Proofs.Options.Whitespace

/-!
# Comments and processing instructions that are removed

The text around markup that is removed is decoded as one text. Hence removing markup comes to the
same as deleting the nodes and joining the texts around them, unless a reference is split by what
is removed: it is decoded then, while its parts are not.
-/

namespace XmlGrove

open Grammar Entity Parse

/-! ## Runs of text -/

/-- The same options, apart from that all nodes are kept. -/
def ParserOptions.keepingAll (options : ParserOptions) : ParserOptions :=
  { options with removeComments := false, removeInstructions := false }

open XmlGrove.Tree

variable {options : ParserOptions}

theorem textRun_eq_joinText (preserved : options.preserveWhitespace = true) (raw : List Char) :
    textRun options raw = joinText (decode raw) [] := by
  simp [textRun, joinText, preserved, prependText]

theorem joinText_cons_of_not_text (preserved : options.preserveWhitespace = true)
    (raw : List Char) {tree : Tree} (trees : List Tree) (other : tree.isText = false) :
    joinText (decode raw) (tree :: trees) = textRun options raw ++ tree :: trees := by
  rw [textRun_eq_joinText preserved, joinText, joinText]
  split
  · rfl
  · rw [prependText_cons_of_not_text _ _ other]
    rfl

/-- A run of text is in front of what remains behind it. -/
theorem joinedRemains_textRun_append (preserved : options.preserveWhitespace = true)
    (raw : List Char) (trees : List Tree) :
    joinedRemains (!keeps options ·) (textRun options.keepingAll raw ++ trees) =
      joinText (decode raw) (joinedRemains (!keeps options ·) trees) := by
  have preservedAll : options.keepingAll.preserveWhitespace = true := preserved
  rw [textRun_eq_joinText preservedAll, joinText, joinText]
  split
  · rfl
  · simp [joinedRemains, prependText, pruneAll, isLeafWith, keeps, prune, joinTextsOfAll,
      joinTexts, mergeTexts]

/-! ## References that are split -/

namespace Grammar

/-- The text in front of the first node that pieces stand for. -/
def leadingText (options : ParserOptions) : List Piece → List Char
  | [] => []
  | piece :: rest =>
    match piece.node? options with
    | some _ => []
    | none => piece.characters ++ leadingText options rest

mutual

/-- Tell whether markup that is removed within an element splits a reference. -/
def Piece.splitsReference (options : ParserOptions) : Piece → Bool
  | .element _ _ pieces => splitReference options [] pieces
  | _ => false

/-- Tell whether a reference is split by markup among pieces, behind text that belongs to the
first of their runs. -/
def splitReference (options : ParserOptions) (near : List Char) : List Piece → Bool
  | [] => false
  | .text characters :: rest => splitReference options (near ++ characters) rest
  | piece :: rest =>
    match piece.node? options with
    | some _ => piece.splitsReference options || splitReference options [] rest
    | none =>
      decide (Straddles near (leadingText options rest)) || splitReference options near rest

end

example :
    splitReference { removeComments := true } []
        [.text "&a".toList, .comment [], .text "m".toList, .comment [], .text "p;".toList] =
      true := by
  decide

/-- Markup that the options remove is within a reference in the content of a document. -/
def HoldsSplitReference (options : ParserOptions) (text : List Char) : Prop :=
  ∃ leaves name entries pieces, Document text leaves (.element name entries pieces) ∧
    splitReference options [] pieces = true

/-- A piece is text, or a leaf that is removed, or it stands for a node under all options. -/
theorem Piece.cases (options : ParserOptions) (piece : Piece) :
    (∃ characters, piece = .text characters) ∨
    (∃ content, piece.node? options.keepingAll = some (.leaf content) ∧
      keeps options content = false ∧ piece.node? options = none ∧ piece.characters = []) ∨
    (∃ node kept, piece.node? options.keepingAll = some node ∧
      node.isLeafWith (!keeps options ·) = false ∧ piece.node? options = some kept) := by
  cases piece with
  | text characters => exact .inl ⟨characters, rfl⟩
  | comment body =>
      cases removed : options.removeComments with
      | true =>
          exact .inr (.inl ⟨.comment (String.ofList body), rfl, by simp [keeps, removed],
            by simp [Piece.node?, removed], rfl⟩)
      | false =>
          exact .inr (.inr ⟨_, _, rfl, by simp [isLeafWith, keeps, removed],
            by simp [Piece.node?, removed]; rfl⟩)
  | cdata body => exact .inr (.inr ⟨_, _, rfl, rfl, rfl⟩)
  | instruction target body =>
      cases removed : options.removeInstructions with
      | true =>
          exact .inr (.inl ⟨.instruction target (String.ofList body), rfl, by simp [keeps, removed],
            by simp [Piece.node?, removed], rfl⟩)
      | false =>
          exact .inr (.inr ⟨_, _, rfl, by simp [isLeafWith, keeps, removed],
            by simp [Piece.node?, removed]; rfl⟩)
  | element name entries pieces => exact .inr (.inr ⟨_, _, rfl, rfl, rfl⟩)

theorem nodesOf_cons_of_some {piece : Piece} {node : Tree}
    (denoted : piece.node? options = some node) (pending : List Char) (rest : List Piece) :
    nodesOf options pending (piece :: rest) =
      textRun options pending ++ node :: nodesOf options [] rest := by
  rw [nodesOf, denoted]

theorem nodesOf_cons_of_none {piece : Piece} (denoted : piece.node? options = none)
    (pending : List Char) (rest : List Piece) :
    nodesOf options pending (piece :: rest) =
      nodesOf options (pending ++ piece.characters) rest := by
  rw [nodesOf, denoted]

theorem leadingText_cons_of_some {piece : Piece} {node : Tree}
    (denoted : piece.node? options = some node) (rest : List Piece) :
    leadingText options (piece :: rest) = [] := by
  rw [leadingText, denoted]

theorem leadingText_cons_of_none {piece : Piece} (denoted : piece.node? options = none)
    (rest : List Piece) :
    leadingText options (piece :: rest) = piece.characters ++ leadingText options rest := by
  rw [leadingText, denoted]

theorem splitReference_cons_of_some {piece : Piece} {node : Tree}
    (denoted : piece.node? options = some node) (near : List Char) (rest : List Piece) :
    splitReference options near (piece :: rest) =
      (piece.splitsReference options || splitReference options [] rest) := by
  cases piece with
  | text characters => cases denoted
  | comment body => simp only [splitReference, denoted]
  | cdata body => simp only [splitReference, denoted]
  | instruction target body => simp only [splitReference, denoted]
  | element name entries pieces => simp only [splitReference, denoted]

theorem splitReference_cons_of_removed {piece : Piece} {node : Tree}
    (plain : piece.node? options.keepingAll = some node) (denoted : piece.node? options = none)
    (near : List Char) (rest : List Piece) :
    splitReference options near (piece :: rest) =
      (decide (Straddles near (leadingText options rest)) || splitReference options near rest) := by
  cases piece with
  | text characters => cases plain
  | comment body => simp only [splitReference, denoted]
  | cdata body => cases denoted
  | instruction target body => simp only [splitReference, denoted]
  | element name entries pieces => cases denoted

/-! ## Contents without split references -/

theorem node?_eq_of_leaf {piece : Piece} {content : Leaf} {kept : Tree}
    (plain : piece.node? options.keepingAll = some (.leaf content))
    (given : piece.node? options = some kept) : kept = .leaf content := by
  cases piece with
  | text characters => cases given
  | comment body =>
      cases plain
      rw [Piece.node?] at given
      split at given
      · cases given
      · cases given
        rfl
  | cdata body =>
      cases plain
      cases given
      rfl
  | instruction target body =>
      cases plain
      rw [Piece.node?] at given
      split at given
      · cases given
      · cases given
        rfl
  | element name entries pieces => cases plain

mutual

theorem node?_eq_joinTexts_prune (preserved : options.preserveWhitespace = true) :
    (piece : Piece) → {node kept : Tree} → piece.node? options.keepingAll = some node →
      piece.node? options = some kept → piece.splitsReference options = false →
      kept = (node.prune (!keeps options ·)).joinTexts
  | .text _, _, _, plain, _, _ => by cases plain
  | .comment _, _, _, plain, given, _ => by
      cases plain
      rw [node?_eq_of_leaf rfl given]
      rfl
  | .cdata _, _, _, plain, given, _ => by
      cases plain
      rw [node?_eq_of_leaf rfl given]
      rfl
  | .instruction _ _, _, _, plain, given, _ => by
      cases plain
      rw [node?_eq_of_leaf rfl given]
      rfl
  | .element name entries pieces, _, _, plain, given, whole => by
      cases plain
      cases given
      rw [Piece.splitsReference] at whole
      exact congrArg (Tree.tag name (attributesOf entries))
        (nodesOf_eq_joinedRemains preserved pieces [] [] (not_straddles_nil _) whole)

/-- Without a split reference, removing markup comes to the same as deleting nodes and joining
texts. Of the text in front of the pieces a part is decoded already. -/
theorem nodesOf_eq_joinedRemains (preserved : options.preserveWhitespace = true) :
    (pieces : List Piece) → (flushed pending : List Char) →
      ¬ Straddles flushed (pending ++ leadingText options pieces) →
      splitReference options (flushed ++ pending) pieces = false →
      nodesOf options (flushed ++ pending) pieces =
        joinText (decode flushed)
          (joinedRemains (!keeps options ·) (nodesOf options.keepingAll pending pieces))
  | [], flushed, pending, apart, _ => by
      rw [leadingText, List.append_nil] at apart
      rw [nodesOf, nodesOf, textRun_eq_joinText preserved, decode_append apart,
        ← List.append_nil (textRun _ pending),
        joinedRemains_textRun_append preserved, joinText_joinText]
      rfl
  | piece :: rest, flushed, pending, apart, whole => by
      rcases Piece.cases options piece with ⟨characters, rfl⟩ |
        ⟨content, plain, gone, denoted, silent⟩ | ⟨node, kept, plain, stays, denoted⟩
      · rw [leadingText_cons_of_none rfl, ← List.append_assoc] at apart
        rw [splitReference, List.append_assoc] at whole
        rw [nodesOf_cons_of_none rfl, nodesOf_cons_of_none rfl, List.append_assoc]
        exact nodesOf_eq_joinedRemains preserved rest flushed _ apart whole
      · rw [splitReference_cons_of_removed plain denoted, Bool.or_eq_false_iff,
          decide_eq_false_iff_not] at whole
        rw [leadingText_cons_of_none denoted, silent, List.nil_append] at apart
        -- In front of what is removed the text is decoded without what follows it.
        have parts := fun straddling => apart (Straddles.append straddling _)
        have behind := nodesOf_eq_joinedRemains preserved rest (flushed ++ pending) [] whole.1
          (by rw [List.append_nil]; exact whole.2)
        rw [List.append_nil] at behind
        have dropped : (Tree.leaf content).isLeafWith (!keeps options ·) = true := by
          simp [isLeafWith, gone]
        rw [nodesOf_cons_of_none denoted, silent, List.append_nil, behind,
          nodesOf_cons_of_some plain, joinedRemains_textRun_append preserved,
          joinText_joinText, ← decode_append parts, joinedRemains_cons_of_dropped _ dropped]
      · rw [splitReference_cons_of_some denoted, Bool.or_eq_false_iff] at whole
        rw [leadingText_cons_of_some denoted, List.append_nil] at apart
        have other := not_isText_node? denoted
        have equal := node?_eq_joinTexts_prune preserved piece plain denoted whole.1
        have behind := nodesOf_eq_joinedRemains preserved rest [] [] (not_straddles_nil _) whole.2
        rw [List.append_nil] at behind
        rw [nodesOf_cons_of_some denoted, behind, nodesOf_cons_of_some plain,
          joinedRemains_textRun_append preserved,
          joinedRemains_cons_of_kept _ stays (equal ▸ other), ← equal, joinText_joinText,
          ← decode_append apart, joinText_cons_of_not_text preserved _ _ other]
        rfl

end

/-! ## Full texts -/

theorem length_fullTextOfAll_textRun_append (preserved : options.preserveWhitespace = true)
    (raw : List Char) (trees : List Tree) :
    (fullTextOfAll (textRun options raw ++ trees)).length =
      (decode raw).length + (fullTextOfAll trees).length := by
  rw [textRun_eq_joinText preserved, joinText]
  split
  · rename_i void
    simp [void]
  · simp [prependText, fullTextOfAll, fullText]

theorem length_fullTextOfAll_textRun (preserved : options.preserveWhitespace = true)
    (raw : List Char) :
    (fullTextOfAll (textRun options raw)).length = (decode raw).length := by
  simpa [fullTextOfAll] using length_fullTextOfAll_textRun_append preserved raw []

mutual

theorem length_fullText_node? (preserved : options.preserveWhitespace = true) :
    (piece : Piece) → {node kept : Tree} → piece.node? options.keepingAll = some node →
      piece.node? options = some kept →
      kept.fullText.length ≤ node.fullText.length ∧
        (piece.splitsReference options = true → kept.fullText.length < node.fullText.length)
  | .text _, _, _, plain, _ => by cases plain
  | .comment _, _, _, plain, given => by
      cases plain
      rw [node?_eq_of_leaf rfl given]
      simp [Piece.splitsReference]
  | .cdata _, _, _, plain, given => by
      cases plain
      rw [node?_eq_of_leaf rfl given]
      simp [Piece.splitsReference]
  | .instruction _ _, _, _, plain, given => by
      cases plain
      rw [node?_eq_of_leaf rfl given]
      simp [Piece.splitsReference]
  | .element name entries pieces, _, _, plain, given => by
      cases plain
      cases given
      have shorter := length_fullText_nodesOf preserved pieces [] []
      simpa [fullText, Piece.splitsReference, decode, decodeSkipping] using shorter

/-- The text without removed markup is not longer, and shorter with a split reference. -/
theorem length_fullText_nodesOf (preserved : options.preserveWhitespace = true) :
    (pieces : List Piece) → (flushed pending : List Char) →
      (fullTextOfAll (nodesOf options (flushed ++ pending) pieces)).length ≤
        (decode flushed).length +
          (fullTextOfAll (nodesOf options.keepingAll pending pieces)).length ∧
      (Straddles flushed (pending ++ leadingText options pieces) ∨
          splitReference options (flushed ++ pending) pieces = true →
        (fullTextOfAll (nodesOf options (flushed ++ pending) pieces)).length <
          (decode flushed).length +
            (fullTextOfAll (nodesOf options.keepingAll pending pieces)).length)
  | [], flushed, pending => by
      have preservedAll : options.keepingAll.preserveWhitespace = true := preserved
      rw [nodesOf, nodesOf, leadingText, List.append_nil,
        length_fullTextOfAll_textRun preserved, length_fullTextOfAll_textRun preservedAll]
      refine ⟨length_decode_append_le flushed pending, fun split => ?_⟩
      rcases split with straddling | split
      · exact length_decode_append_lt straddling
      · cases split
  | piece :: rest, flushed, pending => by
      have preservedAll : options.keepingAll.preserveWhitespace = true := preserved
      have together := length_decode_append_le flushed pending
      rcases Piece.cases options piece with ⟨characters, rfl⟩ |
        ⟨content, plain, gone, denoted, silent⟩ | ⟨node, kept, plain, -, denoted⟩
      · rw [nodesOf_cons_of_none rfl, nodesOf_cons_of_none rfl, leadingText_cons_of_none rfl,
          splitReference, List.append_assoc flushed, List.append_assoc flushed,
          ← List.append_assoc pending]
        exact length_fullText_nodesOf preserved rest flushed _
      · have dropped : (Tree.leaf content).isLeafWith (!keeps options ·) = true := by
          simp [isLeafWith, gone]
        have later := length_fullText_nodesOf preserved rest (flushed ++ pending) []
        rw [List.append_nil, List.nil_append] at later
        rw [nodesOf_cons_of_none denoted, silent, List.append_nil, nodesOf_cons_of_some plain,
          length_fullTextOfAll_textRun_append preservedAll, fullTextOfAll,
          fullText_of_isLeafWith (fun _ => rfl) dropped, String.empty_append,
          leadingText_cons_of_none denoted, silent, List.nil_append,
          splitReference_cons_of_removed plain denoted, Bool.or_eq_true, decide_eq_true_iff]
        refine ⟨by omega, fun split => ?_⟩
        -- A reference that ends behind the pending text is across the cut at what is removed.
        have behind : Straddles flushed pending ∨
            (Straddles (flushed ++ pending) (leadingText options rest) ∨
              splitReference options (flushed ++ pending) rest = true) := by
          rcases split with straddling | split
          · exact straddling.cases.imp_right .inl
          · exact .inr split
        rcases behind with straddling | split
        · have shorter := length_decode_append_lt straddling
          omega
        · have shorter := later.2 split
          omega
      · have inside := length_fullText_node? preserved piece plain denoted
        have later := length_fullText_nodesOf preserved rest [] []
        have void : (decode []).length = 0 := rfl
        rw [List.append_nil, void] at later
        rw [nodesOf_cons_of_some denoted, nodesOf_cons_of_some plain,
          length_fullTextOfAll_textRun_append preserved,
          length_fullTextOfAll_textRun_append preservedAll, fullTextOfAll, fullTextOfAll,
          String.length_append, String.length_append, leadingText_cons_of_some denoted,
          List.append_nil, splitReference_cons_of_some denoted, Bool.or_eq_true]
        refine ⟨by omega, fun split => ?_⟩
        rcases split with straddling | split | split
        · have shorter := length_decode_append_lt straddling
          omega
        · have shorter := inside.2 split
          omega
        · have shorter := later.2 (.inr split)
          omega

end

end Grammar

/-! ## Documents -/

namespace Parse

/-- Of each derivation of a document the pieces tell whether a reference is split. -/
theorem root_of_derived (preserved : options.preserveWhitespace = true) {text : List Char}
    {leaves : List Leaf} {name : Name} {entries : List (Name × List Char)} {pieces : List Piece}
    {plain removed : ParsedDocument}
    (derived : Grammar.Document text leaves (.element name entries pieces))
    (plainRead : document options.keepingAll text = .ok plain)
    (removedRead : document options text = .ok removed) :
    (splitReference options [] pieces = false →
      removed.root = (plain.root.prune (!keeps options ·)).joinTexts) ∧
    (splitReference options [] pieces = true →
      removed.root.fullText.length < plain.root.fullText.length) := by
  rw [document_complete _ derived] at plainRead removedRead
  cases plainRead
  cases removedRead
  rw [root_documentOf, root_documentOf]
  have denoted (others : ParserOptions) : (Piece.element name entries pieces).node? others =
      some (.tag name (attributesOf entries) (nodesOf others [] pieces)) := by
    rw [Piece.node?]
  constructor
  · intro whole
    exact node?_eq_joinTexts_prune preserved _ (denoted _) (denoted _) whole
  · intro split
    exact (length_fullText_node? preserved _ (denoted _) (denoted _)).2 split

/-- With markup removed a document that preserves blank texts is parsed to the same tree as
without, from which the removed nodes are deleted and in which adjacent texts are joined, unless
removed markup is within a reference. Exactly then the full text is another one. -/
theorem parse_removing_eq_iff (options : ParserOptions) (content : String)
    (plain : ParsedDocument) (note : Option String)
    (preserved : options.preserveWhitespace = true)
    (parsed : (Input.text content).parse options.keepingAll = .ok (plain, note)) :
    ∃ removed, (Input.text content).parse options = .ok (removed, note) ∧
      (removed.root = (plain.root.prune (!keeps options ·)).joinTexts ↔
        ¬ HoldsSplitReference options content.toList) ∧
      (removed.root.fullText = plain.root.fullText ↔
        ¬ HoldsSplitReference options content.toList) := by
  rcases parse_text_eq_ok_iff.1 parsed with ⟨plainRead, noted⟩
  rcases document_sound plainRead with ⟨leaves, name, entries, pieces, derived, -⟩
  have removedRead := document_complete options derived
  generalize documentOf options leaves _ = removed at removedRead
  have sameHeading := document_heading options options.keepingAll content.toList
  rw [removedRead, plainRead] at sameHeading
  have sameNote : removed.warning? = plain.warning? :=
    warning?_eq_of_heading (Except.ok.inj sameHeading)
  have joins : ¬ HoldsSplitReference options content.toList →
      removed.root = (plain.root.prune (!keeps options ·)).joinTexts := by
    intro whole
    apply (root_of_derived preserved derived plainRead removedRead).1
    rw [Bool.eq_false_iff]
    exact fun split => whole ⟨leaves, name, entries, pieces, derived, split⟩
  have shortens : HoldsSplitReference options content.toList →
      removed.root.fullText.length < plain.root.fullText.length := by
    intro ⟨_, _, _, _, otherDerived, split⟩
    exact (root_of_derived preserved otherDerived plainRead removedRead).2 split
  have sameText : removed.root = (plain.root.prune (!keeps options ·)).joinTexts →
      removed.root.fullText = plain.root.fullText := by
    intro equal
    rw [equal]
    exact fullText_joinTexts_prune (fun _ => rfl) plain.root
  have differs : removed.root.fullText = plain.root.fullText →
      ¬ HoldsSplitReference options content.toList := by
    intro equal split
    have shorter := shortens split
    rw [equal] at shorter
    exact Nat.lt_irrefl _ shorter
  refine ⟨removed, parse_text_eq_ok_iff.2 ⟨removedRead, ?_⟩, ?_, ?_⟩
  · rw [sameNote]
    exact noted
  · exact ⟨fun equal => differs (sameText equal), joins⟩
  · exact ⟨differs, fun whole => sameText (joins whole)⟩

/-- Blank texts are preserved, comments and processing instructions are not. -/
def textOptions : ParserOptions where
  preserveWhitespace := true
  removeComments := true
  removeInstructions := true

/-- A document whose root has the given nodes. -/
def rootedDocument (children : List Tree) : ParsedDocument where
  prologue := []
  root := .tag ⟨"p", by decide⟩ {} children

/-- A comment is within a reference, which is decoded if the comment is removed. -/
theorem parse_referenceDocument :
    (Input.text "<p>&am<!--x-->p;</p>").parse textOptions.keepingAll =
      .ok (rootedDocument [.text "&am", .leaf (.comment "x"), .text "p;"], none) ∧
    (Input.text "<p>&am<!--x-->p;</p>").parse textOptions =
      .ok (rootedDocument [.text "&"], none) := by
  constructor
  · with_unfolding_all rfl
  · with_unfolding_all rfl

/-- What is removed in the first text is next to a reference, not within one. -/
theorem parse_removing_eq_iff_references :
    (Input.text "<p>x<!--&-->&amp;<?amp ;?>y</p>").parse textOptions =
      .ok (rootedDocument [.text "x&y"], none) ∧
    ¬ HoldsSplitReference textOptions "<p>x<!--&-->&amp;<?amp ;?>y</p>".toList ∧
    HoldsSplitReference textOptions "<p>&am<!--x-->p;</p>".toList := by
  have plainParsed : (Input.text "<p>x<!--&-->&amp;<?amp ;?>y</p>").parse
      textOptions.keepingAll = .ok (rootedDocument [.text "x", .leaf (.comment "&"), .text "&",
        .leaf (.instruction ⟨"amp", by decide⟩ ";"), .text "y"], none) := by
    with_unfolding_all rfl
  have removedParsed : (Input.text "<p>x<!--&-->&amp;<?amp ;?>y</p>").parse textOptions =
      .ok (rootedDocument [.text "x&y"], none) := by
    with_unfolding_all rfl
  refine ⟨removedParsed, ?_, ?_⟩
  · rcases parse_removing_eq_iff textOptions _ _ none rfl plainParsed with
      ⟨removed, parsed, -, sameText⟩
    rw [removedParsed] at parsed
    cases parsed
    exact sameText.1 (by simp [rootedDocument, fullText, fullTextOfAll])
  · rcases parse_removing_eq_iff textOptions _ _ none rfl parse_referenceDocument.1 with
      ⟨removed, parsed, -, sameText⟩
    rw [parse_referenceDocument.2] at parsed
    cases parsed
    by_contra whole
    have equal := sameText.2 whole
    simp [rootedDocument, fullText, fullTextOfAll] at equal

/-- To remove a comment may be more than to delete its node: the text that is read is another
one than the one that is read with the comment. -/
theorem not_parse_removing_eq :
    ¬ ∀ (options : ParserOptions) (content : String) (plain : ParsedDocument)
      (note : Option String), options.preserveWhitespace = true →
      (Input.text content).parse options.keepingAll = .ok (plain, note) →
      ∃ removed, (Input.text content).parse options = .ok (removed, note) ∧
        removed.root = (plain.root.prune (!keeps options ·)).joinTexts ∧
        removed.root.fullText = plain.root.fullText := by
  intro always
  rcases always textOptions _ _ none rfl parse_referenceDocument.1 with
    ⟨removed, parsed, -, sameText⟩
  rw [parse_referenceDocument.2] at parsed
  cases parsed
  simp [rootedDocument, fullText, fullTextOfAll] at sameText

end Parse

end XmlGrove
