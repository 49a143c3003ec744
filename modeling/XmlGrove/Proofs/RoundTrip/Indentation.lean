import XmlGrove.Proofs.RoundTrip.Parsed

/-!
# Indented trees

The indented layout adds blank texts between the nodes of an element, and only where no text is
that they could alter. Where blank texts are dropped, a tree is hence read from its indented form
as it is from its canonical one.
-/

namespace XmlGrove

open Grammar Text

variable {options : ParserOptions}

/-! ## Blank texts -/

theorem Grammar.Blanks.not_mem {text : List Char} (blank : Blanks text) {character : Char}
    (solid : isBlank character = false) : character ∉ text := by
  intro member
  rw [blank character member] at solid
  cases solid

theorem Entity.encodeText_of_blanks {text : List Char} (blank : Blanks text) :
    encodeText text = text := by
  have single : ∀ character ∈ text, encodeInText character = [character] := by
    intro character member
    have plain : ∀ special, isBlank special = false → character ≠ special := by
      intro special solid equal
      exact blank.not_mem solid (equal ▸ member)
    rw [encodeInText, if_neg (plain '&' (by decide)), if_neg (plain '<' (by decide)),
      if_neg (plain '>' (by decide))]
  rw [encodeText, List.flatMap_congr single, List.flatMap_singleton']

theorem Entity.decode_of_blanks {raw : List Char} (blank : Blanks raw) : decode raw = raw := by
  induction raw with
  | nil => rfl
  | cons first rest induction =>
      have different : first ≠ '&' := by
        rintro rfl
        exact blank.not_mem (by decide) List.mem_cons_self
      rw [decode_cons rest different, induction]
      exact fun character member => blank character (List.mem_cons_of_mem _ member)

theorem Grammar.textRun_of_blanks (drops : options.preserveWhitespace = false) {raw : List Char}
    (blank : Blanks raw) : textRun options raw = [] := by
  have decoded : (Entity.decode raw).all Text.isBlank = true := by
    rw [Entity.decode_of_blanks blank, List.all_eq_true]
    exact blank
  simp [textRun, drops, decoded]

theorem Grammar.Blanks.append {first second : List Char} (firstBlank : Blanks first)
    (secondBlank : Blanks second) : Blanks (first ++ second) := by
  intro character member
  rcases List.mem_append.1 member with member | member
  · exact firstBlank character member
  · exact secondBlank character member

/-- Among blank texts, only the nodes count. -/
theorem Grammar.nodesOf_of_blanks (drops : options.preserveWhitespace = false)
    {pending : List Char} {pieces : List Piece} (pendingBlank : Blanks pending)
    (blank : ∀ piece ∈ pieces, Blanks piece.characters) :
    nodesOf options pending pieces = pieces.filterMap (Piece.node? options) := by
  induction pieces generalizing pending with
  | nil => rw [nodesOf, textRun_of_blanks drops pendingBlank, List.filterMap_nil]
  | cons piece rest induction =>
      have pieceBlank := blank piece List.mem_cons_self
      have restBlank := fun other member => blank other (List.mem_cons_of_mem piece member)
      rw [nodesOf]
      cases denoted : piece.node? options with
      | none =>
          rw [List.filterMap_cons_none denoted]
          exact induction (pendingBlank.append pieceBlank) restBlank
      | some node =>
          rw [List.filterMap_cons_some denoted, textRun_of_blanks drops pendingBlank,
            induction blanks_nil restBlank]
          rfl

theorem blanks_normalizeLineEndings {text : List Char} (blank : Blanks text) :
    Blanks (normalizeLineEndings text) := by
  have all : (normalizeLineEndings text).all isBlank = true := by
    rw [all_isBlank_normalizeLineEndings, List.all_eq_true]
    exact blank
  exact List.all_eq_true.1 all

theorem blanks_feed : Blanks ['\n'] := blanks_nil.cons (by decide)

/-! ## The pieces of an indented tree -/

/-- The characters that a line starts with at a level. -/
def margin (indentation : String) (level : Nat) : List Char :=
  normalizeLineEndings (Tree.indentationFor indentation level).toList

theorem blanks_margin {indentation : String} (blank : Blanks indentation.toList) (level : Nat) :
    Blanks (margin indentation level) := by
  apply blanks_normalizeLineEndings
  intro character member
  rw [Tree.indentationFor, String.toList_join] at member
  rcases List.mem_flatMap.1 member with ⟨copy, copied, inside⟩
  rw [List.eq_of_mem_replicate copied] at inside
  exact blank character inside

namespace Tree

mutual

/-- The piece that a tree is written as in the indented layout, without the line around it. -/
def toIndentedPiece (indentation : String) (level : Nat) : Tree → Piece
  | leaf content => content.toPiece
  | tag name attributes children =>
    if holdCharacterData children then (tag name attributes children).toPiece
    else
      .element name (attributes.sorted.map writtenEntry)
        (.text ['\n'] :: toIndentedPieces indentation (level + 1) children ++
          [.text (margin indentation level)])

/-- The pieces that sibling trees are written as, each on a line of its own unless it is text. -/
def toIndentedPieces (indentation : String) (level : Nat) : List Tree → List Piece
  | [] => []
  | first :: rest =>
    (if first.isText then [first.toPiece]
      else [.text (margin indentation level), first.toIndentedPiece indentation level,
        .text ['\n']]) ++
      toIndentedPieces indentation level rest

end

end Tree

/-! ## Indented trees are derivable -/

theorem Grammar.Content.append {first second : List Char} {former latter : List Piece} :
    Content first former → Content second latter → Content (first ++ second) (former ++ latter)
  | .nil, content => content
  | .cons fragment rest, content => by
      rw [List.append_assoc, List.cons_append]
      exact .cons fragment (rest.append content)

theorem Grammar.Fragment.content {text : List Char} {piece : Piece}
    (fragment : Fragment text piece) :
    Content text [piece] := by
  have single := Content.cons fragment .nil
  rwa [List.append_nil] at single

theorem Grammar.Blanks.fragment {text : List Char} (blank : Blanks text) :
    Fragment text (.text text) := by
  exact .text (blank.not_mem (by decide))

/-- The line endings around a piece of markup do not run into it. -/
theorem normalizeLineEndings_line (before : List Char) {markup rest : List Char}
    (enclosed : markup = '<' :: (rest ++ ['>'])) :
    normalizeLineEndings (before ++ (markup ++ ['\n'])) =
      normalizeLineEndings before ++ (normalizeLineEndings markup ++ ['\n']) := by
  have feed : normalizeLineEndings ['>', '\n'] = ['>', '\n'] := by decide
  have closed : normalizeLineEndings ['>'] = ['>'] := by decide
  have split : markup ++ ['\n'] = '<' :: rest ++ ['>', '\n'] := by simp [enclosed]
  have whole : markup = '<' :: rest ++ ['>'] := by simp [enclosed]
  rw [normalizeLineEndings_append before (by simp [enclosed]), split,
    normalizeLineEndings_append _ (by simp), feed, whole, normalizeLineEndings_append _ (by simp),
    closed]
  simp

theorem Leaf.exists_enclosed_markup {leaf : Leaf} (other : (Tree.leaf leaf).isText = false) :
    ∃ rest, leaf.markup.toList = '<' :: (rest ++ ['>']) := by
  cases leaf with
  | text content => cases other
  | comment content =>
      refine ⟨"!-- ".toList ++ content.toList ++ " --".toList, ?_⟩
      change ("<!-- " ++ content ++ " -->").toList = _
      simp [String.toList_append]
  | cdata content =>
      refine ⟨"![CDATA[".toList ++ content.toList ++ "]]".toList, ?_⟩
      change ("<![CDATA[" ++ content ++ "]]>").toList = _
      simp [String.toList_append]
  | instruction target content =>
      rw [markup]
      split
      · refine ⟨'?' :: target.text.toList ++ ['?'], ?_⟩
        change ("<?" ++ target.text ++ "?>").toList = _
        simp [String.toList_append]
      · refine ⟨'?' :: target.text.toList ++ ' ' :: content.toList ++ ['?'], ?_⟩
        change ("<?" ++ target.text ++ " " ++ content ++ "?>").toList = _
        simp [String.toList_append]

namespace Tree

variable {indentation : String}

theorem writtenCharacters_line {line : String} {markup rest : List Char} {level : Nat}
    (whole : line.toList = (indentationFor indentation level).toList ++ (markup ++ ['\n']))
    (enclosed : markup = '<' :: (rest ++ ['>'])) :
    writtenCharacters [line] =
      margin indentation level ++ (normalizeLineEndings markup ++ ['\n']) := by
  rw [writtenCharacters_singleton, whole, normalizeLineEndings_line _ enclosed]
  rfl

mutual

/-- Between the margin and the line feed there is what a tree's piece is derived from. -/
theorem exists_fragment_of_indented (blank : Blanks indentation.toList) (level : Nat) :
    (tree : Tree) → tree.isWritable = true → tree.isText = false →
    ∃ body, Fragment body (tree.toIndentedPiece indentation level) ∧
      writtenCharacters (tree.indentedPieces indentation level) =
        margin indentation level ++ (body ++ ['\n'])
  | leaf content, writable, other => by
      rcases Leaf.exists_enclosed_markup other with ⟨rest, enclosed⟩
      have fragment := Leaf.fragment_of_written writable
      have lines : (leaf content).indentedPieces indentation level =
          [indentationFor indentation level ++ content.markup ++ "\n"] := by
        cases content with
        | text content => cases other
        | comment content => rfl
        | cdata content => rfl
        | instruction target content => rfl
      have filled : content ≠ .text "" := by
        rintro rfl
        cases other
      rw [Leaf.pieces, if_neg filled, writtenCharacters_singleton] at fragment
      rw [lines, toIndentedPiece]
      exact ⟨_, fragment, writtenCharacters_line (by simp [String.toList_append]) enclosed⟩
  | tag name attributes children, writable, _ => by
      rw [indentedPieces, toIndentedPiece]
      split
      · refine ⟨_, fragment_of_written _ writable, ?_⟩
        rw [List.cons_append, writtenCharacters_cons, writtenCharacters_append]
        rfl
      · have head := tagHead_of_written name attributes
        have inner := content_of_indented blank (level + 1) children writable
        have ending := endTag_of_written name
        have filling := Content.cons blanks_feed.fragment
          (inner.append (blanks_margin blank level).fragment.content)
        refine ⟨_, .paired head filling ending, ?_⟩
        have closing : ("</" ++ name.text ++ ">").toList =
            '<' :: (('/' :: name.text.toList) ++ ['>']) := by
          simp [String.toList_append]
        have last : writtenCharacters
            [indentationFor indentation level ++ "</" ++ name.text ++ ">\n"] =
              margin indentation level ++
                (writtenCharacters ["</" ++ name.text ++ ">"] ++ ['\n']) := by
          rw [writtenCharacters_singleton ("</" ++ name.text ++ ">")]
          exact writtenCharacters_line (by simp [String.toList_append]) closing
        have opened : normalizeLineEndings ">\n".toList = ['>', '\n'] := by decide
        simp only [List.cons_append, List.append_assoc, List.nil_append]
        rw [writtenCharacters_cons, ← List.cons_append, writtenCharacters_append,
          writtenCharacters_cons ">\n", opened, writtenCharacters_append, last]
        rfl

theorem content_of_indented (blank : Blanks indentation.toList) (level : Nat) :
    (trees : List Tree) → areWritable trees = true →
    Content (writtenCharacters (indentedPiecesOfAll indentation level trees))
      (toIndentedPieces indentation level trees)
  | [], _ => .nil
  | first :: rest, writable => by
      rw [areWritable, Bool.and_eq_true] at writable
      have restContent := content_of_indented blank level rest writable.2
      rw [indentedPiecesOfAll, toIndentedPieces, writtenCharacters_append]
      refine Content.append ?_ restContent
      cases textual : first.isText with
      | true =>
          rcases isText_iff.1 textual with ⟨content, rfl⟩
          exact (Leaf.fragment_of_written writable.1).content
      | false =>
          rcases exists_fragment_of_indented blank level first writable.1 textual with
            ⟨body, fragment, written⟩
          rw [written, if_neg (by simp)]
          exact .cons (blanks_margin blank level).fragment
            (.cons fragment blanks_feed.fragment.content)

end

/-! ## What indented trees denote -/

theorem characters_toPiece_of_not_text {tree : Tree} (other : tree.isText = false) :
    tree.toPiece.characters = [] := by
  cases tree with
  | tag name attributes children => rfl
  | leaf content =>
      cases content with
      | text content => cases other
      | comment content => rfl
      | cdata content => rfl
      | instruction target content => rfl

theorem blanks_characters_toPiece {tree : Tree} (blank : tree.isSolidText = false) :
    Blanks tree.toPiece.characters := by
  cases textual : tree.isText with
  | false =>
      rw [characters_toPiece_of_not_text textual]
      exact blanks_nil
  | true =>
      rcases isText_iff.1 textual with ⟨content, rfl⟩
      have characters : Blanks content.toList := by
        have all : allBlank content.toList = true := by simpa [isSolidText] using blank
        rw [allBlank, Bool.and_eq_true, List.all_eq_true] at all
        exact all.2
      change Blanks (normalizeLineEndings (Entity.encodeText content.toList))
      rw [Entity.encodeText_of_blanks characters]
      exact blanks_normalizeLineEndings characters

variable {trees : List Tree}

theorem blanks_toPieces (blank : ∀ tree ∈ trees, tree.isSolidText = false) :
    ∀ piece ∈ toPieces trees, Blanks piece.characters := by
  induction trees with
  | nil => intro piece member; cases member
  | cons first rest induction =>
      intro piece member
      rcases List.mem_cons.1 member with rfl | member
      · exact blanks_characters_toPiece (blank first List.mem_cons_self)
      · exact induction (fun tree inside => blank tree (List.mem_cons_of_mem _ inside)) piece member

theorem characters_toIndentedPiece_of_not_text {tree : Tree} (level : Nat)
    (other : tree.isText = false) : (tree.toIndentedPiece indentation level).characters = [] := by
  cases tree with
  | leaf content =>
      rw [toIndentedPiece]
      exact characters_toPiece_of_not_text other
  | tag name attributes children =>
      rw [toIndentedPiece]
      split
      · rfl
      · rfl

theorem blanks_toIndentedPieces (blankIndentation : Blanks indentation.toList) (level : Nat)
    (blank : ∀ tree ∈ trees, tree.isSolidText = false) :
    ∀ piece ∈ toIndentedPieces indentation level trees, Blanks piece.characters := by
  induction trees with
  | nil => intro piece member; cases member
  | cons first rest induction =>
      have firstBlank := blank first List.mem_cons_self
      have restBlank := induction fun tree inside => blank tree (List.mem_cons_of_mem _ inside)
      intro piece member
      rw [toIndentedPieces, List.mem_append] at member
      rcases member with own | member
      · cases textual : first.isText with
        | true =>
            rw [textual, if_pos rfl, List.mem_singleton] at own
            rw [own]
            exact blanks_characters_toPiece firstBlank
        | false =>
            rw [textual, if_neg (by decide), List.mem_cons, List.mem_cons, List.mem_singleton] at own
            rcases own with rfl | rfl | rfl
            · exact blanks_margin blankIndentation level
            · rw [characters_toIndentedPiece_of_not_text level textual]
              exact blanks_nil
            · exact blanks_feed
      · exact restBlank piece member

theorem node?_text (characters : List Char) : (Piece.text characters).node? options = none := by
  rw [Piece.node?]

mutual

/-- An indented tree denotes what it denotes in the canonical layout. -/
theorem node?_toIndentedPiece (drops : options.preserveWhitespace = false)
    (blank : Blanks indentation.toList) (level : Nat) : (tree : Tree) →
    (tree.toIndentedPiece indentation level).node? options = tree.toPiece.node? options
  | leaf content => by rw [toIndentedPiece, toPiece]
  | tag name attributes children => by
      rw [toIndentedPiece]
      split
      · rfl
      · rename_i structural
        -- Where the layout adds lines, every text is blank, so that only the nodes count.
        have textsBlank : ∀ tree ∈ children, tree.isSolidText = false := by
          rw [holdCharacterData, Bool.or_eq_true, not_or] at structural
          simpa using structural.2
        have written := nodesOf_of_blanks drops blanks_nil (blanks_toPieces textsBlank)
        have piecesBlank : ∀ piece ∈ .text ['\n'] ::
            toIndentedPieces indentation (level + 1) children ++
              [.text (margin indentation level)], Blanks piece.characters := by
          intro piece member
          simp only [List.cons_append, List.mem_cons, List.mem_append, List.not_mem_nil,
            or_false] at member
          rcases member with rfl | member | rfl
          · exact blanks_feed
          · exact blanks_toIndentedPieces blank (level + 1) textsBlank piece member
          · exact blanks_margin blank level
        have indented := nodesOf_of_blanks drops blanks_nil piecesBlank
        have same := filterMap_toIndentedPieces drops blank (level + 1) children
        rw [toPiece, Piece.node?, Piece.node?, indented, written]
        simp [node?_text, same]

theorem filterMap_toIndentedPieces (drops : options.preserveWhitespace = false)
    (blank : Blanks indentation.toList) (level : Nat) : (trees : List Tree) →
    (toIndentedPieces indentation level trees).filterMap (Piece.node? options) =
      (toPieces trees).filterMap (Piece.node? options)
  | [] => rfl
  | first :: rest => by
      have firstSame := node?_toIndentedPiece drops blank level first
      have restSame := filterMap_toIndentedPieces drops blank level rest
      rw [toIndentedPieces, toPieces]
      cases textual : first.isText with
      | true => simp [List.filterMap_cons, restSame]
      | false => simp [List.filterMap_cons, node?_text, firstSame, restSame]

end

end Tree

/-! ## The round trip of an indented tree -/

/-- The piece of an indented tag node is an element. -/
theorem Tree.exists_toIndentedPiece_tag (indentation : String) (level : Nat) (name : Name)
    (attributes : Attributes) (children : List Tree) :
    ∃ pieces, (tag name attributes children).toIndentedPiece indentation level =
      .element name (attributes.sorted.map writtenEntry) pieces := by
  rw [toIndentedPiece]
  split
  · exact ⟨_, rfl⟩
  · exact ⟨_, rfl⟩

theorem ofIndentation_of_blanks {indentation : String} (blank : Blanks indentation.toList) :
    Layout.ofIndentation (some indentation) = .ok (.indented indentation) := by
  have accepted : (indentation = "" || allBlank indentation.toList) = true := by
    by_cases empty : indentation = ""
    · simp [empty]
    · have all : indentation.toList.all isBlank = true := List.all_eq_true.2 blank
      simp [empty, allBlank, all]
  rw [Layout.ofIndentation, if_pos accepted]

/-- A writable tag node is derivable from its indented form as a document without a prologue. -/
theorem document_of_indented {indentation : String} (blank : Blanks indentation.toList)
    {name : Name} {attributes : Attributes} {children : List Tree}
    (writable : (Tree.tag name attributes children).isWritable = true) :
    Grammar.Document
      ((Tree.tag name attributes children).render (.indented indentation) .unset).toList []
      ((Tree.tag name attributes children).toIndentedPiece indentation 0) := by
  rcases Tree.exists_fragment_of_indented blank 0 (.tag name attributes children) writable rfl with
    ⟨body, fragment, written⟩
  rcases Tree.exists_toIndentedPiece_tag indentation 0 name attributes children with
    ⟨pieces, element⟩
  rw [element] at fragment ⊢
  have derived := Document.intro blanks_nil .nil fragment blanks_feed
  rw [toList_render, Tree.pieces, written]
  exact derived

/-- Whatever blank characters a tree is indented by, it is parsed as it is from its canonical form
by all options that drop blank texts. -/
theorem parse_indented_eq_parse_canonical {options : ParserOptions} {indentation : String}
    {name : Name} {attributes : Attributes} {children : List Tree}
    (drops : options.preserveWhitespace = false) (blank : Blanks indentation.toList)
    (writable : (Tree.tag name attributes children).isWritable = true) :
    ∃ layout root, Layout.ofIndentation (some indentation) = .ok layout ∧
      (Input.text ((Tree.tag name attributes children).render layout .unset)).parse options =
        .ok ({ prologue := [], root := root }, none) ∧
      (Input.text ((Tree.tag name attributes children).render .canonical .unset)).parse options =
        .ok ({ prologue := [], root := root }, none) ∧
      root.difference? root = none := by
  have canonical := document_of_written writable
  have indented := document_of_indented blank writable
  have same := Tree.node?_toIndentedPiece drops blank 0 (.tag name attributes children)
  rcases Tree.exists_toIndentedPiece_tag indentation 0 name attributes children with
    ⟨pieces, element⟩
  rw [element] at indented same
  rw [Tree.toPiece] at canonical same
  rw [Piece.node?, Piece.node?, Option.some.injEq] at same
  refine ⟨_, _, ofIndentation_of_blanks blank, ?_, Parse.parse_of_derivable options canonical,
    Tree.difference?_self _⟩
  rw [← same]
  exact Parse.parse_of_derivable options indented

/-- An element with text among other nodes, a blank text, and a comment that is removed, behind
margins that hold a carriage return. -/
theorem parse_indented_eq_parse_canonical_list :
    let options : ParserOptions := { removeComments := true }
    let item := Tree.tag ⟨"item", by decide⟩ {} [.text "x", .tag ⟨"b", by decide⟩ {} []]
    let children := [item, .text " ", .leaf (.comment "c"), .text "\n", .leaf (.cdata "")]
    options.preserveWhitespace = false ∧ Blanks "\t\r".toList ∧
    (Tree.tag ⟨"list", by decide⟩ {} children).isWritable = true ∧
    ∃ layout root, Layout.ofIndentation (some "\t\r") = .ok layout ∧
      (Input.text ((Tree.tag ⟨"list", by decide⟩ {} children).render layout .unset)).parse options =
        .ok ({ prologue := [], root := root }, none) ∧
      (Input.text ((Tree.tag ⟨"list", by decide⟩ {} children).render .canonical .unset)).parse
        options = .ok ({ prologue := [], root := root }, none) ∧
      root.difference? root = none := by
  have blank : Blanks "\t\r".toList := (blanks_nil.cons (by decide)).cons (by decide)
  exact ⟨rfl, blank, by decide, parse_indented_eq_parse_canonical rfl blank
    (by decide)⟩

end XmlGrove
