import Mathlib.Data.List.Nodup
import XmlGrove.Proofs.Grammar.Document
import XmlGrove.Proofs.RoundTrip.Derivation

/-!
# Parsing undoes writing

What a written tree denotes is its normal form, as far as comparing trees tells. As parsing
yields what the grammar denotes, it undoes writing up to the normal form.
-/

namespace XmlGrove

open Grammar

/-! ## Attributes

Attributes are written in the order of their names, which is not the order in which they were
set. -/

namespace AttributeEntries

theorem set_of_not_mem {name : Name} (value : String) {entries : List (Name × String)}
    (fresh : name ∉ entries.map Prod.fst) :
    set name value entries = entries ++ [(name, value)] := by
  induction entries with
  | nil => rfl
  | cons entry entries induction =>
      rcases entry with ⟨present, old⟩
      rw [List.map_cons, List.mem_cons, not_or] at fresh
      rw [set, if_neg (Ne.symm fresh.1), induction fresh.2]
      rfl

end AttributeEntries

namespace Attributes

theorem entries_foldl_set {entries : List (Name × String)} {attributes : Attributes}
    (nodup : ((attributes.entries ++ entries).map Prod.fst).Nodup) :
    (entries.foldl (fun attributes (name, value) => attributes.set name value)
      attributes).entries = attributes.entries ++ entries := by
  induction entries generalizing attributes with
  | nil => rw [List.append_nil]; rfl
  | cons entry entries induction =>
      rcases entry with ⟨name, value⟩
      have split : attributes.entries ++ (name, value) :: entries =
          attributes.entries ++ [(name, value)] ++ entries := by simp
      have fresh : name ∉ attributes.entries.map Prod.fst := by
        rw [List.map_append, List.map_cons, List.nodup_middle] at nodup
        intro member
        exact (List.nodup_cons.1 nodup).1 (List.mem_append_left _ member)
      have grown : (attributes.set name value).entries = attributes.entries ++ [(name, value)] :=
        AttributeEntries.set_of_not_mem value fresh
      rw [List.foldl_cons, induction, grown, split]
      rw [grown, ← split]
      exact nodup

theorem entries_ofList {entries : List (Name × String)}
    (nodup : (entries.map Prod.fst).Nodup) : (ofList entries).entries = entries :=
  entries_foldl_set nodup

theorem get?_eq_some_of_mem {attributes : Attributes} {name : Name} {value : String}
    (member : (name, value) ∈ attributes.entries) :
    attributes.get? name.text = some value := by
  rcases attributes with ⟨entries, nodup⟩
  rw [get?]
  dsimp only at member ⊢
  induction entries with
  | nil => cases member
  | cons entry entries induction =>
      rcases entry with ⟨present, old⟩
      rw [List.map_cons, List.nodup_cons] at nodup
      rcases List.mem_cons.1 member with equal | member
      · cases equal
        rw [List.find?_cons_of_pos (by simp)]
        rfl
      · have different : ¬ (present.text == name.text) = true := by
          intro equal
          have same : present = name := Name.ext (by simpa using equal)
          exact nodup.1 (List.mem_map.2 ⟨_, member, same.symm⟩)
        rw [List.find?_cons_of_neg (a := (present, old)) different]
        exact induction nodup.2 member

theorem sameAs_of_perm {left right : Attributes} (permuted : left.entries.Perm right.entries) :
    left.sameAs right = true := by
  rw [sameAs, Bool.and_eq_true, List.all_eq_true, beq_iff_eq]
  refine ⟨permuted.length_eq, ?_⟩
  rintro ⟨name, value⟩ member
  rw [beq_iff_eq]
  exact get?_eq_some_of_mem (permuted.mem_iff.1 member)

/-- Whatever order attributes are written in, the values are those of the normal form. -/
theorem sameAs_attributesOf_written (attributes : Attributes) :
    (attributesOf (attributes.sorted.map writtenEntry)).sameAs
      (attributes.mapValues valueNormalForm) = true := by
  have decoded (entry : Name × String) :
      decodedEntry (writtenEntry entry) = (entry.1, valueNormalForm entry.2) := by
    rw [decodedEntry, writtenEntry, Text.normalizeLineEndings_encodeAttribute,
      Entity.decode_encodeAttribute, valueNormalForm, Text.toList_withLineFeeds]
  have permuted : (attributes.sorted.map fun entry => (entry.1, valueNormalForm entry.2)).Perm
      (attributes.mapValues valueNormalForm).entries :=
    (List.mergeSort_perm _ _).map _
  have nodup : ((attributes.sorted.map fun entry =>
      (entry.1, valueNormalForm entry.2)).map Prod.fst).Nodup :=
    (permuted.map Prod.fst).nodup_iff.2 (attributes.mapValues valueNormalForm).nodup_names
  apply sameAs_of_perm
  rw [attributesOf, List.map_map]
  have entries : attributes.sorted.map (decodedEntry ∘ writtenEntry) =
      attributes.sorted.map fun entry => (entry.1, valueNormalForm entry.2) :=
    List.map_congr_left fun entry _ => decoded entry
  rw [entries, entries_ofList nodup]
  exact permuted

end Attributes

/-! ## Trees without a difference -/

namespace Tree

/-- Two lists of sibling trees without a difference. -/
def Agree (left right : List Tree) : Prop :=
  left.length = right.length ∧ ∀ index, differenceAmong? index left right = none

theorem agree_nil : Agree [] [] :=
  ⟨rfl, fun index => by rw [differenceAmong?]⟩

theorem Agree.cons {first second : Tree} {left right : List Tree}
    (same : first.difference? second = none) (agree : Agree left right) :
    Agree (first :: left) (second :: right) := by
  refine ⟨by rw [List.length_cons, List.length_cons, agree.1], ?_⟩
  intro index
  rw [differenceAmong?, same]
  exact agree.2 (index + 1)

theorem difference?_leaf_self (content : Leaf) :
    (leaf content).difference? (leaf content) = none := by
  rw [difference?, if_neg (by simp), if_neg (by simp)]

theorem difference?_tag {name : Name} {leftAttributes rightAttributes : Attributes}
    {leftChildren rightChildren : List Tree}
    (sameAttributes : leftAttributes.sameAs rightAttributes = true)
    (agree : Agree leftChildren rightChildren) :
    (tag name leftAttributes leftChildren).difference?
      (tag name rightAttributes rightChildren) = none := by
  rw [difference?, if_neg (by simp), if_neg (by simp [sameAttributes]), if_neg (by simp [agree.1])]
  exact agree.2 0

/-- A run of text denotes the text node of the run, unless that is not kept. -/
theorem textRun_eq (options : ParserOptions) (raw : List Char) :
    textRun options raw =
      [text (String.ofList (Entity.decode raw))].filter (isKept options.preserveWhitespace) := by
  rw [textRun]
  by_cases empty : Entity.decode raw = []
  · rw [empty]
    rfl
  · rw [if_neg empty]
    cases preserved : options.preserveWhitespace with
    | true => simp [isKept, empty]
    | false =>
        cases blank : (Entity.decode raw).all Text.isBlank with
        | true => simp [isKept, blank]
        | false => simp [isKept, blank, empty]

theorem textRun_encodeText (options : ParserOptions) (content : String) :
    textRun options (Entity.encodeText content.toList) =
      [text content].filter (isKept options.preserveWhitespace) := by
  rw [textRun_eq, Entity.decode_encodeText, String.ofList_toList]

theorem Agree.text_append (preserveWhitespace : Bool) (content : String)
    {left right : List Tree} (agree : Agree left right) :
    Agree ([text content].filter (isKept preserveWhitespace) ++ left)
      ([text content].filter (isKept preserveWhitespace) ++ right) := by
  cases kept : isKept preserveWhitespace (text content) with
  | true =>
      rw [List.filter_cons_of_pos kept]
      exact agree.cons (difference?_leaf_self _)
  | false =>
      rw [List.filter_cons_of_neg (by simp [kept])]
      exact agree

theorem isText_normalForm (preserveWhitespace : Bool) (tree : Tree) :
    (tree.normalForm preserveWhitespace).isText = tree.isText := by
  cases tree with
  | tag name attributes children => rw [normalForm]; rfl
  | leaf content => cases content <;> simp [normalForm, Leaf.normalForm, isText]

theorem filter_prependText_cons {preserveWhitespace : Bool} {tree : Tree} (content : String)
    (trees : List Tree) (other : tree.isText = false) :
    (prependText content (mergeTexts (tree :: trees))).filter (isKept preserveWhitespace) =
      [text content].filter (isKept preserveWhitespace) ++
        tree :: (prependText "" (mergeTexts trees)).filter (isKept preserveWhitespace) := by
  have kept : isKept preserveWhitespace tree = true := by
    cases tree with
    | tag name attributes children => rfl
    | leaf leaf =>
        cases leaf with
        | text next => cases other
        | comment content => rfl
        | cdata content => rfl
        | instruction target content => rfl
  rw [mergeTexts_cons_of_not_text trees other, prependText_cons_of_not_text content _ other,
    filter_prependText_empty, ← List.singleton_append, List.filter_append,
    List.filter_cons_of_pos kept]

/-! ## What written trees denote -/

theorem node?_toPiece_leaf {options : ParserOptions}
    (keepsComments : options.removeComments = false)
    (keepsInstructions : options.removeInstructions = false) {content : Leaf}
    (other : (leaf content).isText = false) :
    content.toPiece.node? options = some (leaf content.normalForm) := by
  cases content with
  | text content => cases other
  | comment content =>
      have spaced : String.ofList
          (' ' :: (Text.normalizeLineEndings content.toList ++ [' '])) =
          " " ++ Text.withLineFeeds content ++ " " := by
        rw [← String.toList_inj]
        simp [String.toList_append]
      rw [Leaf.toPiece, Piece.node?, keepsComments, spaced]
      rfl
  | cdata content => rw [Leaf.toPiece, Piece.node?]; rfl
  | instruction target content =>
      rw [Leaf.toPiece, Piece.node?, keepsInstructions, Leaf.normalForm,
        Text.toList_withLineFeeds]
      rfl

mutual

/-- A tree other than a text node denotes its normal form. -/
theorem node?_toPiece {options : ParserOptions} (keepsComments : options.removeComments = false)
    (keepsInstructions : options.removeInstructions = false) : (tree : Tree) → tree.isText = false →
    ∃ node, tree.toPiece.node? options = some node ∧
      node.difference? (tree.normalForm options.preserveWhitespace) = none
  | leaf content, other => by
      refine ⟨_, node?_toPiece_leaf keepsComments keepsInstructions other, ?_⟩
      rw [normalForm]
      exact difference?_leaf_self _
  | tag name attributes children, _ => by
      refine ⟨_, by rw [toPiece, Piece.node?], ?_⟩
      rw [normalForm, ← filter_prependText_empty]
      apply difference?_tag (Attributes.sameAs_attributesOf_written attributes)
      exact agree_nodesOf keepsComments keepsInstructions children ""

/-- Behind text, several trees denote their normal forms with the runs of text merged. -/
theorem agree_nodesOf {options : ParserOptions} (keepsComments : options.removeComments = false)
    (keepsInstructions : options.removeInstructions = false) :
    (trees : List Tree) → (pending : String) →
    Agree (nodesOf options (Entity.encodeText pending.toList) (toPieces trees))
      ((prependText pending (mergeTexts (normalForms options.preserveWhitespace trees))).filter
        (isKept options.preserveWhitespace))
  | [], pending => by
      have agree := Agree.text_append options.preserveWhitespace pending agree_nil
      rw [List.append_nil] at agree
      rw [toPieces, nodesOf, textRun_encodeText]
      exact agree
  | first :: rest, pending => by
      cases other : first.isText with
      | true =>
          obtain ⟨content, rfl⟩ : ∃ content, first = text content := by
            cases first with
            | tag name attributes children => cases other
            | leaf leaf =>
                cases leaf with
                | text content => exact ⟨content, rfl⟩
                | comment content => cases other
                | cdata content => cases other
                | instruction target content => cases other
          -- The text joins what is pending, on both sides.
          have agree :=
            agree_nodesOf keepsComments keepsInstructions rest
              (pending ++ Text.withLineFeeds content)
          rw [String.toList_append, Entity.encodeText_append, Text.toList_withLineFeeds,
            ← Text.normalizeLineEndings_encodeText] at agree
          rw [normalForms, normalForm, Leaf.normalForm, mergeTexts, prependText_prependText]
          exact agree
      | false =>
          rcases node?_toPiece keepsComments keepsInstructions first other with
            ⟨node, denoted, same⟩
          -- The node ends the run, and a void one begins behind it.
          have agree := agree_nodesOf keepsComments keepsInstructions rest ""
          have other : (first.normalForm options.preserveWhitespace).isText = false := by
            rw [isText_normalForm, other]
          rw [toPieces, nodesOf, denoted, normalForms, filter_prependText_cons _ _ other,
            textRun_encodeText]
          exact Agree.text_append _ pending (agree.cons same)

end

end Tree

/-! ## The round trip -/

/-- A writable tag node is derivable as a document that has no prologue. -/
theorem document_of_written {name : Name} {attributes : Attributes} {children : List Tree}
    (writable : (Tree.tag name attributes children).isWritable = true) :
    Grammar.Document ((Tree.tag name attributes children).render .canonical .unset).toList []
      (Tree.tag name attributes children).toPiece := by
  have fragment := Tree.fragment_of_written (.tag name attributes children) writable
  rw [Tree.toPiece] at fragment ⊢
  have derived := Document.intro blanks_nil .nil fragment blanks_nil
  rw [List.nil_append, List.nil_append, List.append_nil] at derived
  rw [toList_render]
  exact derived

/-- Parsing what a writable tag node is written as succeeds, and yields a tag node that is not
told apart from the normal form. -/
theorem parse_render_eq_normalForm (options : ParserOptions)
    (keepsComments : options.removeComments = false)
    (keepsInstructions : options.removeInstructions = false)
    (name : Name) (attributes : Attributes) (children : List Tree)
    (writable : (Tree.tag name attributes children).isWritable = true) :
    ∃ root,
      (Input.text ((Tree.tag name attributes children).render .canonical .unset)).parse options =
        .ok ({ prologue := [], root := root }, none) ∧
      root.difference?
        ((Tree.tag name attributes children).normalForm options.preserveWhitespace) = none := by
  have derived := document_of_written writable
  rw [Tree.toPiece] at derived
  rcases Tree.node?_toPiece keepsComments keepsInstructions (.tag name attributes children) rfl with
    ⟨node, denoted, same⟩
  rw [Tree.toPiece, Piece.node?, Option.some.injEq] at denoted
  refine ⟨node, ?_, same⟩
  rw [Parse.parse_text_eq, Parse.document_complete options derived, denoted]
  rfl

/-- Runs of text, an empty text, references in a value and content that ends like a delimiter. -/
theorem parse_render_eq_normalForm_mixed :
    let attributes := Attributes.ofList [(⟨"b", by decide⟩, "&amp;\x22"), (⟨"a", by decide⟩, "\r")]
    let children := [Tree.text "x\r", .text "\n&lt;", .leaf (.cdata "]]"),
      .leaf (.comment "-"), .text "", .leaf (.instruction ⟨"t", by decide⟩ " ?")]
    (Tree.tag ⟨"r", by decide⟩ attributes children).isWritable = true ∧
    ∃ root,
      (Input.text ((Tree.tag ⟨"r", by decide⟩ attributes children).render .canonical .unset)).parse
        {} = .ok ({ prologue := [], root := root }, none) ∧
      root.difference? ((Tree.tag ⟨"r", by decide⟩ attributes children).normalForm false) =
        none :=
  ⟨by decide, parse_render_eq_normalForm {} rfl rfl _ _ _ (by decide)⟩

end XmlGrove
