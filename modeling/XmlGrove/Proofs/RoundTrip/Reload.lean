import XmlGrove.Proofs.RoundTrip.Parsed
import XmlGrove.Proofs.RoundTrip.Returns

/-!
# Saving and reloading

A document without comments that was parsed can be saved and parsed again. Unless it holds carriage
returns, what is reloaded is the same exactly if no attribute value holds what reads as a predefined
reference, since of all characters only quotes are encoded there.
-/

namespace XmlGrove

open Grammar Text

/-! ## Values and contents -/

theorem Text.withLineFeeds_eq_self_iff {content : String} :
    withLineFeeds content = content ↔ Text.holdsReturn content = false := by
  rw [← String.toList_inj, toList_withLineFeeds, normalizeLineEndings_eq_self_iff,
    ← Text.holdsReturn_iff, Bool.not_eq_true]

namespace Attributes

/-- Tell whether there is a predefined reference in the value of an attribute. -/
def holdReference (attributes : Attributes) : Bool :=
  attributes.values.any fun value => Entity.holdsReference value.toList

theorem valueNormalForm_eq_self_iff {value : String} :
    valueNormalForm value = value ↔
      Text.holdsReturn value = false ∧ Entity.holdsReference value.toList = false := by
  rw [← Bool.not_eq_true (Text.holdsReturn value), Text.holdsReturn_iff, valueNormalForm,
    ← String.toList_inj, String.toList_ofList, toList_withLineFeeds]
  constructor
  · intro equal
    -- Neither of the two steps makes up for characters that the other one drops.
    have decoded : Entity.decode (normalizeLineEndings value.toList) =
        normalizeLineEndings value.toList := by
      rw [Entity.decode_eq_self_iff, Bool.eq_false_iff]
      intro held
      have shorter := Entity.length_decode_lt held
      have written := length_normalizeLineEndings_le value.toList
      rw [equal] at shorter
      omega
    rw [decoded] at equal
    rw [equal] at decoded
    exact ⟨normalizeLineEndings_eq_self_iff.1 equal, Entity.decode_eq_self_iff.1 decoded⟩
  · rintro ⟨noReturn, free⟩
    rw [normalizeLineEndings_of_not_mem noReturn, Entity.decode_eq_self_iff.2 free]

theorem sameAs_mapValues_iff {transform : String → String} {attributes : Attributes} :
    (attributes.mapValues transform).sameAs attributes = true ↔
      ∀ value ∈ attributes.values, transform value = value := by
  have held : ∀ entry ∈ attributes.entries, attributes.get? entry.1.text = some entry.2 :=
    fun entry member => get?_eq_some_of_mem member
  simp only [sameAs, mapValues, values, List.length_map, beq_self_eq_true, Bool.true_and,
    List.all_map, List.all_eq_true, Function.comp_apply, beq_iff_eq, List.forall_mem_map]
  constructor
  · intro same entry member
    have found := same entry member
    rw [held entry member, Option.some.injEq] at found
    exact found.symm
  · intro same entry member
    rw [held entry member, same entry member]

theorem sameAs_mapValues_valueNormalForm_iff {attributes : Attributes} :
    (attributes.mapValues valueNormalForm).sameAs attributes = true ↔
      attributes.holdReturn = false ∧ attributes.holdReference = false := by
  rw [sameAs_mapValues_iff, holdReturn, Text.holdReturn, holdReference, List.any_eq_false,
    List.any_eq_false, ← forall₂_and]
  simp only [valueNormalForm_eq_self_iff, Bool.not_eq_true]

end Attributes

namespace Leaf

theorem normalForm_eq_self_iff {preserveWhitespace : Bool} {leaf : Leaf}
    (read : leaf.IsRead preserveWhitespace) (other : leaf.kind ≠ .comment) :
    leaf.normalForm = leaf ↔ leaf.holdsReturn = false := by
  rw [Leaf.holdsReturn]
  cases leaf with
  | text content => simp [normalForm, Leaf.content, withLineFeeds_eq_self_iff]
  | comment content => exact absurd rfl other
  | cdata content => simp [normalForm, Leaf.content, withLineFeeds_eq_self_iff]
  | instruction target content =>
      have solid : StartsSolid content.toList := read
      rw [← Bool.not_eq_true, Text.holdsReturn_iff, normalForm, instruction.injEq,
        ← String.toList_inj, String.toList_ofList, toList_withLineFeeds]
      constructor
      · rintro ⟨-, equal⟩ member
        have inside : '\r' ∈ trimStart (normalizeLineEndings content.toList) := by
          rw [equal]
          exact member
        exact not_mem_normalizeLineEndings _ ((List.dropWhile_sublist _).subset inside)
      · intro noReturn
        have absent : '\r' ∉ content.toList := noReturn
        refine ⟨rfl, ?_⟩
        rw [normalizeLineEndings_of_not_mem absent, trimStart_of_startsSolid solid]

end Leaf

namespace Tree

mutual

/-- Tell whether there is a predefined reference in the value of an attribute. -/
def holdsReference : Tree → Bool
  | leaf _ => false
  | tag _ attributes children => attributes.holdReference || holdReference children

/-- Tell whether one of several trees holds a reference in an attribute. -/
def holdReference : List Tree → Bool
  | [] => false
  | first :: rest => first.holdsReference || holdReference rest

end

mutual

/-- Tell whether there is a comment in a tree. -/
def holdsComment : Tree → Bool
  | leaf content => content.kind == .comment
  | tag _ _ children => holdComment children

/-- Tell whether there is a comment in one of several trees. -/
def holdComment : List Tree → Bool
  | [] => false
  | first :: rest => first.holdsComment || holdComment rest

end

/-! ## The normal form of a tree that was read -/

variable {preserveWhitespace : Bool}

theorem isKept_withLineFeeds (content : String) :
    isKept preserveWhitespace (text (withLineFeeds content)) =
      isKept preserveWhitespace (text content) := by
  have filled : withLineFeeds content = "" ↔ content = "" := by
    rw [← String.toList_eq_nil_iff, ← String.toList_eq_nil_iff, toList_withLineFeeds,
      normalizeLineEndings_eq_nil_iff]
  simp only [isKept, toList_withLineFeeds, all_isBlank_normalizeLineEndings, bne, filled,
    Bool.beq_eq_decide_eq]

theorem isKept_normalForm {tree : Tree} (read : tree.IsRead preserveWhitespace) :
    isKept preserveWhitespace (tree.normalForm preserveWhitespace) = true := by
  cases tree with
  | tag name attributes children => rw [normalForm]; rfl
  | leaf content =>
      rw [normalForm]
      cases content with
      | comment content => rfl
      | cdata content => rfl
      | instruction target content => rfl
      | text content => exact (isKept_withLineFeeds content).trans read

theorem mergeTexts_normalForms {trees : List Tree} (read : AreRead preserveWhitespace trees) :
    mergeTexts (normalForms preserveWhitespace trees) =
      normalForms preserveWhitespace trees := by
  induction trees with
  | nil => rfl
  | cons first rest induction =>
      rcases read with ⟨-, apart, restRead⟩
      rw [normalForms]
      cases textual : first.isText with
      | false =>
          rw [mergeTexts_cons_of_not_text _ (by rw [isText_normalForm, textual]),
            induction restRead]
      | true =>
          rcases isText_iff.1 textual with ⟨content, rfl⟩
          rw [normalForm, Leaf.normalForm, mergeTexts, induction restRead]
          cases rest with
          | nil => rfl
          | cons next others =>
              have other : next.isText = false := apart textual next rfl
              rw [normalForms, prependText_cons_of_not_text]
              rw [isText_normalForm, other]

theorem filter_mergeTexts_normalForms {trees : List Tree}
    (read : AreRead preserveWhitespace trees) :
    (mergeTexts (normalForms preserveWhitespace trees)).filter (isKept preserveWhitespace) =
      normalForms preserveWhitespace trees := by
  rw [mergeTexts_normalForms read]
  induction trees with
  | nil => rfl
  | cons first rest induction =>
      rw [normalForms, List.filter_cons_of_pos (isKept_normalForm read.1), induction read.2.2]

mutual

/-- A tree without comments that was read is its normal form exactly if it holds neither carriage
returns nor references in attributes. -/
theorem difference?_normalForm_iff : (tree : Tree) → tree.IsRead preserveWhitespace →
    tree.holdsComment = false →
    ((tree.normalForm preserveWhitespace).difference? tree = none ↔
      tree.holdsReturn = false ∧ tree.holdsReference = false)
  | leaf content, read, uncommented => by
      have other : content.kind ≠ .comment := by simpa [holdsComment] using uncommented
      rw [difference?_eq_none_iff, normalForm, ordered, ordered, leaf.injEq, holdsReturn,
        holdsReference, Leaf.normalForm_eq_self_iff read other]
      simp
  | tag name attributes children, read, uncommented => by
      have sameChildren := allOrdered_normalForms_iff children read uncommented
      rw [difference?_eq_none_iff, normalForm, filter_mergeTexts_normalForms read, ordered, ordered,
        tag.injEq, ← Attributes.sameAs_iff_ordered, sameChildren,
        Attributes.sameAs_mapValues_valueNormalForm_iff, holdsReturn, holdsReference,
        Bool.or_eq_false_iff, Bool.or_eq_false_iff]
      tauto

theorem allOrdered_normalForms_iff : (trees : List Tree) → AreRead preserveWhitespace trees →
    holdComment trees = false →
    (allOrdered (normalForms preserveWhitespace trees) = allOrdered trees ↔
      holdReturn trees = false ∧ holdReference trees = false)
  | [], _, _ => by simp [normalForms, holdReturn, holdReference]
  | first :: rest, read, uncommented => by
      rcases read with ⟨firstRead, -, restRead⟩
      rw [holdComment, Bool.or_eq_false_iff] at uncommented
      rw [normalForms, allOrdered, allOrdered, List.cons.injEq, ← difference?_eq_none_iff,
        difference?_normalForm_iff first firstRead uncommented.1,
        allOrdered_normalForms_iff rest restRead uncommented.2, holdReturn, holdReference,
        Bool.or_eq_false_iff, Bool.or_eq_false_iff]
      tauto

end

end Tree

/-! ## The round trip of a parsed document -/

/-- A parsed document without comments can be saved and parsed again. If it holds no carriage
returns, what is reloaded is told apart from it exactly if there is a reference in the value of an
attribute; if there is none, it is saved again as the same text. -/
theorem parse_render_of_parsed {content : String} {document : ParsedDocument}
    {note : Option String} (parsed : (Input.text content).parse {} = .ok (document, note))
    (uncommented : document.root.holdsComment = false) :
    ∃ again,
      (Input.text (document.root.render .canonical .unset)).parse {} =
        .ok ({ prologue := [], root := again }, none) ∧
      (document.root.holdsReturn = false →
        (again.difference? document.root = none ↔ document.root.holdsReference = false) ∧
        (document.root.holdsReference = false →
          again.render .canonical .unset = document.root.render .canonical .unset)) := by
  rcases Parse.isRead_root parsed with ⟨name, attributes, children, root, writable, read⟩
  have settled := Tree.difference?_normalForm_iff document.root read uncommented
  rw [root] at writable
  rcases @Tree.node?_toPiece {} rfl rfl (.tag name attributes children) rfl with
    ⟨again, denoted, same⟩
  rw [Tree.toPiece, Piece.node?, Option.some.injEq] at denoted
  have derived := document_of_written writable
  rw [Tree.toPiece] at derived
  have equal : again.difference? document.root = none ↔
      document.root.holdsReturn = false ∧ document.root.holdsReference = false := by
    rw [← settled, Tree.difference?_eq_none_iff, Tree.difference?_eq_none_iff, root,
      ← (Tree.difference?_eq_none_iff _ _).1 same]
  refine ⟨again, ?_, fun noReturn => ⟨?_, fun free => ?_⟩⟩
  · rw [root, ← denoted]
    exact Parse.parse_of_derivable {} derived
  · rw [equal, and_iff_right noReturn]
  · exact Tree.render_eq_of_difference?_eq_none (equal.2 ⟨noReturn, free⟩)

theorem isName_a : isName "a".toList = true := by decide

theorem isName_b : isName "b".toList = true := by decide

/-- A document with attributes out of order, references, a CDATA section and an instruction. -/
def lettersDocument : ParsedDocument where
  declaration := some "version=\x221.0\x22"
  prologue := []
  root := .tag ⟨"r", by decide⟩
    (Attributes.ofList [(⟨"b", isName_b⟩, "\x22"), (⟨"a", isName_a⟩, "&")])
    [.text "x < y", .leaf (.cdata "<"), .leaf (.instruction ⟨"t", by decide⟩ "d ")]

theorem parse_lettersDocument :
    (Input.text
      "<?xml version=\x221.0\x22?><r b='&quot;' a='&amp;'>x &lt; y<![CDATA[<]]><?t  d ?></r>").parse
        {} = .ok (lettersDocument, none) := by
  with_unfolding_all rfl

theorem parse_render_of_parsed_lettersDocument :
    (Input.text
      "<?xml version=\x221.0\x22?><r b='&quot;' a='&amp;'>x &lt; y<![CDATA[<]]><?t  d ?></r>").parse
        {} = .ok (lettersDocument, none) ∧
    lettersDocument.root.holdsComment = false ∧
    lettersDocument.root.holdsReturn = false ∧
    ∃ again,
      (Input.text (lettersDocument.root.render .canonical .unset)).parse {} =
        .ok ({ prologue := [], root := again }, none) ∧
      again.difference? lettersDocument.root = none ∧
      again.render .canonical .unset = lettersDocument.root.render .canonical .unset := by
  have uncommented : lettersDocument.root.holdsComment = false := by decide
  have noReturn : lettersDocument.root.holdsReturn = false := by decide
  have free : lettersDocument.root.holdsReference = false := by decide
  rcases parse_render_of_parsed parse_lettersDocument uncommented with ⟨again, parsed, reloads⟩
  rcases reloads noReturn with ⟨same, saved⟩
  exact ⟨parse_lettersDocument, uncommented, noReturn, again, parsed, same.2 free, saved free⟩

/-- A tag node with nothing but one attribute. -/
def tagWithValue (value : String) : Tree :=
  .tag ⟨"a", isName_a⟩ (Attributes.ofList [(⟨"b", isName_b⟩, value)]) []

/-- A value that holds a reference once it was read is reloaded as another one. -/
theorem not_same_of_parsed :
    ¬ ∀ content document note, (Input.text content).parse {} = .ok (document, note) →
      document.root.holdsComment = false →
      ∃ again,
        (Input.text (document.root.render .canonical .unset)).parse {} =
          .ok ({ prologue := [], root := again }, none) ∧
        again.difference? document.root = none := by
  intro reloads
  have parsed : (Input.text "<a b=\x22&amp;lt;\x22/>").parse {} =
      .ok ({ prologue := [], root := tagWithValue "&lt;" }, none) := by
    with_unfolding_all rfl
  have reloaded : (Input.text ((tagWithValue "&lt;").render .canonical .unset)).parse {} =
      .ok ({ prologue := [], root := tagWithValue "<" }, none) := by
    with_unfolding_all rfl
  rcases reloads _ _ _ parsed (by decide) with ⟨again, equal, same⟩
  have results := Except.ok.inj (reloaded.symm.trans equal)
  have roots : tagWithValue "<" = again := congrArg (fun result => result.1.root) results
  rw [← roots] at same
  have different : ((tagWithValue "<").difference? (tagWithValue "&lt;")).isSome = true := by
    decide
  rw [same] at different
  cases different

end XmlGrove
