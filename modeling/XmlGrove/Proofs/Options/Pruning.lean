import XmlGrove.Proofs.RoundTrip.NormalForm

/-!
# Pruned trees

Leaves of a kind are deleted from a tree, at every depth. Texts that were apart are adjacent then,
and can be joined.
-/

namespace XmlGrove

/-- Tell whether a leaf is a text node of blank characters only. -/
def Leaf.isBlankText : Leaf → Bool
  | text content => Text.allBlank content.toList
  | _ => false

namespace Tree

/-- Tell whether a tree is a leaf that meets a condition. -/
def isLeafWith (condition : Leaf → Bool) : Tree → Bool
  | leaf content => condition content
  | tag .. => false

mutual

/-- Delete the leaves below a node that meet a condition, at every depth. -/
def prune (dropped : Leaf → Bool) : Tree → Tree
  | leaf content => leaf content
  | tag name attributes children => tag name attributes (pruneAll dropped children)

/-- Delete the leaves among trees, and below them, that meet a condition. -/
def pruneAll (dropped : Leaf → Bool) : List Tree → List Tree
  | [] => []
  | first :: rest =>
    if first.isLeafWith dropped then pruneAll dropped rest
    else first.prune dropped :: pruneAll dropped rest

end

example :
    pruneAll Leaf.isBlankText
        [text " ", tag ⟨"a", by decide⟩ {} [text "\n", leaf (.cdata " "), text " x"]] =
      [tag ⟨"a", by decide⟩ {} [leaf (.cdata " "), text " x"]] := rfl

variable {dropped : Leaf → Bool}

theorem pruneAll_cons_of_kept {first : Tree} (rest : List Tree)
    (kept : first.isLeafWith dropped = false) :
    pruneAll dropped (first :: rest) = first.prune dropped :: pruneAll dropped rest := by
  simp [pruneAll, kept]

theorem pruneAll_cons_of_dropped {first : Tree} (rest : List Tree)
    (gone : first.isLeafWith dropped = true) :
    pruneAll dropped (first :: rest) = pruneAll dropped rest := by
  simp [pruneAll, gone]

theorem pruneAll_append (former latter : List Tree) :
    pruneAll dropped (former ++ latter) = pruneAll dropped former ++ pruneAll dropped latter := by
  induction former with
  | nil => rfl
  | cons first former induction =>
      cases gone : first.isLeafWith dropped with
      | true => simp [pruneAll_cons_of_dropped _ gone, induction]
      | false => simp [pruneAll_cons_of_kept _ gone, induction]

theorem pruneAll_leaves (leaves : List Leaf) :
    pruneAll dropped (leaves.map leaf) = (leaves.filter (!dropped ·)).map leaf := by
  induction leaves with
  | nil => rfl
  | cons first leaves induction =>
      cases gone : dropped first with
      | true => simp [pruneAll, isLeafWith, gone, induction]
      | false => simp [pruneAll, isLeafWith, prune, gone, induction]

theorem isLeafWith_isBlankText_of_not_text {tree : Tree} (other : tree.isText = false) :
    tree.isLeafWith Leaf.isBlankText = false := by
  cases tree with
  | tag name attributes children => rfl
  | leaf content =>
      cases content with
      | text content => cases other
      | comment content => rfl
      | cdata content => rfl
      | instruction target content => rfl

/-! ## Joined texts -/

mutual

/-- Join adjacent text nodes below a node, at every depth. -/
def joinTexts : Tree → Tree
  | leaf content => leaf content
  | tag name attributes children => tag name attributes (mergeTexts (joinTextsOfAll children))

/-- Join adjacent text nodes below several nodes. -/
def joinTextsOfAll : List Tree → List Tree
  | [] => []
  | first :: rest => first.joinTexts :: joinTextsOfAll rest

end

/-- The nodes with all texts joined that remain of several trees. -/
def joinedRemains (dropped : Leaf → Bool) (trees : List Tree) : List Tree :=
  mergeTexts (joinTextsOfAll (pruneAll dropped trees))

theorem joinedRemains_cons_of_dropped {first : Tree} (rest : List Tree)
    (gone : first.isLeafWith dropped = true) :
    joinedRemains dropped (first :: rest) = joinedRemains dropped rest := by
  rw [joinedRemains, pruneAll_cons_of_dropped _ gone]
  rfl

theorem joinedRemains_cons_of_kept {first : Tree} (rest : List Tree)
    (kept : first.isLeafWith dropped = false)
    (other : (first.prune dropped).joinTexts.isText = false) :
    joinedRemains dropped (first :: rest) =
      (first.prune dropped).joinTexts :: joinedRemains dropped rest := by
  rw [joinedRemains, pruneAll_cons_of_kept _ kept, joinTextsOfAll,
    mergeTexts_cons_of_not_text _ other]
  rfl

/-- Put a decoded text in front of trees, unless there is none. -/
def joinText (content : List Char) (trees : List Tree) : List Tree :=
  if content = [] then trees else prependText (String.ofList content) trees

@[simp] theorem joinText_nil (trees : List Tree) : joinText [] trees = trees := rfl

theorem joinText_joinText (first second : List Char) (trees : List Tree) :
    joinText first (joinText second trees) = joinText (first ++ second) trees := by
  by_cases firstEmpty : first = []
  · simp [firstEmpty]
  · by_cases secondEmpty : second = []
    · simp [secondEmpty]
    · simp [joinText, firstEmpty, secondEmpty, prependText_prependText, String.ofList_append]

/-! ## Full texts -/

theorem fullTextOfAll_prependText (content : String) (trees : List Tree) :
    fullTextOfAll (prependText content trees) = content ++ fullTextOfAll trees := by
  cases trees with
  | nil => rfl
  | cons first trees =>
      cases first with
      | tag name attributes children => rfl
      | leaf leaf =>
          cases leaf with
          | text next => simp [prependText, fullTextOfAll, fullText, String.append_assoc]
          | comment content => rfl
          | cdata content => rfl
          | instruction target content => rfl

theorem fullTextOfAll_mergeTexts (trees : List Tree) :
    fullTextOfAll (mergeTexts trees) = fullTextOfAll trees := by
  fun_induction mergeTexts trees with
  | case1 => rfl
  | case2 content rest induction => rw [fullTextOfAll_prependText, induction]; rfl
  | case3 first rest other induction => rw [fullTextOfAll, induction]; rfl

theorem fullText_of_isLeafWith {condition : Leaf → Bool} {tree : Tree}
    (others : ∀ content, condition (.text content) = false)
    (meets : tree.isLeafWith condition = true) : tree.fullText = "" := by
  cases tree with
  | tag name attributes children => cases meets
  | leaf leaf =>
      cases leaf with
      | text content =>
          rw [isLeafWith, others] at meets
          cases meets
      | comment content => rfl
      | cdata content => rfl
      | instruction target content => rfl

mutual

/-- Deleting other leaves than text and joining texts changes no text. -/
theorem fullText_joinTexts_prune (kept : ∀ content, dropped (.text content) = false) :
    (tree : Tree) → (tree.prune dropped).joinTexts.fullText = tree.fullText
  | leaf content => rfl
  | tag name attributes children => by
      rw [prune, joinTexts, fullText, fullTextOfAll_mergeTexts]
      exact fullTextOfAll_joinTextsOfAll_pruneAll kept children

theorem fullTextOfAll_joinTextsOfAll_pruneAll
    (kept : ∀ content, dropped (.text content) = false) : (trees : List Tree) →
    fullTextOfAll (joinTextsOfAll (pruneAll dropped trees)) = fullTextOfAll trees
  | [] => rfl
  | first :: rest => by
      have others := fullTextOfAll_joinTextsOfAll_pruneAll kept rest
      cases gone : first.isLeafWith dropped with
      | true =>
          rw [pruneAll_cons_of_dropped _ gone, others, fullTextOfAll,
            fullText_of_isLeafWith kept gone, String.empty_append]
      | false =>
          rw [pruneAll_cons_of_kept _ gone, joinTextsOfAll, fullTextOfAll, others,
            fullText_joinTexts_prune kept first, fullTextOfAll]

end

end Tree

end XmlGrove
