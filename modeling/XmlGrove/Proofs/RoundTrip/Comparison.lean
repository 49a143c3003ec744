import Mathlib.Data.List.Perm.Subperm
import XmlGrove.Proofs.RoundTrip.Parsing

/-!
# Trees that are not told apart

The comparison of trees ignores the order of attributes and nothing else: two trees without a
difference are equal once their attributes are ordered by name. Since that is the order in which
attributes are written, they are written alike.
-/

namespace XmlGrove

namespace Attributes

variable {left right attributes : Attributes}

theorem mem_of_get?_eq_some {name : Name} {value : String}
    (found : attributes.get? name.text = some value) : (name, value) ∈ attributes.entries := by
  rw [get?, Option.map_eq_some_iff] at found
  rcases found with ⟨⟨present, held⟩, entry, rfl⟩
  have named : present = name := Name.ext (by simpa using List.find?_some entry)
  rw [← named]
  exact List.mem_of_find?_eq_some entry

theorem sameAs_iff_perm : left.sameAs right = true ↔ left.entries.Perm right.entries := by
  constructor
  · intro same
    rw [sameAs, Bool.and_eq_true, List.all_eq_true, beq_iff_eq] at same
    have subset : left.entries ⊆ right.entries := by
      intro entry member
      exact mem_of_get?_eq_some (by simpa using same.2 entry member)
    have distinct : left.entries.Nodup := left.nodup_names.of_map
    exact (List.subperm_of_subset distinct subset).perm_of_length_le (by omega)
  · exact sameAs_of_perm

/-- Equal attributes hold the same value under every name. -/
theorem sameAs_iff_get? :
    left.sameAs right = true ↔ ∀ name : String, left.get? name = right.get? name := by
  have holds (attributes : Attributes) (name value : String) :
      attributes.get? name = some value ↔
        ∃ present : Name, present.text = name ∧ (present, value) ∈ attributes.entries := by
    constructor
    · intro found
      rw [get?, Option.map_eq_some_iff] at found
      rcases found with ⟨⟨present, held⟩, entry, rfl⟩
      exact ⟨present, by simpa using List.find?_some entry, List.mem_of_find?_eq_some entry⟩
    · rintro ⟨present, rfl, member⟩
      exact get?_eq_some_of_mem member
  rw [sameAs_iff_perm]
  constructor
  · intro permuted name
    apply Option.ext
    intro value
    simp only [holds, permuted.mem_iff]
  · intro equal
    refine (List.perm_ext_iff_of_nodup left.nodup_names.of_map right.nodup_names.of_map).2 ?_
    rintro ⟨name, value⟩
    constructor
    · intro member
      exact mem_of_get?_eq_some ((equal name.text).symm.trans (get?_eq_some_of_mem member))
    · intro member
      exact mem_of_get?_eq_some ((equal name.text).trans (get?_eq_some_of_mem member))

/-! ## Attributes in the order of their names -/

theorem sorted_perm (attributes : Attributes) : attributes.sorted.Perm attributes.entries :=
  List.mergeSort_perm _ _

/-- The attributes in the order of their names. -/
def ordered (attributes : Attributes) : Attributes :=
  ⟨attributes.sorted, (attributes.sorted_perm.map Prod.fst).nodup_iff.2 attributes.nodup_names⟩

theorem pairwise_sorted (attributes : Attributes) :
    attributes.sorted.Pairwise fun left right => left.1.text ≤ right.1.text := by
  have sorted : attributes.sorted.Pairwise fun left right =>
      decide (left.1.text ≤ right.1.text) = true := by
    apply List.pairwise_mergeSort
    · intro first second third former latter
      simp only [decide_eq_true_eq] at former latter ⊢
      exact String.le_trans former latter
    · intro first second
      simpa using String.le_total first.1.text second.1.text
  simpa using sorted

/-- There is one way to order entries by their names, since no name occurs twice. -/
theorem sorted_eq_of_perm (permuted : left.entries.Perm right.entries) :
    left.sorted = right.sorted := by
  have arranged : left.sorted.Perm right.sorted :=
    left.sorted_perm.trans (permuted.trans right.sorted_perm.symm)
  refine List.Perm.eq_of_pairwise ?_ left.pairwise_sorted right.pairwise_sorted arranged
  intro first second firstMember secondMember before behind
  have named : first.1 = second.1 := Name.ext (String.le_antisymm before behind)
  have held := right.sorted_perm.mem_iff.1 secondMember
  have present := right.sorted_perm.mem_iff.1 (arranged.mem_iff.1 firstMember)
  exact List.inj_on_of_nodup_map right.nodup_names present held named

theorem sameAs_iff_ordered : left.sameAs right = true ↔ left.ordered = right.ordered := by
  rw [sameAs_iff_perm, ordered, ordered, Attributes.mk.injEq]
  constructor
  · exact sorted_eq_of_perm
  · intro equal
    exact left.sorted_perm.symm.trans (equal ▸ right.sorted_perm)

@[simp] theorem pieces_ordered (attributes : Attributes) :
    attributes.ordered.pieces = attributes.pieces := by
  have sorted : attributes.ordered.sorted = attributes.sorted :=
    sorted_eq_of_perm attributes.sorted_perm
  rw [pieces, pieces, sorted]

end Attributes

/-! ## Trees with ordered attributes -/

namespace Tree

mutual

/-- A tree with the attributes of each tag node in the order of their names. -/
def ordered : Tree → Tree
  | leaf content => leaf content
  | tag name attributes children => tag name attributes.ordered (allOrdered children)

/-- Several trees with ordered attributes. -/
def allOrdered : List Tree → List Tree
  | [] => []
  | first :: rest => first.ordered :: allOrdered rest

end

theorem allOrdered_eq_map (trees : List Tree) : allOrdered trees = trees.map ordered := by
  induction trees with
  | nil => rfl
  | cons first rest induction => rw [allOrdered, induction, List.map_cons]

mutual

/-- The comparison finds a difference unless the trees are equal up to the order of attributes. -/
theorem difference?_eq_none_iff : (left right : Tree) →
    (left.difference? right = none ↔ left.ordered = right.ordered)
  | leaf left, leaf right => by
      rw [difference?, ordered, ordered, leaf.injEq]
      by_cases sameKind : left.kind = right.kind
      · by_cases equal : left = right
        · simp [equal]
        · simp [sameKind, equal]
      · have different : left ≠ right := fun equal => sameKind (congrArg Leaf.kind equal)
        simp [sameKind, different]
  | leaf _, tag _ _ _ => by simp [difference?, ordered]
  | tag _ _ _, leaf _ => by simp [difference?, ordered]
  | tag leftName leftAttributes leftChildren, tag rightName rightAttributes rightChildren => by
      have sameAttributes : leftAttributes.sameAs rightAttributes = true ↔
          leftAttributes.ordered = rightAttributes.ordered := Attributes.sameAs_iff_ordered
      have sameChildren := differenceAmong?_eq_none_iff 0 leftChildren rightChildren
      rw [difference?, ordered, ordered, tag.injEq, ← sameAttributes, ← sameChildren]
      by_cases named : leftName = rightName
      · by_cases alike : leftAttributes.sameAs rightAttributes = true
        · by_cases counted : leftChildren.length = rightChildren.length
          · simp [named, alike, counted]
          · simp [named, alike, counted]
        · simp [named, alike]
      · simp [named]

theorem differenceAmong?_eq_none_iff (index : Nat) : (left right : List Tree) →
    (left.length = right.length ∧ differenceAmong? index left right = none ↔
      allOrdered left = allOrdered right)
  | [], [] => by simp [differenceAmong?]
  | [], _ :: _ => by simp [allOrdered]
  | _ :: _, [] => by simp [allOrdered]
  | first :: left, second :: right => by
      have same := difference?_eq_none_iff first second
      have others := differenceAmong?_eq_none_iff (index + 1) left right
      rw [differenceAmong?, allOrdered, allOrdered, List.cons.injEq, ← same, ← others]
      cases first.difference? second with
      | some difference => simp
      | none => simp

end

mutual

theorem canonicalPieces_ordered : (tree : Tree) →
    tree.ordered.canonicalPieces = tree.canonicalPieces
  | leaf content => by rw [ordered]
  | tag name attributes children => by
      rw [ordered, canonicalPieces, canonicalPieces, Attributes.pieces_ordered,
        canonicalPiecesOfAll_allOrdered children, allOrdered_eq_map, List.isEmpty_map]

theorem canonicalPiecesOfAll_allOrdered : (trees : List Tree) →
    canonicalPiecesOfAll (allOrdered trees) = canonicalPiecesOfAll trees
  | [] => rfl
  | first :: rest => by
      rw [allOrdered, canonicalPiecesOfAll, canonicalPiecesOfAll, canonicalPieces_ordered first,
        canonicalPiecesOfAll_allOrdered rest]

end

/-! The indented layout looks at the names, the attributes and the kinds and contents of children,
which the order of attributes has no part in. -/

theorem isText_ordered (tree : Tree) : tree.ordered.isText = tree.isText := by
  cases tree <;> rfl

theorem isSolidText_ordered (tree : Tree) : tree.ordered.isSolidText = tree.isSolidText := by
  cases tree <;> rfl

theorem holdCharacterData_allOrdered (trees : List Tree) :
    holdCharacterData (allOrdered trees) = holdCharacterData trees := by
  simp [holdCharacterData, allOrdered_eq_map, List.all_map, List.any_map, Function.comp_def,
    isText_ordered, isSolidText_ordered]

mutual

theorem indentedPieces_ordered (indentation : String) (level : Nat) : (tree : Tree) →
    tree.ordered.indentedPieces indentation level = tree.indentedPieces indentation level
  | leaf content => by rw [ordered]
  | tag name attributes children => by
      have canonical := canonicalPieces_ordered (tag name attributes children)
      rw [ordered] at canonical
      rw [ordered, indentedPieces, indentedPieces, holdCharacterData_allOrdered, canonical,
        Attributes.pieces_ordered,
        indentedPiecesOfAll_allOrdered indentation (level + 1) children]

theorem indentedPiecesOfAll_allOrdered (indentation : String) (level : Nat) :
    (trees : List Tree) →
    indentedPiecesOfAll indentation level (allOrdered trees) =
      indentedPiecesOfAll indentation level trees
  | [] => rfl
  | first :: rest => by
      rw [allOrdered, indentedPiecesOfAll, indentedPiecesOfAll,
        indentedPieces_ordered indentation level first,
        indentedPiecesOfAll_allOrdered indentation level rest]

end

theorem pieces_ordered (layout : Layout) (tree : Tree) :
    tree.ordered.pieces layout = tree.pieces layout := by
  cases layout with
  | canonical => exact canonicalPieces_ordered tree
  | indented indentation => exact indentedPieces_ordered indentation 0 tree

theorem difference?_self (tree : Tree) : tree.difference? tree = none :=
  (difference?_eq_none_iff tree tree).2 rfl

/-- Trees that are not told apart are written alike in each layout. -/
theorem pieces_eq_of_difference?_eq_none {left right : Tree}
    (same : left.difference? right = none) (layout : Layout) :
    left.pieces layout = right.pieces layout := by
  have ordered := (difference?_eq_none_iff left right).1 same
  rw [← pieces_ordered layout left, ordered, pieces_ordered]

theorem render_eq_of_difference?_eq_none {left right : Tree} {layout : Layout}
    {newline : Text.Newline} (same : left.difference? right = none) :
    left.render layout newline = right.render layout newline := by
  rw [render, render, pieces_eq_of_difference?_eq_none same]

end Tree

end XmlGrove
