import Mathlib.Data.List.Nodup
import XmlGrove.Proofs.Path.Location

/-!
# Kinship

Where links and lists of a tree agree, the way down to a node is the way up from it. The nodes
above it are those that it is below, and they are as many as its depth.
-/

namespace XmlGrove.Grove

open Relation

variable {grove : Grove} {root id other parent child : NodeId} {level higher : Nat}

/-- A tree in which links and lists agree, and all nodes are leaves or have a list of children. -/
structure Consistent (grove : Grove) (root : NodeId) : Prop extends grove.Rooted root where
  complete : ∀ id, grove.InTree root id → grove.IsComplete id

theorem IsComplete.isAnchor_eq_false (complete : grove.IsComplete id) :
    grove.isAnchor id = false := by
  rcases complete.leaf_or_tag with ⟨content, present⟩ | ⟨name, attributes, children, present⟩ <;>
    simp [isAnchor, anchored?, present]

theorem InTree.of_parent? (inTree : grove.InTree root parent)
    (linked : grove.parent? child = some parent) : grove.InTree root child := by
  rcases inTree with ⟨level, leveled⟩
  exact ⟨level + 1, leveled.child linked⟩

section

variable (consistent : grove.Consistent root)

include consistent

/-! ## Parents and children -/

theorem Consistent.parent?_of_link (inTree : grove.InTree root parent)
    (link : grove.Link child parent) : grove.parent? child = some parent := by
  have inner := (consistent.complete parent inTree).isAnchor_eq_false
  rw [Link] at link
  simp [parent?, link, inner]

/-- A node in the tree lists the nodes that it is the parent of. -/
theorem Consistent.lists_iff (inTree : grove.InTree root parent) :
    grove.Lists parent child ↔ grove.parent? child = some parent := by
  have count := consistent.agreement parent inTree child
  constructor
  · intro listed
    have positive := List.count_pos_iff.2 listed
    have linked : grove.parentLink? child = some parent := by
      by_contra unlinked
      rw [if_neg unlinked] at count
      omega
    exact consistent.parent?_of_link inTree linked
  · intro linked
    rw [if_pos (parentLink?_of_parent? linked)] at count
    exact List.count_pos_iff.1 (by omega)

theorem Consistent.nodup_children (inTree : grove.InTree root parent) :
    (grove.children parent).Nodup := by
  rw [List.nodup_iff_count_le_one]
  intro child
  rw [consistent.agreement parent inTree child]
  split <;> omega

theorem Consistent.inTree_of_lists (inTree : grove.InTree root parent)
    (listed : grove.Lists parent child) : grove.InTree root child :=
  inTree.of_parent? ((consistent.lists_iff inTree).1 listed)

theorem Consistent.inTree_parent (inTree : grove.InTree root child)
    (linked : grove.parent? child = some parent) : grove.InTree root parent := by
  rcases inTree with ⟨level, leveled⟩
  cases leveled with
  | root =>
      rw [consistent.parent?_root] at linked
      cases linked
  | child others above =>
      rw [others] at linked
      cases linked
      exact ⟨_, above⟩

theorem Consistent.level_of_lists (leveled : grove.Level root level parent)
    (listed : grove.Lists parent child) : grove.Level root (level + 1) child :=
  leveled.child ((consistent.lists_iff ⟨level, leveled⟩).1 listed)

/-- Going down in a tree comes to an end. -/
theorem Consistent.acc (inTree : grove.InTree root id) : Acc (Function.swap grove.Lists) id := by
  rcases inTree with ⟨level, leveled⟩
  -- Each level takes one away from the number of levels that are left below the node.
  generalize gap : grove.entries.size - level = left
  induction left generalizing level id with
  | zero =>
      constructor
      intro child listed
      have := (consistent.level_of_lists leveled listed).le_size consistent.toRooted
      omega
  | succ left induction =>
      constructor
      intro child listed
      exact induction (level + 1) (consistent.level_of_lists leveled listed) (by omega)

/-! ## Nodes below a node -/

theorem Consistent.inTree_below (inTree : grove.InTree root id)
    (below : ReflTransGen grove.Lists id other) : grove.InTree root other := by
  induction below with
  | refl => exact inTree
  | tail _ listed induction => exact consistent.inTree_of_lists induction listed

/-- A node is below another one exactly if the links from it lead there. -/
theorem Consistent.below_iff (inTree : grove.InTree root id) :
    ReflTransGen grove.Lists id other ↔ ReflTransGen grove.Link other id := by
  constructor
  · intro below
    induction below with
    | refl => exact .refl
    | tail below listed induction =>
        have linked := (consistent.lists_iff (consistent.inTree_below inTree below)).1 listed
        exact induction.head (parentLink?_of_parent? linked)
  · intro way
    induction way using ReflTransGen.head_induction_on with
    | refl => exact .refl
    | head link _ induction =>
        have above := consistent.inTree_below inTree induction
        exact induction.tail ((consistent.lists_iff above).2 (consistent.parent?_of_link above link))

theorem Consistent.level_lt (leveled : grove.Level root level id)
    (lower : grove.Level root higher other) (below : TransGen grove.Lists id other) :
    level < higher := by
  induction below generalizing higher with
  | single listed =>
      have := (consistent.level_of_lists leveled listed).unique consistent.toRooted lower
      omega
  | tail below listed induction =>
      rcases consistent.inTree_below ⟨level, leveled⟩ below.to_reflTransGen with ⟨middle, between⟩
      have := induction between
      have := (consistent.level_of_lists between listed).unique consistent.toRooted lower
      omega

theorem Consistent.not_below_self (inTree : grove.InTree root id) :
    ¬ TransGen grove.Lists id id := by
  rcases inTree with ⟨level, leveled⟩
  intro below
  exact Nat.lt_irrefl level (consistent.level_lt leveled leveled below)

/-- Two nodes of one level have nothing below them in common. -/
theorem Consistent.apart {first second : NodeId} (former : grove.Level root level first)
    (latter : grove.Level root level second) (different : first ≠ second) :
    grove.Apart first second := by
  intro id belowFirst belowSecond
  have upFirst := (consistent.below_iff ⟨level, former⟩).1 belowFirst
  have upSecond := (consistent.below_iff ⟨level, latter⟩).1 belowSecond
  have severed : ∀ {lower upper : NodeId}, grove.Level root level lower →
      grove.Level root level upper → ReflTransGen grove.Link lower upper → lower = upper := by
    intro lower upper low high way
    rcases reflTransGen_iff_eq_or_transGen.1 ((consistent.below_iff ⟨level, high⟩).2 way) with
      equal | below
    · exact equal
    · exact absurd (consistent.level_lt high low below) (Nat.lt_irrefl level)
  rcases way_total upFirst upSecond with way | way
  · exact different (severed former latter way)
  · exact different (severed latter former way).symm

/-! ## Ancestors -/

/-- Links of as many levels as are above a node lead to all its ancestors. -/
theorem Level.filter_follow (leveled : grove.Level root level id) {bound : Nat}
    (enough : level ≤ bound) :
    ((grove.follow (bound + 1) (grove.parentLink? id)).filter fun node => !grove.isAnchor node) =
      (grove.follow bound (grove.parentLink? id)).filter fun node => !grove.isAnchor node := by
  induction leveled generalizing bound with
  | root => rw [consistent.filter_follow_root, consistent.filter_follow_root]
  | child linked above induction =>
      cases bound with
      | zero => cases enough
      | succ bound =>
          have inner := not_isAnchor_of_parent? linked
          rw [parentLink?_of_parent? linked, follow, follow, List.filter_cons, List.filter_cons,
            induction (Nat.le_of_succ_le_succ enough)]

theorem Consistent.ancestors_root : grove.ancestors root = [] :=
  consistent.filter_follow_root _

theorem Consistent.ancestors_of_parent? (inTree : grove.InTree root child)
    (linked : grove.parent? child = some parent) :
    grove.ancestors child = parent :: grove.ancestors parent := by
  rcases consistent.inTree_parent inTree linked with ⟨level, above⟩
  have inner := not_isAnchor_of_parent? linked
  have enough := above.le_size consistent.toRooted
  rw [ancestors, lineage, ← (above.child linked).filter_follow consistent
    ((above.child linked).le_size consistent.toRooted), parentLink?_of_parent? linked, follow,
    List.filter_cons_of_pos (by simp [inner]), ancestors, lineage]

theorem Level.depth_eq (leveled : grove.Level root level id) : grove.depth id = level := by
  induction leveled with
  | root => rw [depth, consistent.ancestors_root, List.length_nil]
  | child linked above induction =>
      rw [depth, consistent.ancestors_of_parent? ⟨_, above.child linked⟩ linked, List.length_cons,
        ← depth, induction]

/-- The ancestors of a node are the nodes that it is below. -/
theorem Consistent.mem_ancestors_iff (inTree : grove.InTree root id) :
    id ∈ grove.ancestors other ↔ TransGen grove.Lists id other := by
  constructor
  · intro member
    rcases mem_follow (List.mem_of_mem_filter member) with ⟨above, link, way⟩
    have below := (consistent.below_iff inTree).2 way
    have inner := consistent.inTree_below inTree below
    exact .tail' below ((consistent.lists_iff inner).2 (consistent.parent?_of_link inner link))
  · intro below
    induction below with
    | single listed =>
        have linked := (consistent.lists_iff inTree).1 listed
        rw [consistent.ancestors_of_parent? (inTree.of_parent? linked) linked]
        exact List.mem_cons_self
    | tail below listed induction =>
        have above := consistent.inTree_below inTree below.to_reflTransGen
        have linked := (consistent.lists_iff above).1 listed
        rw [consistent.ancestors_of_parent? (above.of_parent? linked) linked]
        exact List.mem_cons_of_mem _ induction

end

theorem consistent_bookGrove : bookGrove.Consistent ⟨0⟩ where
  toRooted := rooted_bookGrove
  complete := by
    have each : ∀ index < bookGrove.entries.size,
        index = 0 ∨ (bookGrove.parent? ⟨index⟩).isSome = true → bookGrove.IsComplete ⟨index⟩ := by
      decide
    intro id inTree
    rcases inTree with ⟨level, leveled⟩
    cases leveled with
    | root => exact each 0 (by decide) (.inl rfl)
    | child linked above =>
        exact each id.index (has_of_parentLink? (parentLink?_of_parent? linked))
          (.inr (by rw [linked]; rfl))

end XmlGrove.Grove
