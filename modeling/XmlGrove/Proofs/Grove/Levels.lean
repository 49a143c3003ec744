import XmlGrove.Proofs.Grove.Traversal

/-!
# Level by level

A queue that takes children at its end holds what is left of one level, followed by what was found
of the next one. So nodes are visited by their depth, and in document order within a depth.
-/

namespace XmlGrove.Grove

open Relation

variable {grove : Grove} {root id other : NodeId} {level count : Nat} {ids : List NodeId}

/-- The nodes of a list that are at a depth. -/
def atDepth (grove : Grove) (depth : Nat) (ids : List NodeId) : List NodeId :=
  ids.filter fun id => grove.depth id = depth

/-- Nodes are ordered by their depth, and within each depth as they are in another list. -/
structure ByDepth (grove : Grove) (order document : List NodeId) : Prop where
  sorted : order.Pairwise fun former latter => grove.depth former ≤ grove.depth latter
  within : ∀ depth, grove.atDepth depth order = grove.atDepth depth document

/-- Nodes, followed by their children, by the children of these, and so on for as many levels as
requested. -/
def levels (grove : Grove) : Nat → List NodeId → List NodeId
  | 0, _ => []
  | count + 1, ids => ids ++ grove.levels count (ids.flatMap grove.children)

theorem ByDepth.perm {order document : List NodeId} (sorted : grove.ByDepth order document) :
    order.Perm document := by
  rw [List.perm_iff_count]
  intro id
  have same := congrArg (List.count id) (sorted.within (grove.depth id))
  rw [atDepth, atDepth, List.count_filter (by simp), List.count_filter (by simp)] at same
  exact same

theorem ByDepth.filter {order document : List NodeId} (sorted : grove.ByDepth order document)
    (test : NodeId → Bool) : grove.ByDepth (order.filter test) (document.filter test) where
  sorted := sorted.sorted.filter test
  within depth := by
    have same := congrArg (List.filter test) (sorted.within depth)
    rw [atDepth, atDepth] at same ⊢
    rw [List.filter_comm, same, List.filter_comm]

/-- Once some nodes at the front of a queue are visited, their children are at its end. -/
theorem breadthFrom_append (grove : Grove) (former latter : List NodeId) (bound : Nat) :
    grove.breadthFrom (former.length + bound) (former ++ latter) =
      former ++ grove.breadthFrom bound (latter ++ former.flatMap grove.children) := by
  induction former generalizing latter with
  | nil => simp
  | cons id rest induction =>
      rw [List.length_cons, Nat.add_right_comm, List.cons_append, breadthFrom, List.append_assoc,
        induction]
      simp

section

variable (consistent : grove.Consistent root)

include consistent

theorem Consistent.leveled_flatMap_children (leveled : ∀ id ∈ ids, grove.Level root level id) :
    ∀ child ∈ ids.flatMap grove.children, grove.Level root (level + 1) child := by
  intro child member
  rcases List.mem_flatMap.1 member with ⟨id, listed, below⟩
  exact consistent.level_of_lists (leveled id listed) below

theorem Consistent.eq_nil_of_size_lt (leveled : ∀ id ∈ ids, grove.Level root level id)
    (deep : grove.entries.size < level) : ids = [] := by
  apply List.eq_nil_iff_forall_not_mem.2
  intro id member
  have := (leveled id member).le_size consistent.toRooted
  omega

theorem Consistent.breadthFrom_eq_levels (leveled : ∀ id ∈ ids, grove.Level root level id)
    (deep : grove.entries.size < level + count) (bound : Nat) :
    grove.breadthFrom ((grove.levels count ids).length + bound) ids = grove.levels count ids := by
  induction count generalizing level ids with
  | zero => rw [consistent.eq_nil_of_size_lt leveled deep, breadthFrom_nil, levels]
  | succ count induction =>
      have queue := grove.breadthFrom_append ids []
        ((grove.levels count (ids.flatMap grove.children)).length + bound)
      rw [List.append_nil, List.nil_append,
        induction (consistent.leveled_flatMap_children leveled) (by omega)] at queue
      rw [levels, List.length_append, Nat.add_assoc, queue]

/-! ## Depths -/

theorem Consistent.depth_of_mem_descendants (leveled : grove.Level root level id)
    (member : other ∈ grove.descendants id) : level < grove.depth other := by
  have below : TransGen grove.Lists id other := by
    rw [← consistent.mem_ancestors_iff ⟨level, leveled⟩,
      ← consistent.mem_descendants_iff ⟨level, leveled⟩]
    exact member
  rcases consistent.inTree_below ⟨level, leveled⟩ below.to_reflTransGen with ⟨lower, deeper⟩
  rw [deeper.depth_eq consistent]
  exact consistent.level_lt leveled deeper below

theorem Consistent.atDepth_preorder (leveled : grove.Level root level id) :
    grove.atDepth level (grove.preorder id) = [id] := by
  have deeper : grove.atDepth level (grove.descendants id) = [] := by
    apply List.filter_eq_nil_iff.2
    intro other member
    have := consistent.depth_of_mem_descendants leveled member
    simp
    omega
  rw [preorder, atDepth, List.filter_cons_of_pos (by simp [leveled.depth_eq consistent]),
    ← atDepth, deeper]

theorem Consistent.atDepth_preorder_of_ne (leveled : grove.Level root level id) {depth : Nat}
    (different : level ≠ depth) : grove.atDepth depth (grove.preorder id) =
      grove.atDepth depth ((grove.children id).flatMap grove.preorder) := by
  rw [preorder, consistent.descendants_eq ⟨level, leveled⟩, atDepth,
    List.filter_cons_of_neg (by simpa [leveled.depth_eq consistent] using different), ← atDepth]

/-- Nodes of one level are the first nodes of their trees, and all others are in the trees of their
children. -/
theorem Consistent.atDepth_flatMap_preorder (leveled : ∀ id ∈ ids, grove.Level root level id)
    (depth : Nat) : grove.atDepth depth (ids.flatMap grove.preorder) =
      grove.atDepth depth ids ++
        grove.atDepth depth ((ids.flatMap grove.children).flatMap grove.preorder) := by
  by_cases same : level = depth
  · subst same
    have top : grove.atDepth level ids = ids := by
      apply List.filter_eq_self.2
      intro id member
      simp [(leveled id member).depth_eq consistent]
    have below : grove.atDepth level ((ids.flatMap grove.children).flatMap grove.preorder) = [] := by
      apply List.filter_eq_nil_iff.2
      intro other member
      rcases List.mem_flatMap.1 member with ⟨child, listed, visited⟩
      have deeper := consistent.leveled_flatMap_children leveled child listed
      rcases List.mem_cons.1 visited with rfl | further
      · simp [deeper.depth_eq consistent]
      · have := consistent.depth_of_mem_descendants deeper further
        simp
        omega
    rw [top, below, List.append_nil, atDepth, List.filter_flatMap]
    exact (List.flatMap_congr fun id member =>
      consistent.atDepth_preorder (leveled id member)).trans (List.flatMap_singleton' ids)
  · have top : grove.atDepth depth ids = [] := by
      apply List.filter_eq_nil_iff.2
      intro id member
      simpa [(leveled id member).depth_eq consistent] using same
    rw [top, List.nil_append, List.flatMap_assoc, atDepth, atDepth, List.filter_flatMap,
      List.filter_flatMap]
    exact List.flatMap_congr fun id member =>
      consistent.atDepth_preorder_of_ne (leveled id member) same

theorem Consistent.atDepth_levels (leveled : ∀ id ∈ ids, grove.Level root level id)
    (deep : grove.entries.size < level + count) (depth : Nat) :
    grove.atDepth depth (grove.levels count ids) =
      grove.atDepth depth (ids.flatMap grove.preorder) := by
  induction count generalizing level ids with
  | zero =>
      rw [consistent.eq_nil_of_size_lt leveled deep]
      rfl
  | succ count induction =>
      have later := induction (consistent.leveled_flatMap_children leveled) (by omega)
      rw [consistent.atDepth_flatMap_preorder leveled, ← later, levels, atDepth, List.filter_append]
      rfl

theorem Consistent.le_depth_of_mem_levels (leveled : ∀ id ∈ ids, grove.Level root level id)
    (member : other ∈ grove.levels count ids) : level ≤ grove.depth other := by
  induction count generalizing level ids with
  | zero => cases member
  | succ count induction =>
      rw [levels] at member
      rcases List.mem_append.1 member with first | later
      · exact Nat.le_of_eq ((leveled other first).depth_eq consistent).symm
      · exact Nat.le_of_succ_le (induction (consistent.leveled_flatMap_children leveled) later)

theorem Consistent.sorted_levels (leveled : ∀ id ∈ ids, grove.Level root level id) :
    (grove.levels count ids).Pairwise fun former latter =>
      grove.depth former ≤ grove.depth latter := by
  induction count generalizing level ids with
  | zero => exact .nil
  | succ count induction =>
      have deeper := consistent.leveled_flatMap_children leveled
      rw [levels]
      apply List.pairwise_append.2
      refine ⟨?_, induction deeper, ?_⟩
      · apply List.pairwise_of_forall_mem_list
        intro former formerMember latter latterMember
        simp [(leveled former formerMember).depth_eq consistent,
          (leveled latter latterMember).depth_eq consistent]
      · intro former formerMember latter latterMember
        have := consistent.le_depth_of_mem_levels deeper latterMember
        rw [(leveled former formerMember).depth_eq consistent]
        omega

/-- The queue yields the nodes of a tree by their depth, and as in the document within a depth. -/
theorem Consistent.byDepth_breadthFirst (inTree : grove.InTree root id) :
    grove.ByDepth (grove.breadthFirst id) (grove.preorder id) := by
  rcases inTree with ⟨level, leveled⟩
  have all : ∀ other ∈ [id], grove.Level root level other := by
    simpa using leveled
  have deep : grove.entries.size < level + (grove.entries.size + 1) := by
    omega
  have sorted : grove.ByDepth (grove.levels (grove.entries.size + 1) [id]) (grove.preorder id) := by
    refine ⟨consistent.sorted_levels all, ?_⟩
    intro depth
    rw [consistent.atDepth_levels all deep, List.flatMap_singleton]
  -- The nodes in the queue are no more than there are in all, so that none is left behind.
  have short := consistent.length_preorder_le ⟨level, leveled⟩
  rw [← sorted.perm.length_eq] at short
  have visited := consistent.breadthFrom_eq_levels all deep
    (grove.entries.size + 1 - (grove.levels (grove.entries.size + 1) [id]).length)
  rw [Nat.add_sub_cancel' (Nat.le_succ_of_le short)] at visited
  rw [breadthFirst, visited]
  exact sorted

/-! ## All traversals -/

theorem Consistent.isFinished (inTree : grove.InTree root id) : grove.isFinished id = true := by
  apply List.all_eq_true.2
  intro other member
  have below := (consistent.mem_preorder_iff inTree).1 member
  rcases (consistent.complete other (consistent.inTree_below inTree below)).leaf_or_tag with
    ⟨content, present⟩ | ⟨name, attributes, children, present⟩ <;>
    simp [childList?, leaf?, present]

theorem Consistent.perm_of_traversal {depthFirst fromTop : Bool}
    {visit : Grove → NodeId → List NodeId} (inTree : grove.InTree root id)
    (requested : traversal depthFirst fromTop = .ok visit) :
    (visit grove id).Perm (grove.preorder id) := by
  cases depthFirst with
  | true =>
      cases fromTop with
      | true =>
          cases requested
          exact .refl _
      | false =>
          cases requested
          exact consistent.postorder_perm inTree
  | false =>
      cases fromTop with
      | true =>
          cases requested
          exact (consistent.byDepth_breadthFirst inTree).perm
      | false => cases requested

end

/-- In a tree whose links and lists agree, the loops visit nodes in the orders of recursion, also
those that save positions or take shortcuts. Nodes that fail a filter are left out along with
nothing else. Each traversal gets to every node that the given one is an ancestor of, and to the
given one, once. -/
theorem traversals_eq (consistent : grove.Consistent root) (inTree : grove.InTree root id)
    (filters : List Filter) :
    grove.isFinished id = true ∧
    grove.passing filters (grove.descendants id) =
      (grove.children id).flatMap (fun child => grove.passing filters (grove.preorder child)) ∧
    grove.passing filters (grove.preorder id) =
      grove.passing filters [id] ++ grove.passing filters (grove.descendants id) ∧
    grove.passing filters (grove.postorder id) =
      (grove.children id).flatMap (fun child => grove.passing filters (grove.postorder child)) ++
        grove.passing filters [id] ∧
    grove.ByDepth (grove.passing filters (grove.breadthFirst id))
      (grove.passing filters (grove.preorder id)) ∧
    (∀ bound, 2 * grove.entries.size < bound →
      grove.resumeFrom bound [(grove.children id, 0)] = grove.descendants id ∧
      grove.returnFrom bound [(id, grove.children id)] = grove.postorder id) ∧
    ∀ depthFirst fromTop visit, traversal depthFirst fromTop = .ok visit →
      (visit grove id).Nodup ∧
      ∀ other, other ∈ visit grove id ↔ other = id ∨ id ∈ grove.ancestors other := by
  refine ⟨consistent.isFinished inTree, ?_, ?_, ?_,
    (consistent.byDepth_breadthFirst inTree).filter _, ?_, ?_⟩
  · rw [consistent.descendants_eq inTree, passing, List.filter_flatMap]
    rfl
  · rw [preorder, passing, ← List.singleton_append, List.filter_append]
    rfl
  · rw [consistent.postorder_eq inTree, passing, List.filter_append, List.filter_flatMap]
    rfl
  · intro bound enough
    exact ⟨consistent.resumeFrom_eq inTree enough, consistent.returnFrom_eq inTree enough⟩
  · intro depthFirst fromTop visit requested
    have same := consistent.perm_of_traversal inTree requested
    refine ⟨same.nodup_iff.2 (consistent.nodup_preorder inTree), ?_⟩
    intro other
    rw [same.mem_iff, preorder, List.mem_cons, consistent.mem_descendants_iff inTree]

theorem traversals_eq_bookGrove :
    bookGrove.Consistent ⟨0⟩ ∧ bookGrove.InTree ⟨0⟩ ⟨3⟩ ∧
      bookGrove.passing [.ofKind .tag] (bookGrove.postorder ⟨3⟩) = [⟨5⟩, ⟨3⟩] ∧
      (bookGrove.breadthFirst ⟨3⟩).Nodup := by
  have inTree : bookGrove.InTree ⟨0⟩ ⟨3⟩ := ⟨1, .child (by decide) .root⟩
  rcases traversals_eq consistent_bookGrove inTree [.ofKind .tag] with
    ⟨_, _, _, postorder, _, _, each⟩
  refine ⟨consistent_bookGrove, inTree, ?_, (each false true _ rfl).1⟩
  rw [postorder]
  decide

end XmlGrove.Grove
