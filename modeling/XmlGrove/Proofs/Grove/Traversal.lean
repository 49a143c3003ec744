import XmlGrove.Proofs.Grove.Kinship

/-!
# Traversals visit trees in the orders of recursion

A walk over trees is defined by recursion: what is below a node is walked through first, and the
node then takes its place among it. The loops of the traversals keep on a stack, or in a queue, what
such a recursion has left to do.
-/

namespace XmlGrove.Grove

open Relation

variable {grove : Grove} {root id other : NodeId} {level : Nat} {ids order : List NodeId}
  {place : NodeId → List NodeId → List NodeId}

/-! ## Walks -/

/-- The nodes of trees, given the nodes on top of these, in the order that is defined by recursion.
A node takes its place among the nodes below it. -/
inductive Walk (grove : Grove) (place : NodeId → List NodeId → List NodeId) :
    List NodeId → List NodeId → Prop
  | nil : grove.Walk place [] []
  | cons {id : NodeId} {rest below behind : List NodeId}
      (inner : grove.Walk place (grove.children id) below) (outer : grove.Walk place rest behind) :
      grove.Walk place (id :: rest) (place id below ++ behind)

/-- A node comes before the nodes below it. -/
def placeFirst (id : NodeId) (below : List NodeId) : List NodeId := id :: below

/-- A node comes after the nodes below it. -/
def placeLast (id : NodeId) (below : List NodeId) : List NodeId := below ++ [id]

theorem placeLast_perm (id : NodeId) (below : List NodeId) : (placeLast id below).Perm (id :: below) :=
  List.perm_append_singleton id below

namespace Walk

theorem unique {another : List NodeId} (walk : grove.Walk place ids order)
    (second : grove.Walk place ids another) : order = another := by
  induction walk generalizing another with
  | nil => cases second; rfl
  | cons inner outer below behind =>
      cases second with
      | cons inner' outer' => rw [below inner', behind outer']

theorem append {later following : List NodeId} (walk : grove.Walk place ids order)
    (second : grove.Walk place later following) :
    grove.Walk place (ids ++ later) (order ++ following) := by
  induction walk with
  | nil => exact second
  | cons inner outer _ behind =>
      rw [List.append_assoc]
      exact .cons inner behind

theorem flatMap {visit : NodeId → List NodeId}
    (each : ∀ id ∈ ids, grove.Walk place [id] (visit id)) :
    grove.Walk place ids (ids.flatMap visit) := by
  induction ids with
  | nil => exact .nil
  | cons id rest induction =>
      rw [List.flatMap_cons]
      exact (each id List.mem_cons_self).append
        (induction fun later member => each later (List.mem_cons_of_mem id member))

theorem singleton {below : List NodeId} (inner : grove.Walk place (grove.children id) below) :
    grove.Walk place [id] (place id below) := by
  rw [← List.append_nil (place id below)]
  exact .cons inner .nil

/-- Two walks differ in nothing but the order. -/
theorem perm {another : NodeId → List NodeId → List NodeId} {reordered : List NodeId}
    (fair : ∀ id below, (place id below).Perm (id :: below))
    (fairToo : ∀ id below, (another id below).Perm (id :: below))
    (walk : grove.Walk place ids order) (second : grove.Walk another ids reordered) :
    order.Perm reordered := by
  induction walk generalizing reordered with
  | nil => cases second; exact .nil
  | @cons id _ _ _ inner outer below behind =>
      cases second with
      | cons inner' outer' =>
          have same := (fair id _).trans (((below inner').cons id).trans (fairToo id _).symm)
          exact same.append (behind outer')

/-- A walk gets to all nodes that are below one of those on top. -/
theorem mem_iff (walk : grove.Walk placeFirst ids order) :
    other ∈ order ↔ ∃ id ∈ ids, ReflTransGen grove.Lists id other := by
  induction walk with
  | nil => simp
  | @cons id rest below behind inner outer children siblings =>
      have deeper : other ∈ placeFirst id below ↔ ReflTransGen grove.Lists id other := by
        rw [placeFirst, List.mem_cons, children, ReflTransGen.cases_head_iff, eq_comm]
        rfl
      simp [deeper, siblings]

end Walk

theorem Consistent.nodup_walk (consistent : grove.Consistent root)
    (walk : grove.Walk placeFirst ids order) (inTree : ∀ id ∈ ids, grove.InTree root id)
    (apart : ids.Pairwise grove.Apart) : order.Nodup := by
  induction walk with
  | nil => exact .nil
  | @cons id rest below behind inner outer children siblings =>
      rcases List.pairwise_cons.1 apart with ⟨others, waiting⟩
      rcases inTree id List.mem_cons_self with ⟨level, leveled⟩
      have distinct : below.Nodup := by
        apply children
        · intro child listed
          exact consistent.inTree_of_lists ⟨level, leveled⟩ listed
        · apply (consistent.nodup_children ⟨level, leveled⟩).imp_of_mem
          intro first second former latter
          exact consistent.apart (consistent.level_of_lists leveled former)
            (consistent.level_of_lists leveled latter)
      have behindDistinct : behind.Nodup := by
        apply siblings _ waiting
        intro sibling member
        exact inTree sibling (List.mem_cons_of_mem id member)
      have fresh : id ∉ below := by
        intro member
        rcases inner.mem_iff.1 member with ⟨child, listed, way⟩
        exact consistent.not_below_self ⟨level, leveled⟩ (.head' listed way)
      apply List.Nodup.append (List.nodup_cons.2 ⟨fresh, distinct⟩) behindDistinct
      intro shared former latter
      have way : ReflTransGen grove.Lists id shared := by
        rcases List.mem_cons.1 former with rfl | member
        · exact .refl
        · rcases inner.mem_iff.1 member with ⟨child, listed, way⟩
          exact .head listed way
      rcases outer.mem_iff.1 latter with ⟨sibling, member, further⟩
      exact others sibling member shared way further

theorem Consistent.exists_walk (consistent : grove.Consistent root)
    (inTree : grove.InTree root id) (place : NodeId → List NodeId → List NodeId) :
    ∃ below, grove.Walk place (grove.children id) below := by
  induction consistent.acc inTree with
  | intro id _ induction =>
      have each : ∀ child, ∃ below, child ∈ grove.children id →
          grove.Walk place (grove.children child) below := by
        intro child
        by_cases listed : child ∈ grove.children id
        · rcases induction child listed (consistent.inTree_of_lists inTree listed) with
            ⟨below, walk⟩
          exact ⟨below, fun _ => walk⟩
        · exact ⟨[], fun member => absurd member listed⟩
      choose below walk using each
      exact ⟨_, .flatMap fun child listed => (walk child listed).singleton⟩

section

variable (consistent : grove.Consistent root)

include consistent

/-- There are no more nodes in a walk than there are in all. -/
theorem Consistent.length_walk_lt (inTree : grove.InTree root id) {below : List NodeId}
    (fair : ∀ id below, (place id below).Perm (id :: below))
    (walk : grove.Walk place (grove.children id) below) : below.length < grove.entries.size := by
  rcases consistent.exists_walk inTree placeFirst with ⟨reordered, first⟩
  rw [(walk.perm fair (fun _ _ => .refl _) first).length_eq]
  have all := first.singleton
  apply length_le_of_has (consistent.nodup_walk all (by simpa using inTree)
    (List.pairwise_singleton _ _))
  intro other member
  rcases all.mem_iff.1 member with ⟨top, listed, way⟩
  rw [List.mem_singleton.1 listed] at way
  exact (consistent.complete other (consistent.inTree_below inTree way)).has

end

/-! ## Loops -/

theorem postorderFrom_nil (bound : Nat) : grove.postorderFrom bound [] = [] := by
  cases bound <;> rfl

theorem breadthFrom_nil (bound : Nat) : grove.breadthFrom bound [] = [] := by
  cases bound <;> rfl

theorem Walk.preorderFrom_eq (walk : grove.Walk placeFirst ids order) (bound : Nat)
    (pending : List NodeId) :
    grove.preorderFrom (order.length + bound) (ids ++ pending) =
      order ++ grove.preorderFrom bound pending := by
  induction walk generalizing bound pending with
  | nil => simp
  | @cons id rest below behind inner outer children siblings =>
      have steps : (placeFirst id below ++ behind).length + bound =
          below.length + (behind.length + bound) + 1 := by
        simp [placeFirst]
        omega
      rw [steps, List.cons_append, preorderFrom, children, siblings]
      simp [placeFirst]

theorem Walk.postorderFrom_eq (walk : grove.Walk placeLast ids order) (bound : Nat) (id : NodeId)
    (pending : List (NodeId × List NodeId)) :
    grove.postorderFrom (2 * order.length + bound) ((id, ids) :: pending) =
      order ++ grove.postorderFrom bound ((id, []) :: pending) := by
  induction walk generalizing bound id pending with
  | nil => simp
  | @cons child rest below behind inner outer children siblings =>
      have steps : 2 * (placeLast child below ++ behind).length + bound =
          2 * below.length + (2 * behind.length + bound + 1) + 1 := by
        simp [placeLast]
        omega
      rw [steps, postorderFrom, children, postorderFrom, siblings]
      simp [placeLast]

/-! ### Shortcuts and saved positions

Childless nodes need not be put on a stack, and of a list of siblings it suffices to note a position.
-/

/-- Visit nodes after their descendants. A pending node comes with those of its children that are
still to visit, and childless ones among these are visited at once. -/
def returnFrom (grove : Grove) : Nat → List (NodeId × List NodeId) → List NodeId
  | 0, _ | _, [] => []
  | bound + 1, (id, []) :: pending => id :: grove.returnFrom bound pending
  | bound + 1, (id, child :: rest) :: pending =>
    if grove.children child = [] then
      child :: grove.returnFrom bound ((id, rest) :: pending)
    else
      grove.returnFrom bound ((child, grove.children child) :: (id, rest) :: pending)

theorem returnFrom_nil (bound : Nat) : grove.returnFrom bound [] = [] := by
  cases bound <;> rfl

theorem Walk.returnFrom_eq (walk : grove.Walk placeLast ids order) :
    ∃ cost ≤ 2 * order.length, ∀ bound id pending,
      grove.returnFrom (cost + bound) ((id, ids) :: pending) =
        order ++ grove.returnFrom bound ((id, []) :: pending) := by
  induction walk with
  | nil => exact ⟨0, by simp, by simp⟩
  | @cons child rest below behind inner outer children later =>
      rcases later with ⟨further, few, others⟩
      by_cases childless : grove.children child = []
      · rw [childless] at inner
        cases inner
        refine ⟨further + 1, by simp [placeLast]; omega, ?_⟩
        intro bound id pending
        rw [Nat.add_right_comm, returnFrom, if_pos childless, others]
        simp [placeLast]
      · rcases children with ⟨deeper, fewer, inside⟩
        refine ⟨deeper + (further + 1) + 1, by simp [placeLast]; omega, ?_⟩
        intro bound id pending
        rw [Nat.add_right_comm, Nat.add_assoc deeper, Nat.add_right_comm further, returnFrom,
          if_neg childless, inside, returnFrom, others]
        simp [placeLast]

/-- Visit lists of siblings from a position on, the first list first. Where a visited node has
children, these are visited next, and the position behind the node is kept for later. -/
def resumeFrom (grove : Grove) : Nat → List (List NodeId × Nat) → List NodeId
  | 0, _ | _, [] => []
  | bound + 1, (siblings, position) :: stack =>
    match siblings[position]? with
    | none => grove.resumeFrom bound stack
    | some id =>
      if grove.children id = [] then
        id :: grove.resumeFrom bound ((siblings, position + 1) :: stack)
      else
        id :: grove.resumeFrom bound ((grove.children id, 0) :: (siblings, position + 1) :: stack)

theorem resumeFrom_nil (bound : Nat) : grove.resumeFrom bound [] = [] := by
  cases bound <;> rfl

theorem Walk.resumeFrom_eq (walk : grove.Walk placeFirst ids order) {siblings : List NodeId}
    {position : Nat} (left : siblings.drop position = ids) :
    ∃ cost ≤ 2 * order.length + 1, ∀ bound stack,
      grove.resumeFrom (cost + bound) ((siblings, position) :: stack) =
        order ++ grove.resumeFrom bound stack := by
  induction walk generalizing siblings position with
  | nil =>
      have out : siblings[position]? = none := by
        simpa using left
      refine ⟨1, by simp, ?_⟩
      intro bound stack
      rw [Nat.add_comm, resumeFrom, out]
      rfl
  | @cons id rest below behind inner outer children later =>
      have next : siblings[position]? = some id := by
        rw [← List.head?_drop, left, List.head?_cons]
      have others : siblings.drop (position + 1) = rest := by
        rw [← List.tail_drop, left, List.tail_cons]
      rcases later others with ⟨further, few, rest⟩
      by_cases childless : grove.children id = []
      · rw [childless] at inner
        cases inner
        refine ⟨further + 1, by simp [placeFirst]; omega, ?_⟩
        intro bound stack
        rw [Nat.add_right_comm, resumeFrom, next]
        simp [childless, rest, placeFirst]
      · rcases children (List.drop_zero) with ⟨deeper, fewer, below⟩
        refine ⟨deeper + further + 1, by simp [placeFirst]; omega, ?_⟩
        intro bound stack
        rw [Nat.add_right_comm, Nat.add_assoc deeper, resumeFrom, next]
        simp [childless, below, rest, placeFirst]

section

variable (consistent : grove.Consistent root)

include consistent

/-- What is visited below a node is what a walk gets to that places nodes first. -/
theorem Consistent.walk_descendants (inTree : grove.InTree root id) :
    grove.Walk placeFirst (grove.children id) (grove.descendants id) := by
  rcases consistent.exists_walk inTree placeFirst with ⟨below, walk⟩
  have short := consistent.length_walk_lt inTree (fun _ _ => .refl _) walk
  have loop := walk.preorderFrom_eq (grove.entries.size - below.length) []
  rw [List.append_nil, preorderFrom_nil, List.append_nil, Nat.add_sub_cancel' (Nat.le_of_lt short)] at loop
  rw [descendants, loop]
  exact walk

theorem Consistent.walk_preorder (inTree : grove.InTree root id) :
    grove.Walk placeFirst [id] (grove.preorder id) :=
  (consistent.walk_descendants inTree).singleton

theorem Consistent.walk_postorder (inTree : grove.InTree root id) :
    grove.Walk placeLast [id] (grove.postorder id) := by
  rcases consistent.exists_walk inTree placeLast with ⟨below, walk⟩
  have short := consistent.length_walk_lt inTree placeLast_perm walk
  have steps : 2 * grove.entries.size + 1 =
      2 * below.length + (2 * (grove.entries.size - below.length) + 1) := by
    omega
  have visited : grove.postorder id = placeLast id below := by
    rw [postorder, steps, walk.postorderFrom_eq, postorderFrom, postorderFrom_nil, placeLast]
  rw [visited]
  exact walk.singleton

theorem Consistent.resumeFrom_eq (inTree : grove.InTree root id) {bound : Nat}
    (enough : 2 * grove.entries.size < bound) :
    grove.resumeFrom bound [(grove.children id, 0)] = grove.descendants id := by
  have walk := consistent.walk_descendants inTree
  have short := consistent.length_walk_lt inTree (fun _ _ => .refl _) walk
  rcases walk.resumeFrom_eq List.drop_zero with ⟨cost, few, loop⟩
  have visited := loop (bound - cost) []
  rw [Nat.add_sub_cancel' (by omega), resumeFrom_nil, List.append_nil] at visited
  exact visited

theorem Consistent.returnFrom_eq (inTree : grove.InTree root id) {bound : Nat}
    (enough : 2 * grove.entries.size < bound) :
    grove.returnFrom bound [(id, grove.children id)] = grove.postorder id := by
  rcases consistent.exists_walk inTree placeLast with ⟨below, walk⟩
  have short := consistent.length_walk_lt inTree placeLast_perm walk
  rcases walk.returnFrom_eq with ⟨cost, few, loop⟩
  have visited := loop (bound - cost - 1 + 1) id []
  rw [returnFrom, returnFrom_nil, ← Nat.add_assoc, show cost + (bound - cost - 1) + 1 = bound by omega]
    at visited
  rw [visited]
  exact walk.singleton.unique (consistent.walk_postorder inTree)

/-! ## Recursion -/

theorem Consistent.descendants_eq (inTree : grove.InTree root id) :
    grove.descendants id = (grove.children id).flatMap grove.preorder := by
  apply (consistent.walk_descendants inTree).unique
  apply Walk.flatMap
  intro child listed
  exact consistent.walk_preorder (consistent.inTree_of_lists inTree listed)

theorem Consistent.postorder_eq (inTree : grove.InTree root id) :
    grove.postorder id = (grove.children id).flatMap grove.postorder ++ [id] := by
  apply (consistent.walk_postorder inTree).unique
  apply Walk.singleton
  apply Walk.flatMap
  intro child listed
  exact consistent.walk_postorder (consistent.inTree_of_lists inTree listed)

theorem Consistent.postorder_perm (inTree : grove.InTree root id) :
    (grove.postorder id).Perm (grove.preorder id) :=
  (consistent.walk_postorder inTree).perm placeLast_perm (fun _ _ => .refl _)
    (consistent.walk_preorder inTree)

theorem Consistent.mem_preorder_iff (inTree : grove.InTree root id) :
    other ∈ grove.preorder id ↔ ReflTransGen grove.Lists id other := by
  rw [(consistent.walk_preorder inTree).mem_iff]
  simp

theorem Consistent.mem_descendants_iff (inTree : grove.InTree root id) :
    other ∈ grove.descendants id ↔ id ∈ grove.ancestors other := by
  rw [(consistent.walk_descendants inTree).mem_iff, consistent.mem_ancestors_iff inTree,
    TransGen.head'_iff]
  rfl

theorem Consistent.nodup_preorder (inTree : grove.InTree root id) : (grove.preorder id).Nodup :=
  consistent.nodup_walk (consistent.walk_preorder inTree) (by simpa using inTree)
    (List.pairwise_singleton _ _)

theorem Consistent.length_preorder_le (inTree : grove.InTree root id) :
    (grove.preorder id).length ≤ grove.entries.size :=
  consistent.length_walk_lt inTree (fun _ _ => .refl _) (consistent.walk_descendants inTree)

end

end XmlGrove.Grove
