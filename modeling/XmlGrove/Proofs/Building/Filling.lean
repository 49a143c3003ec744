import XmlGrove.Proofs.Document.Growth
import XmlGrove.Proofs.Failure.Shown

/-!
# Tags that are filled

A tag is filled with new nodes, one after the other. One of them may be a tag that is filled
itself before the next one follows.
-/

namespace XmlGrove

namespace Grove

variable {grove before middle after : Grove} {id child parent : NodeId} {node : Node}
  {name : Name} {attributes : Attributes} {children : List NodeId} {trees more : List Tree}

/-! ## Filling -/

/-- New nodes that show several trees became the last children of a node, and everything else is
as it was. -/
structure Filled (before : Grove) (parent : NodeId) (trees : List Tree) (after : Grove) :
    Prop where
  grown : Grown (fun id => id = parent) before after
  own : ∃ ids, after.children parent = before.children parent ++ ids ∧
    after.ShowsAll after.entries.size before.entries.size ids trees

/-- A new node became the last child of a node, and everything else is as it was. -/
structure Gained (before : Grove) (parent child : NodeId) (node : Node) (after : Grove) :
    Prop where
  grown : Grown (fun id => id = parent) before after
  recent : ¬ before.Has child
  own : after.children parent = before.children parent ++ [child]
  node? : after.node? child = some node

theorem Gained.has (gained : Gained before parent child node after) : after.Has child :=
  has_of_node? gained.node?

theorem filled_nil (grove : Grove) (parent : NodeId) : Filled grove parent [] grove where
  grown := .refl grove
  own := ⟨[], (List.append_nil _).symm, .nil⟩

/-- What was appended earlier stays as it is when more is appended. -/
theorem Filled.append (former : Filled before parent trees middle)
    (latter : Filled middle parent more after) (has : before.Has parent) :
    Filled before parent (trees ++ more) after where
  grown := former.grown.trans latter.grown
  own := by
    rcases former.own with ⟨ids, own, shown⟩
    rcases latter.own with ⟨others, further, follow⟩
    refine ⟨ids ++ others, ?_, ?_⟩
    · rw [further, own, List.append_assoc]
    · apply ShowsAll.append
      · apply shown.transfer (Nat.le_refl _) latter.grown.size
        intro id recent present
        apply latter.grown.node? present
        rintro rfl
        exact Nat.not_lt.2 recent has
      · exact follow.transfer former.grown.size (Nat.le_refl _) fun _ _ _ => rfl

theorem Gained.filled_leaf {content : Leaf}
    (gained : Gained before parent child (.leaf content) after) :
    Filled before parent [.leaf content] after where
  grown := gained.grown
  own := ⟨[child], gained.own,
    .cons (.leaf (Nat.le_of_not_lt gained.recent) gained.has gained.node?) .nil⟩

/-- A new tag shows what it is filled with. -/
theorem Gained.filled_tag (gained : Gained before parent child (.tag name attributes []) middle)
    (filled : Filled middle child trees after) (has : before.Has parent) :
    Filled before parent [.tag name attributes trees] after := by
  have different : parent ≠ child := by
    rintro rfl
    exact gained.recent has
  rcases filled.own with ⟨ids, own, shown⟩
  have inner : after.node? child = some (.tag name attributes ids) := by
    apply node?_of_tag gained.node? (filled.grown.shape gained.has)
    rw [own, children_of_node? gained.node?, List.nil_append]
  constructor
  · have wide : Grown (fun id => id = parent ∨ id = child) before after :=
      (gained.grown.mono fun _ => .inl).trans (filled.grown.mono fun _ => .inr)
    apply wide.convert
    rintro id present (same | rfl)
    · exact same
    · exact absurd present gained.recent
  · refine ⟨[child], ?_, ?_⟩
    · rw [filled.grown.children (gained.grown.has has) different, gained.own]
    · apply ShowsAll.cons _ .nil
      apply Shows.tag (Nat.le_of_not_lt gained.recent) (filled.grown.has gained.has) inner
      exact shown.transfer gained.has (Nat.le_refl _) fun _ _ _ => rfl

theorem Filled.view? (filled : Filled before parent trees after)
    (present : before.node? parent = some (.tag name attributes [])) :
    after.view? parent = some (.tag name attributes trees) := by
  rcases filled.own with ⟨ids, own, shown⟩
  have has : before.Has parent := has_of_node? present
  have inner : after.node? parent = some (.tag name attributes ids) := by
    apply node?_of_tag present (filled.grown.shape has)
    rw [own, children_of_node? present, List.nil_append]
  rw [Grove.view?, viewWithin, inner]
  dsimp only
  rw [shown.viewAllWithin (Nat.le_add_left _ _)]
  rfl

end Grove

/-! ## New nodes -/

open Grove

variable {grove : Grove} {parent : NodeId} {node : Node}

/-- A new node can be appended to any node that lists its children. -/
theorem appendChild_gains (barren : node.IsBarren) (plain : node.isAnchor = false)
    (sound : grove.Sound) (listed : (grove.childList? parent).isSome = true) :
    (appendChild parent (.node grove.nextId)).Yields (grove.add ⟨node, none⟩)
      fun _ last => Gained grove parent grove.nextId node last := by
  have enlarged : Enlarged grove (grove.add ⟨node, none⟩) := enlarged_add barren plain
  rcases Option.isSome_iff_exists.1 listed with ⟨present, known⟩
  have has : grove.Has parent := has_of_childList? known
  have free : (grove.add ⟨node, none⟩).parentLink? grove.nextId = none := by
    rw [parentLink?_add_free]
    exact parentLink?_of_not_has not_has_nextId
  have shown : (grove.add ⟨node, none⟩).childList? parent = some present := by
    rw [childList?_eq_of_node? (node?_add_of_has has), known]
  -- All that is above the parent was there before, unlike the new node.
  have apart : (grove.add ⟨node, none⟩).isAtOrAbove grove.nextId parent = false := by
    have links : (grove.add ⟨node, none⟩).Link = grove.Link := by
      funext lower upper
      rw [Link, Link, parentLink?_add_free]
    rw [← Bool.not_eq_true]
    intro above
    have way := way_of_isAtOrAbove above
    rw [links] at way
    exact not_has_nextId (sound.has_of_way has way)
  rw [appendChild_eq_attach]
  apply (attach_node_yields (Option.isSome_of_eq_some shown) free apart).mono
  intro child last attached
  have same := attached.child_eq
  rw [same] at attached
  have siblings : (grove.add ⟨node, none⟩).children parent = grove.children parent :=
    children_add barren
  have recent : ∀ id ∈ (Source.node grove.nextId).nodes,
      (grove.add ⟨node, none⟩).Has id ∧ ¬ grove.Has id := by
    intro id member
    rw [Source.nodes, List.mem_singleton] at member
    rw [member]
    exact ⟨has_nextId_add, not_has_nextId⟩
  have grown : Grown (fun id => id = parent) grove (grove.add ⟨node, none⟩) := enlarged.grown
  refine ⟨?_, not_has_nextId, ?_, ?_⟩
  · exact attached.grown Placement.isFair_atEnd (enlarged.sound sound) grown rfl recent
  · rw [attached.own, siblings]
    rfl
  · rw [attached.eq_of_node.2, node?_setChildren, if_neg (ne_nextId_of_has has).symm,
      node?_setParent, node?_nextId_add]

end XmlGrove
