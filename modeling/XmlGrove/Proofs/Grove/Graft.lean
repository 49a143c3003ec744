import XmlGrove.Proofs.Grove.Outcome
import XmlGrove.Proofs.Grove.Ownership

/-!
# Grafting new nodes

The construction of new nodes adds them to a grove, and it gives those existing nodes that are
to be below them a parent among them. Nothing else about the existing nodes changes.
-/

namespace XmlGrove.Grove

/-- A part of a construction. Links lead to nodes that are at least as new as a base, from held
nodes that are older than it, or else from newer nodes. -/
inductive Grafted (base : Nat) (held : List NodeId) (start : Grove) : Grove → Prop
  | none : Grafted base held start start
  | add {grove : Grove} {node : Node} (grafted : Grafted base held start grove)
      (barren : node.IsBarren) (plain : node.isAnchor = false) :
      Grafted base held start (grove.add ⟨node, none⟩)
  | link {grove : Grove} {child parent : NodeId} (grafted : Grafted base held start grove)
      (has : grove.Has child) (free : grove.parentLink? child = none)
      (bears : grove.Bears parent) (recent : base ≤ parent.index)
      (older : child.index < base → child ∈ held)
      (newer : base ≤ child.index → parent.index < child.index) :
      Grafted base held start (grove.setParent child (some parent))
  | fill {grove changed : Grove} {parent : NodeId} {children : List NodeId}
      (grafted : Grafted base held start grove) (added : ¬ start.Has parent)
      (relisted : Relisted grove changed parent children)
      (plain : changed.isAnchor parent = false)
      (linked : ∀ child ∈ children, grove.parentLink? child = some parent)
      (distinct : children.Nodup) : Grafted base held start changed

namespace Grafted

variable {base : Nat} {held : List NodeId} {start middle last : Grove} {id child parent : NodeId}

/-! ## What a construction leaves as it was -/

theorem size_le (grafted : Grafted base held start last) :
    start.entries.size ≤ last.entries.size := by
  induction grafted with
  | none => exact Nat.le_refl _
  | add grafted barren plain induction =>
      rw [size_add]
      omega
  | link grafted has free bears recent older newer induction =>
      rw [setParent, size_modifyEntry]
      exact induction
  | fill grafted added relisted plain linked distinct induction =>
      rw [relisted.size]
      exact induction

theorem has (grafted : Grafted base held start last) (present : start.Has id) : last.Has id :=
  Nat.lt_of_lt_of_le present grafted.size_le

theorem documents (grafted : Grafted base held start last) :
    last.documents = start.documents := by
  induction grafted with
  | none => rfl
  | add grafted barren plain induction => exact induction
  | link grafted has free bears recent older newer induction => exact induction
  | fill grafted added relisted plain linked distinct induction =>
      rw [relisted.documents]
      exact induction

theorem node? (grafted : Grafted base held start last) (present : start.Has id) :
    last.node? id = start.node? id := by
  induction grafted with
  | none => rfl
  | add grafted barren plain induction =>
      rw [node?_add_of_has (grafted.has present)]
      exact induction
  | link grafted has free bears recent older newer induction =>
      rw [node?_setParent]
      exact induction
  | fill grafted added relisted plain linked distinct induction =>
      rw [relisted.other]
      · exact induction
      · rintro rfl
        exact added present

theorem bears (grafted : Grafted base held start last) (bearing : start.Bears id) :
    last.Bears id :=
  (bears_of_shape? (shape?_of_node? (grafted.node? bearing.1))).2 bearing

theorem link_of_link (grafted : Grafted base held start last)
    (linked : start.parentLink? child = some parent) :
    last.parentLink? child = some parent := by
  induction grafted with
  | none => exact linked
  | add grafted barren plain induction =>
      rw [parentLink?_add_free]
      exact induction
  | link grafted has free bears recent older newer induction =>
      rw [parentLink?_setParent_of_has has, if_neg]
      · exact induction
      · rintro rfl
        rw [free] at induction
        cases induction
  | fill grafted added relisted plain linked distinct induction =>
      rw [relisted.link]
      exact induction

theorem isSome_link (grafted : Grafted base held start last)
    (linked : (start.parentLink? child).isSome = true) :
    (last.parentLink? child).isSome = true := by
  rcases Option.isSome_iff_exists.1 linked with ⟨owner, present⟩
  rw [grafted.link_of_link present]
  rfl

/-! ## What a construction adds -/

theorem isAnchor_of_added (grafted : Grafted base held start last) (added : ¬ start.Has id) :
    last.isAnchor id = false := by
  induction grafted with
  | none =>
      rw [isAnchor_eq_any, node?_of_not_has added]
      rfl
  | add grafted barren plain induction =>
      rw [isAnchor_eq_any, node?_add]
      split
      · exact plain
      · rw [← isAnchor_eq_any]
        exact induction
  | link grafted has free bears recent older newer induction =>
      rw [isAnchor_of_shape? shape?_setParent]
      exact induction
  | @fill grove changed parent children grafted added' relisted plain linked distinct induction =>
      by_cases equal : id = parent
      · rw [equal]
        exact plain
      · rw [isAnchor_of_shape? (shape?_of_node? (relisted.other id equal))]
        exact induction

theorem sound (grafted : Grafted base held start last) (sound : start.Sound) : last.Sound := by
  induction grafted with
  | none => exact sound
  | add grafted barren plain induction => exact induction.add _ barren
  | link grafted has free bears recent older newer induction => exact induction.link has free bears
  | fill grafted added relisted plain linked distinct induction =>
      exact relisted.sound induction linked distinct

/-- Links that a construction adds are like the construction says. -/
theorem link_cases (grafted : Grafted base held start last)
    (linked : last.parentLink? child = some parent) :
    start.parentLink? child = some parent ∨
      start.parentLink? child = .none ∧ base ≤ parent.index ∧
        (child.index < base → child ∈ held) ∧
        (base ≤ child.index → parent.index < child.index) := by
  induction grafted with
  | none => exact .inl linked
  | add grafted barren plain induction =>
      rw [parentLink?_add_free] at linked
      exact induction linked
  | @link grove other owner grafted has free bears recent older newer induction =>
      rw [parentLink?_setParent_of_has has] at linked
      split at linked
      · rename_i equal
        cases linked
        right
        rw [equal]
        refine ⟨?_, recent, older, newer⟩
        cases before : start.parentLink? other with
        | none => rfl
        | some former =>
            rw [grafted.link_of_link before] at free
            cases free
      · exact induction linked
  | fill grafted added relisted plain linked' distinct induction =>
      rw [relisted.link] at linked
      exact induction linked

theorem link_of_index_lt (grafted : Grafted base held start last)
    (linked : last.parentLink? child = some parent) (older : parent.index < base) :
    start.parentLink? child = some parent := by
  rcases grafted.link_cases linked with kept | ⟨_, recent, _⟩
  · exact kept
  · omega

/-! ## Constructions one after the other -/

theorem trans (former : Grafted base held start middle) (latter : Grafted base held middle last) :
    Grafted base held start last := by
  induction latter with
  | none => exact former
  | add grafted barren plain induction => exact induction.add barren plain
  | link grafted has free bears recent older newer induction =>
      exact induction.link has free bears recent older newer
  | fill grafted added relisted plain linked distinct induction =>
      exact induction.fill (fun present => added (former.has present)) relisted plain linked
        distinct

/-- A construction is also one from an earlier base if it holds only nodes that are older. -/
theorem rebase {recent : Nat} {part : List NodeId} (grafted : Grafted recent part start last)
    (earlier : base ≤ recent) (subset : ∀ id ∈ part, id ∈ held)
    (older : ∀ id ∈ part, id.index < base) : Grafted base held start last := by
  induction grafted with
  | none => exact .none
  | add grafted barren plain induction => exact induction.add barren plain
  | @link grove child parent grafted has free bears recent' older' newer induction =>
      apply induction.link has free bears (Nat.le_trans earlier recent')
      · intro before
        exact subset child (older' (by omega))
      · intro behind
        apply newer
        apply Nat.le_of_not_lt
        intro before
        have := older child (older' before)
        omega
  | fill grafted added relisted plain linked distinct induction =>
      exact induction.fill added relisted plain linked distinct

end Grafted

end XmlGrove.Grove
