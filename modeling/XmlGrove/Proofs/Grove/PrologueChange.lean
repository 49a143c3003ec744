import XmlGrove.Proofs.Grove.DocumentChange

/-!
# Changes of prologues

A prologue lists the nodes that it adopts, unless it finds out too late that no item could have
the index that a node is inserted at.
-/

namespace XmlGrove.Prologue

open Grove

variable {grove : Grove}

/-- A comment, or a processing instruction that is no declaration, which has no parent. -/
structure Placeable (grove : Grove) (node : NodeId) : Prop where
  leaf : (∃ content, grove.leaf? node = some (.comment content)) ∨
    ∃ target content, grove.leaf? node = some (.instruction target content) ∧ target ≠ Name.xml
  detached : grove.parentLink? node = none

theorem Placeable.isSome {node : NodeId} (placeable : Placeable grove node) :
    (grove.leaf? node).isSome = true := by
  rcases placeable.leaf with ⟨content, leaf⟩ | ⟨target, content, leaf, _⟩
  · exact Option.isSome_of_eq_some leaf
  · exact Option.isSome_of_eq_some leaf

theorem requirePlaceable_decides (grove : Grove) (node : NodeId) :
    Edit.Ensures (requirePlaceable node) grove
      (fun _ last => last = grove ∧ Placeable grove node)
      (fun last => last = grove ∧ ¬ Placeable grove node) := by
  have detached : ((∃ content, grove.leaf? node = some (.comment content)) ∨
      ∃ target content, grove.leaf? node = some (.instruction target content) ∧
        target ≠ Name.xml) →
      Edit.Ensures (if (grove.parentLink? node).isSome then throw .attached else pure ()) grove
        (fun _ last => last = grove ∧ Placeable grove node)
        (fun last => last = grove ∧ ¬ Placeable grove node) := by
    intro leaf
    apply Edit.ensures_ite
    · intro attached
      refine Edit.ensures_throw ⟨rfl, fun placeable => ?_⟩
      rw [placeable.detached] at attached
      cases attached
    · intro free
      exact Edit.ensures_pure ⟨rfl, leaf, Option.not_isSome_iff_eq_none.1 free⟩
  have refused : (∀ content, grove.leaf? node ≠ some (.comment content)) →
      (∀ target content, grove.leaf? node = some (.instruction target content) →
        target = Name.xml) → ¬ Placeable grove node := by
    rintro uncommented declares ⟨⟨content, leaf⟩ | ⟨target, content, leaf, other⟩, _⟩
    · exact uncommented content leaf
    · exact other (declares target content leaf)
  rw [requirePlaceable]
  apply Edit.Ensures.bind
  apply Edit.ensures_get
  cases leaf : grove.leaf? node with
  | none => exact Edit.Ensures.throw_bind ⟨rfl, refused (by simp [leaf]) (by simp [leaf])⟩
  | some content =>
      cases content with
      | text content | cdata content =>
          exact Edit.Ensures.throw_bind ⟨rfl, refused (by simp [leaf]) (by simp [leaf])⟩
      | comment content => exact detached (.inl ⟨content, leaf⟩)
      | instruction target content =>
          apply Edit.ensures_ite
          · intro declaration
            exact Edit.Ensures.throw_bind
              ⟨rfl, refused (by simp [leaf]) (by simp [leaf, declaration])⟩
          · intro other
            exact detached (.inr ⟨target, content, leaf, other⟩)

theorem requirePlaceable_ensures (node : NodeId) :
    Edit.Ensures (requirePlaceable node) grove
      (fun _ last => last = grove ∧ (grove.leaf? node).isSome = true ∧
        grove.parentLink? node = none)
      (fun last => last = grove) := by
  apply (requirePlaceable_decides grove node).mono
  · rintro _ last ⟨same, placeable⟩
    exact ⟨same, placeable.isSome, placeable.detached⟩
  · rintro last ⟨same, _⟩
    exact same

/-- A node that can be placed is adopted, and then no item could have the index. -/
def GivenUp (id : DocumentId) (index : Int) (node : NodeId) (grove : Grove) : Prop :=
  (requirePlaceable node).outcome grove = (.ok ⟨⟩, grove) ∧
    (grove.document? id).isSome = true ∧ ¬ (grove.prologue id).length < index ∧
      Sequence.isBeyondItems index = true

theorem offers_of_leaf? {node : NodeId} (leaf : (grove.leaf? node).isSome = true) :
    grove.Offers node ∧ grove.isTag node = false := by
  rcases Option.isSome_iff_exists.1 leaf with ⟨content, present⟩
  rw [leaf?_eq_shape?] at present
  split at present
  · rename_i shape
    refine ⟨⟨?_, ?_⟩, ?_⟩
    · rw [has_iff_shape?, shape]
      rfl
    · rw [isAnchor, anchored?_eq_shape?, shape]
      rfl
    · rw [isTag, tag?_eq_shape?, shape]
      rfl
  · cases present

theorem Placeable.has {node : NodeId} (placeable : Placeable grove node) :
    grove.Has node ∧ grove.isTag node = false :=
  ⟨(offers_of_leaf? placeable.isSome).1.1, (offers_of_leaf? placeable.isSome).2⟩

theorem orderly_append (id : DocumentId) (node : NodeId) (sound : grove.Sound) :
    (append id node).Orderly grove := by
  rw [append]
  apply Edit.Orderly.bind_looking
  apply (requirePlaceable_ensures node).mono
  · rintro _ _ ⟨rfl, leaf, _⟩
    refine ⟨rfl, ?_⟩
    apply Edit.Orderly.bind_looking
    apply (requireDocument_ensures id).mono
    · rintro document _ ⟨rfl, _⟩
      refine ⟨rfl, ?_⟩
      apply Edit.Orderly.bind_looking
      apply Edit.ensures_get
      refine ⟨rfl, ?_⟩
      apply Edit.Orderly.bind
      apply (orderly_attach_node (Placement.isFair_atIndex _) document.anchor node sound
        (offers_of_leaf? leaf).1).mono
      · intro _ last changed
        exact ⟨changed, Edit.orderly_pure _⟩
      · intro last changed
        exact changed
    · intro last same
      exact same
  · intro last same
    exact same

theorem insert_ensures (id : DocumentId) (index : Int) (node : NodeId) (sound : grove.Sound)
    (anchored : grove.Anchored) :
    Edit.Ensures (insert id index node) grove
      (fun _ last => Changed True (GivenUp id index node grove) grove last)
      (Changed True (GivenUp id index node grove) grove) := by
  rw [insert]
  apply Edit.Ensures.bind
  apply (requirePlaceable_ensures node).with_outcome.mono
  · rintro _ _ ⟨⟨rfl, leaf, free⟩, placeable⟩
    rcases offers_of_leaf? leaf with ⟨offered, leafy⟩
    apply Edit.Ensures.bind
    apply (requireDocument_ensures id).mono
    · rintro document _ ⟨rfl, found⟩
      apply Edit.Ensures.bind
      apply Edit.ensures_get
      apply Edit.ensures_ite
      · intro outside
        exact Edit.Ensures.throw_bind Changed.none
      · intro inside
        apply Edit.ensures_ite
        · intro beyond
          -- The node is linked to the anchor before the list refuses the index.
          apply Edit.Ensures.bind
          rw [Edit.Ensures, outcome_adopt_node free (by rw [leafy, Bool.false_and])]
          apply Edit.Ensures.throw_bind
          have bears :=
            bears_of_isSome_childList? (childList?_of_anchored? (anchored id document found))
          refine ⟨Moves.none.link offered.1 free bears ?_, ?_⟩
          · intro _
            apply acyclic_found sound offered.1 offered.2 free bears
            intro tag
            rw [leafy] at tag
            cases tag
          · intro kept
            exact absurd
              ⟨placeable, Option.isSome_iff_exists.2 ⟨document, found⟩, inside, beyond⟩ kept
        · intro within
          apply Edit.Ensures.bind
          apply (orderly_attach_node (Placement.isFair_atIndex index) document.anchor node sound
            offered).mono
          · intro _ last changed
            apply Edit.ensures_pure
            exact changed.mono (fun _ => trivial) False.elim
          · intro last changed
            exact changed.mono (fun _ => trivial) False.elim
    · rintro _ rfl
      exact Changed.none
  · rintro _ ⟨rfl, _⟩
    exact Changed.none

theorem loose_of_givenUp {id : DocumentId} {index : Int} {node : NodeId} (sound : grove.Sound)
    (anchored : grove.Anchored) (given : GivenUp id index node grove) :
    ∃ child parent, ((insert id index node).after grove).Loose child parent := by
  rcases given with ⟨placeable, present, inside, beyond⟩
  rcases Option.isSome_iff_exists.1 present with ⟨document, found⟩
  rcases (requirePlaceable_ensures node).of_ok placeable with ⟨_, leaf, free⟩
  rcases offers_of_leaf? leaf with ⟨offered, leafy⟩
  rcases Option.isSome_iff_exists.1 (childList?_of_anchored? (anchored id document found)) with
    ⟨children, listed⟩
  have after : (insert id index node).after grove =
      grove.setParent node (some document.anchor) := by
    rw [insert, Edit.after_bind_of_ok placeable, Edit.after_bind_of_ok
      (outcome_requireDocument found),
      Edit.after_bind_of_ok (Edit.outcome_get grove)]
    simp only [if_neg inside, if_pos beyond]
    rw [Edit.after_bind_of_ok (outcome_adopt_node free (by rw [leafy, Bool.false_and]))]
    rfl
  refine ⟨node, document.anchor, ?_⟩
  rw [after]
  refine ⟨?_, ?_, ?_⟩
  · rw [parentLink?_setParent_of_has offered.1, if_pos rfl]
  · rw [children_setParent]
    exact sound.not_listed free
  · rw [isUnfinished_of_shape? shape?_setParent]
    exact isUnfinished_of_childList? listed

theorem not_givenUp_prepend {id : DocumentId} {node : NodeId} : ¬ GivenUp id 0 node grove := by
  rintro ⟨_, _, _, beyond⟩
  cases beyond

theorem index_looks (id : DocumentId) (node : NodeId) :
    Edit.Ensures (index id node) grove (fun _ last => last = grove) (fun last => last = grove) := by
  rw [index]
  apply Edit.Ensures.bind
  apply Edit.ensures_get
  apply Edit.ensures_ite
  · intro contained
    split
    · exact Edit.ensures_pure rfl
    · exact Edit.ensures_throw rfl
  · intro missing
    exact Edit.Ensures.throw_bind rfl

theorem orderly_remove (id : DocumentId) (node : NodeId) (sound : grove.Sound) :
    (remove id node).Orderly grove := by
  rw [remove]
  apply Edit.Orderly.bind_looking
  apply (index_looks id node).mono
  · rintro _ _ rfl
    refine ⟨rfl, ?_⟩
    apply Edit.Orderly.bind_looking
    apply (requireDocument_ensures id).mono
    · rintro document _ ⟨rfl, _⟩
      exact ⟨rfl, orderly_removeSibling document.anchor node sound⟩
    · intro last same
      exact same
  · intro last same
    exact same

theorem orderly_clear (id : DocumentId) (sound : grove.Sound) : (clear id).Orderly grove := by
  rw [clear]
  apply Edit.Orderly.bind_looking
  apply (requireDocument_ensures id).mono
  · rintro document _ ⟨rfl, _⟩
    refine ⟨rfl, ?_⟩
    apply Edit.Orderly.bind_looking
    apply Edit.ensures_get
    exact ⟨rfl, orderly_forM_removeSibling document.anchor _ sound⟩
  · intro last same
    exact same

end XmlGrove.Prologue
