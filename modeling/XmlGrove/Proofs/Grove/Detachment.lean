import XmlGrove.Proofs.Grove.AttachEach

/-!
# Taking children out

Whatever takes children out of a parent does so at both ends.
-/

namespace XmlGrove

open Grove

variable {grove last : Grove} {id child parent : NodeId}

/-! ## One child -/

namespace Grove

theorem parentLink?_unlink :
    (grove.setParent child none).parentLink? id =
      if id = child then none else grove.parentLink? id := by
  rw [parentLink?_setParent]
  by_cases equal : id = child
  · rw [if_pos equal]
    split
    · rfl
    · rename_i missing
      exact parentLink?_of_not_has fun has => missing ⟨equal, has⟩
  · rw [if_neg equal, if_neg fun both => equal both.1]

theorem erase_eq_filter {siblings : List NodeId} (distinct : siblings.Nodup) :
    siblings.erase child = siblings.filter (· ∉ [child]) := by
  rw [distinct.erase_eq_filter]
  apply List.filter_congr
  intro other _
  by_cases equal : other = child
  · simp [equal]
  · simp [equal]

theorem pruned_eraseIdx {siblings : List NodeId} {position : Nat}
    (listed : grove.childList? parent = some siblings)
    (found : siblings.idxOf? child = some position) (distinct : siblings.Nodup) :
    Pruned grove ((grove.setChildren parent (siblings.eraseIdx position)).setParent child none)
      parent [child] where
  shape id := by rw [shape?_setParent, shape?_setChildren]
  documents := rfl
  link id := by
    rw [parentLink?_unlink, parentLink?_setChildren]
    simp only [List.mem_singleton]
  subset id member := by
    rw [List.mem_singleton] at member
    rw [member, children_of_childList? listed]
    exact List.isSome_idxOf?.1 (by rw [found]; rfl)
  own := by
    rw [children_setParent, children_setChildren_self listed, children_of_childList? listed]
    have erased : siblings.erase child = siblings.eraseIdx position := by
      rw [List.erase_eq_eraseIdx, found]
    rw [← erased, erase_eq_filter distinct]
  other id different := by rw [children_setParent, children_setChildren_of_ne _ different]

end Grove

theorem removeSibling_ensures (parent child : NodeId) (sound : grove.Sound) :
    Edit.Ensures (removeSibling parent child) grove
      (fun _ last => Pruned grove last parent [child]) (fun last => last = grove) := by
  rw [removeSibling]
  apply Edit.Ensures.bind
  apply (requireChildren_ensures parent grove).mono
  · rintro siblings _ ⟨rfl, listed⟩
    split
    · exact Edit.ensures_throw rfl
    · rename_i position found
      apply Edit.ensures_modify
      apply pruned_eraseIdx listed found
      rw [← children_of_childList? listed]
      exact sound.nodup parent
  · intro last same
    exact same

theorem removeSibling_yields (sound : grove.Sound) (member : child ∈ grove.children parent) :
    Edit.Yields (removeSibling parent child) grove
      (fun _ last => Pruned grove last parent [child]) := by
  rw [removeSibling]
  apply Edit.Ensures.bind
  apply (requireChildren_tells parent grove).mono
  · rintro siblings _ ⟨rfl, listed⟩
    rw [children_of_childList? listed] at member
    split
    · rename_i missing
      exact absurd member (List.idxOf?_eq_none_iff.1 missing)
    · rename_i position found
      apply Edit.ensures_modify
      apply pruned_eraseIdx listed found
      rw [← children_of_childList? listed]
      exact sound.nodup parent
  · rintro _ ⟨rfl, unlisted⟩
    rw [Grove.children, unlisted] at member
    cases member

theorem forM_removeSibling_yields (children : List NodeId) (distinct : children.Nodup)
    (sound : grove.Sound) (listed : ∀ child ∈ children, child ∈ grove.children parent) :
    Edit.Yields (children.forM (removeSibling parent)) grove
      (fun _ last => Pruned grove last parent children) := by
  induction children generalizing grove with
  | nil => exact Edit.ensures_pure (.refl grove parent)
  | cons first rest induction =>
      rcases List.nodup_cons.1 distinct with ⟨single, others⟩
      apply Edit.Ensures.bind
      apply (removeSibling_yields sound (listed first List.mem_cons_self)).mono
      intro _ middle pruned
      have remaining : ∀ child ∈ rest, child ∈ middle.children parent := by
        intro child member
        apply (pruned.mem_children sound).2
        refine ⟨listed child (List.mem_cons_of_mem _ member), ?_⟩
        rw [List.mem_singleton]
        rintro rfl
        exact single member
      apply (induction others (pruned.sound sound) remaining).mono
      intro _ last further
      exact pruned.trans further

theorem Pruned.changed {removed : List NodeId} (pruned : Pruned grove last parent removed)
    (sound : grove.Sound) : Changed True False grove last :=
  ⟨Moves.none.prune pruned, fun _ => pruned.tight sound⟩

theorem orderly_removeSibling (parent child : NodeId) (sound : grove.Sound) :
    (removeSibling parent child).Orderly grove := by
  apply (removeSibling_ensures parent child sound).mono
  · intro _ last pruned
    exact Pruned.changed pruned sound
  · rintro _ rfl
    exact Changed.none

theorem orderly_detach (id : NodeId) (sound : grove.Sound) : (detach id).Orderly grove := by
  rw [detach]
  apply Edit.Orderly.bind_looking
  apply Edit.ensures_get
  refine ⟨rfl, ?_⟩
  split
  · exact Edit.orderly_pure _
  · rename_i parent linked
    apply Edit.ensures_ite
    · intro rooted
      exact Edit.Ensures.throw_bind Changed.none
    · intro _
      exact orderly_removeSibling parent id sound

theorem orderly_removeChild? (parent child : NodeId) (sound : grove.Sound) :
    (removeChild? parent child).Orderly grove := by
  rw [removeChild?]
  apply Edit.Orderly.bind_looking
  apply Edit.ensures_get
  refine ⟨rfl, ?_⟩
  apply Edit.ensures_ite
  · intro linked
    apply Edit.Orderly.bind
    apply (orderly_removeSibling parent child sound).mono
    · intro _ last changed
      exact ⟨changed, Edit.orderly_pure _⟩
    · intro last changed
      exact changed
  · intro _
    exact Edit.orderly_pure _

theorem orderly_removeChildAt? (parent : NodeId) (index : Int) (sound : grove.Sound) :
    (removeChildAt? parent index).Orderly grove := by
  rw [removeChildAt?]
  apply Edit.Orderly.bind_looking
  apply (requireChildren_ensures parent grove).mono
  · rintro children _ ⟨rfl, listed⟩
    refine ⟨rfl, ?_⟩
    split
    · exact Edit.orderly_pure _
    · rename_i child found
      apply Edit.Orderly.bind
      apply (orderly_removeSibling parent child sound).mono
      · intro _ last changed
        exact ⟨changed, Edit.orderly_pure _⟩
      · intro last changed
        exact changed
  · intro last same
    exact same

theorem orderly_deleteChild (parent : NodeId) (index : Int) (sound : grove.Sound) :
    (deleteChild parent index).Orderly grove := by
  rw [deleteChild]
  apply Edit.Orderly.bind_looking
  apply (requireChildren_ensures parent grove).mono
  · rintro children _ ⟨rfl, listed⟩
    refine ⟨rfl, ?_⟩
    split
    · exact Edit.orderly_throw _
    · exact orderly_detach _ sound
  · intro last same
    exact same

/-! ## Several children -/

theorem orderly_forM_removeSibling (parent : NodeId) (children : List NodeId)
    (sound : grove.Sound) : (children.forM (removeSibling parent)).Orderly grove := by
  induction children generalizing grove with
  | nil => exact Edit.orderly_pure _
  | cons first rest induction =>
      change (removeSibling parent first >>= fun _ =>
        rest.forM (removeSibling parent)).Orderly grove
      apply Edit.Orderly.bind
      apply (orderly_removeSibling parent first sound).mono
      · intro _ middle changed
        exact ⟨changed, induction (changed.moves.sound sound)⟩
      · intro last changed
        exact changed

namespace Grove

/-- The grove in which several nodes have no parent. -/
def unlinkAll (grove : Grove) (children : List NodeId) : Grove :=
  children.foldl (fun grove child => grove.setParent child none) grove

theorem parentLink?_unlinkAll (children : List NodeId) :
    (grove.unlinkAll children).parentLink? id =
      if id ∈ children then none else grove.parentLink? id := by
  induction children generalizing grove with
  | nil => rfl
  | cons first rest induction =>
      change ((grove.setParent first none).unlinkAll rest).parentLink? id = _
      rw [induction, parentLink?_unlink]
      by_cases member : id ∈ rest
      · rw [if_pos member, if_pos (List.mem_cons_of_mem _ member)]
      · rw [if_neg member]
        simp [member]

theorem node?_unlinkAll (children : List NodeId) :
    (grove.unlinkAll children).node? id = grove.node? id := by
  induction children generalizing grove with
  | nil => rfl
  | cons first rest induction =>
      change ((grove.setParent first none).unlinkAll rest).node? id = _
      rw [induction, node?_setParent]

theorem documents_unlinkAll (children : List NodeId) :
    (grove.unlinkAll children).documents = grove.documents := by
  induction children generalizing grove with
  | nil => rfl
  | cons first rest induction =>
      change ((grove.setParent first none).unlinkAll rest).documents = _
      rw [induction]
      rfl

theorem pruned_clear {children : List NodeId} (listed : grove.childList? parent = some children) :
    Pruned grove ((grove.unlinkAll children).setChildren parent []) parent children where
  shape id := by
    rw [shape?_setChildren]
    exact shape?_of_node? (node?_unlinkAll children)
  documents := documents_unlinkAll children
  link id := by rw [parentLink?_setChildren, parentLink?_unlinkAll]
  subset id member := by
    rw [children_of_childList? listed]
    exact member
  own := by
    have present : (grove.unlinkAll children).childList? parent = some children := by
      rw [childList?_eq_of_node? (node?_unlinkAll children), listed]
    rw [children_setChildren_self present, children_of_childList? listed, eq_comm,
      List.filter_eq_nil_iff]
    intro id member
    simpa using member
  other id different := by
    rw [children_setChildren_of_ne _ different]
    exact children_eq_of_node? (node?_unlinkAll children)

end Grove

theorem orderly_clearChildren (id : NodeId) (sound : grove.Sound) :
    (clearChildren id).Orderly grove := by
  rw [clearChildren]
  apply Edit.Orderly.bind_looking
  apply (requireChildren_ensures id grove).mono
  · rintro children _ ⟨rfl, listed⟩
    refine ⟨rfl, ?_⟩
    apply Edit.ensures_modify
    exact Pruned.changed (pruned_clear listed) sound
  · intro last same
    exact same

theorem orderly_setTextContent (id : NodeId) (content : Option String) (sound : grove.Sound) :
    (setTextContent id content).Orderly grove := by
  rw [setTextContent.eq_def]
  apply Edit.Orderly.bind_looking
  apply (requireChildren_ensures id grove).mono
  · rintro children _ ⟨rfl, listed⟩
    refine ⟨rfl, ?_⟩
    apply Edit.Orderly.bind_looking
    apply Edit.ensures_get
    refine ⟨rfl, ?_⟩
    apply Edit.Orderly.bind
    apply (orderly_forM_removeSibling id _ sound).mono
    · intro _ middle changed
      refine ⟨changed, ?_⟩
      cases content with
      | none => exact Edit.orderly_pure _
      | some text =>
          have sound := changed.moves.sound sound
          apply Edit.Orderly.bind
          rw [insertChild_eq_attach]
          have usable : ∀ id ∈ (Source.text text).nodes, middle.Offers id := by
            intro id member
            cases member
          apply (attach_ensures _ id (.text text) sound fun id member => (usable id member).1).mono
          · intro child last attached
            refine ⟨?_, Edit.orderly_pure _⟩
            apply (attached.changed (Placement.isFair_atIndex 0) sound usable).mono
            · rintro _ ⟨definition, equal, _⟩
              cases equal
            · intro loose
              exact loose
          · intro last abandoned
            exact abandoned.changed
    · intro last changed
      exact changed
  · intro last same
    exact same

end XmlGrove
