import XmlGrove.Proofs.Grove.Operation
import XmlGrove.Proofs.Grove.View

/-!
# Reserves

A reserve is a part of a grove that nothing is done to. Operations on other nodes and documents
leave it as it is, whatever nodes they are handed, since a node that is attached elsewhere gets
another parent and nothing else. They also leave all leaves writable.
-/

namespace XmlGrove

namespace Node

variable {node : Node} {content : Leaf}

theorem withChildren_eq_leaf_iff {children : List NodeId} :
    node.withChildren children = .leaf content ↔ node = .leaf content := by
  cases node <;> simp [withChildren]

theorem withName_eq_leaf_iff {name : Name} :
    node.withName name = .leaf content ↔ node = .leaf content := by
  cases node <;> simp [withName]

theorem withAttributes_eq_leaf_iff {attributes : Attributes} :
    node.withAttributes attributes = .leaf content ↔ node = .leaf content := by
  cases node <;> simp [withAttributes]

end Node

namespace Grove

variable {start before after grove : Grove} {id child parent : NodeId}

/-- The content of each leaf can be written, as it is checked whenever it is set. -/
def Writable (grove : Grove) : Prop :=
  ∀ id content, grove.leaf? id = some content → content.isWritable = true

/-- Nodes and documents of a grove. What is below one of the nodes is among these, and so is the
document of an anchor. -/
structure Reserve (start : Grove) where
  nodes : NodeId → Prop
  documents : DocumentId → Prop
  has : ∀ {id}, nodes id → start.Has id
  below : ∀ {parent child}, nodes parent → start.Lists parent child → nodes child
  present : ∀ {id}, documents id → id.index < start.documents.size
  owner : ∀ {id document}, nodes id → start.anchored? id = some document → documents document

/-- Nothing. -/
def Reserve.nothing (start : Grove) : Reserve start where
  nodes _ := False
  documents _ := False
  has := False.elim
  below := False.elim
  present := False.elim
  owner := False.elim

/-- The nodes and documents of a reserve are as they were, apart from the nodes' parents. All
leaves are writable. -/
structure Reserve.Intact (reserve : Reserve start) (grove : Grove) : Prop where
  size : start.entries.size ≤ grove.entries.size
  count : start.documents.size ≤ grove.documents.size
  node? : ∀ id, reserve.nodes id → grove.node? id = start.node? id
  document? : ∀ id, reserve.documents id → grove.document? id = start.document? id
  writable : grove.Writable

namespace Reserve

variable {reserve : Reserve start}

theorem intact_start (reserve : Reserve start) (writable : start.Writable) :
    reserve.Intact start where
  size := Nat.le_refl _
  count := Nat.le_refl _
  node? _ _ := rfl
  document? _ _ := rfl
  writable := writable

theorem Intact.has (intact : reserve.Intact grove) (member : reserve.nodes id) : grove.Has id :=
  Nat.lt_of_lt_of_le (reserve.has member) intact.size

/-- New nodes do not belong to a reserve. -/
theorem Intact.not_nodes_nextId (intact : reserve.Intact grove) : ¬ reserve.nodes grove.nextId :=
  fun member => not_has_nextId (intact.has member)

theorem Intact.below (intact : reserve.Intact grove) (member : reserve.nodes parent)
    (listed : child ∈ grove.children parent) : reserve.nodes child := by
  rw [children_eq_of_node? (intact.node? parent member)] at listed
  exact reserve.below member listed

/-- The anchors of other documents do not belong to a reserve. -/
theorem Intact.not_nodes_anchor {document : DocumentId} {content : Document}
    (intact : reserve.Intact grove) (anchored : grove.Anchored)
    (found : grove.document? document = some content) (apart : ¬ reserve.documents document) :
    ¬ reserve.nodes content.anchor := by
  intro member
  have anchor := anchored document content found
  rw [anchored?, intact.node? _ member, ← anchored?] at anchor
  exact apart (reserve.owner member anchor)

/-! ## Changes -/

theorem Intact.change (intact : reserve.Intact before)
    (size : before.entries.size ≤ after.entries.size)
    (count : before.documents.size ≤ after.documents.size)
    (node? : ∀ id, reserve.nodes id → after.node? id = before.node? id)
    (document? : ∀ id, reserve.documents id → after.document? id = before.document? id)
    (writes : ∀ id content, after.leaf? id = some content →
      before.leaf? id = some content ∨ content.isWritable = true) : reserve.Intact after where
  size := Nat.le_trans intact.size size
  count := Nat.le_trans intact.count count
  node? id member := (node? id member).trans (intact.node? id member)
  document? id member := (document? id member).trans (intact.document? id member)
  writable id content present := by
    rcases writes id content present with former | writable
    · exact intact.writable id content former
    · exact writable

theorem Intact.add {entry : Entry} (intact : reserve.Intact grove)
    (writes : ∀ content, entry.node = .leaf content → content.isWritable = true) :
    reserve.Intact (grove.add entry) := by
  apply intact.change
  · rw [size_add]
    exact Nat.le_succ _
  · exact Nat.le_refl _
  · intro id member
    rw [node?_add, if_neg]
    rintro rfl
    exact intact.not_nodes_nextId member
  · intro id _
    rfl
  · intro id content present
    rw [leaf?, node?_add] at present
    split at present
    · rename_i leaf shown
      rw [← Option.some.inj present]
      split at shown
      · exact .inr (writes leaf (Option.some.inj shown))
      · exact .inl (by rw [leaf?, shown])
    · cases present

/-- A node that belongs to a reserve may only get another parent. -/
theorem Intact.modifyEntry {change : Entry → Entry} (intact : reserve.Intact grove)
    (kept : reserve.nodes id → ∀ entry, (change entry).node = entry.node)
    (writes : ∀ entry content, (change entry).node = .leaf content →
      entry.node = .leaf content ∨ content.isWritable = true) :
    reserve.Intact (grove.modifyEntry id change) := by
  have changed : ∀ other, (grove.modifyEntry id change).node? other =
      if other = id then (grove.entry? other).map fun entry => (change entry).node
      else grove.node? other := by
    intro other
    rw [Grove.node?, entry?_modifyEntry]
    split
    · rw [Option.map_map]
      rfl
    · rfl
  apply intact.change
  · exact Nat.le_of_eq (size_modifyEntry change).symm
  · exact Nat.le_refl _
  · intro other member
    rw [changed]
    split
    · rename_i equal
      rw [equal] at member
      rw [Grove.node?]
      congr 1
      funext entry
      exact kept member entry
    · rfl
  · intro other _
    rfl
  · intro other content present
    rw [leaf?, changed] at present
    split at present
    · rename_i leaf shown
      rw [← Option.some.inj present]
      split at shown
      · rcases Option.map_eq_some_iff.1 shown with ⟨entry, found, equal⟩
        rcases writes entry leaf equal with former | writable
        · exact .inl (by rw [leaf?, Grove.node?, found, Option.map_some, former])
        · exact .inr writable
      · exact .inl (by rw [leaf?, shown])
    · cases present

theorem Intact.setParent {link : Option NodeId} (intact : reserve.Intact grove) :
    reserve.Intact (grove.setParent id link) :=
  intact.modifyEntry (fun _ _ => rfl) fun _ _ => .inl

theorem Intact.setNode {node : Node} (intact : reserve.Intact grove) (apart : ¬ reserve.nodes id)
    (writes : ∀ content, node = .leaf content → content.isWritable = true) :
    reserve.Intact (grove.setNode id node) :=
  intact.modifyEntry (fun member => absurd member apart) fun _ content equal =>
    .inr (writes content equal)

theorem Intact.changeNode {change : Node → Node} (intact : reserve.Intact grove)
    (apart : ¬ reserve.nodes id)
    (leaf : ∀ node content, change node = .leaf content → node = .leaf content) :
    reserve.Intact (grove.modifyEntry id fun entry => { entry with node := change entry.node }) :=
  intact.modifyEntry (fun member => absurd member apart) fun entry content equal =>
    .inl (leaf entry.node content equal)

theorem Intact.setChildren {children : List NodeId} (intact : reserve.Intact grove)
    (apart : ¬ reserve.nodes id) : reserve.Intact (grove.setChildren id children) :=
  intact.changeNode apart fun _ _ => Node.withChildren_eq_leaf_iff.1

theorem Intact.setName {name : Name} (intact : reserve.Intact grove)
    (apart : ¬ reserve.nodes id) : reserve.Intact (grove.setName id name) :=
  intact.changeNode apart fun _ _ => Node.withName_eq_leaf_iff.1

theorem Intact.setAttributes {attributes : Attributes} (intact : reserve.Intact grove)
    (apart : ¬ reserve.nodes id) : reserve.Intact (grove.setAttributes id attributes) :=
  intact.changeNode apart fun _ _ => Node.withAttributes_eq_leaf_iff.1

theorem Intact.unlinkAll (intact : reserve.Intact grove) (children : List NodeId) :
    reserve.Intact (grove.unlinkAll children) := by
  induction children generalizing grove with
  | nil => exact intact
  | cons first rest induction => exact induction intact.setParent

theorem Intact.enter {document : Document} (intact : reserve.Intact grove) :
    reserve.Intact { grove with documents := grove.documents.push document } := by
  apply intact.change
  · exact Nat.le_refl _
  · rw [Array.size_push]
    exact Nat.le_succ _
  · intro id _
    rfl
  · intro id member
    have present := Nat.lt_of_lt_of_le (reserve.present member) intact.count
    rw [Grove.document?, Grove.document?, Array.getElem?_push_lt present,
      Array.getElem?_eq_getElem present]
  · intro id content present
    exact .inl present

theorem Intact.modifyDocument {document : DocumentId} {change : Document → Document}
    (intact : reserve.Intact grove) (apart : ¬ reserve.documents document) :
    reserve.Intact (grove.modifyDocument document change) := by
  apply intact.change
  · exact Nat.le_refl _
  · exact Nat.le_of_eq Array.size_modify.symm
  · intro id _
    rfl
  · intro id member
    rw [document?_modifyDocument, if_neg]
    rintro rfl
    exact apart member
  · intro id content present
    exact .inl present

end Reserve

end Grove

open Grove

variable {start grove : Grove} {reserve : Reserve start} {id child parent : NodeId}
  {source : Source}

/-! ## Operations -/

/-- An operation leaves a reserve as it is, whether it succeeds or not, and its result is as
told. -/
def Edit.Respects (operation : Edit α) (reserve : Reserve start) (grove : Grove)
    (result : α → Prop) : Prop :=
  operation.Ensures grove (fun value last => result value ∧ reserve.Intact last) reserve.Intact

namespace Edit

variable {result between : α → Prop} {final : β → Prop}

theorem respects_pure {value : α} (intact : reserve.Intact grove) (holds : result value) :
    Respects (pure value) reserve grove result := ⟨holds, intact⟩

theorem respects_throw {fault : Fault} (intact : reserve.Intact grove) :
    Respects (throw fault : Edit α) reserve grove result := intact

theorem Respects.bind {first : Edit α} {next : α → Edit β}
    (former : first.Respects reserve grove between)
    (latter : ∀ value middle, between value → reserve.Intact middle →
      (next value).Respects reserve middle final) :
    (first >>= next).Respects reserve grove final := by
  apply Ensures.bind
  apply Ensures.mono former
  · rintro value middle ⟨holds, intact⟩
    exact latter value middle holds intact
  · intro last intact
    exact intact

theorem Respects.bind_pure {first : Edit α} {transform : α → β}
    (former : first.Respects reserve grove between) :
    (first >>= fun value => pure (transform value)).Respects reserve grove fun _ => True :=
  former.bind fun _ _ _ intact => respects_pure intact trivial

theorem Respects.after {operation : Edit α} (respects : operation.Respects reserve grove result) :
    reserve.Intact (operation.after grove) := by
  have ensures : operation.Ensures grove (fun _ last => reserve.Intact last) reserve.Intact :=
    Ensures.mono respects (fun _ _ both => both.2) fun _ intact => intact
  exact ensures.after

theorem Respects.adapt {operation : Edit α} {translate : Fault → Fault}
    (respects : operation.Respects reserve grove result) :
    Respects (ExceptT.adapt translate operation) reserve grove result :=
  Ensures.adapt respects

/-- An operation that only looks at the grove, and another one after it. -/
theorem Respects.bind_looking {first : Edit α} {next : α → Edit β}
    (intact : reserve.Intact grove)
    (looks : Ensures first grove
      (fun value last => last = grove ∧ (next value).Respects reserve grove final)
      (fun last => last = grove)) : (first >>= next).Respects reserve grove final := by
  apply Ensures.bind
  apply looks.mono
  · rintro value _ ⟨rfl, latter⟩
    exact latter
  · rintro _ rfl
    exact intact

theorem respects_ofExcept {value : Except Fault α} (intact : reserve.Intact grove) :
    Respects (value : Edit α) reserve grove fun _ => True :=
  ensures_ofExcept (fun _ _ => ⟨trivial, intact⟩) intact

end Edit

theorem respects_create {node : Node} (intact : reserve.Intact grove)
    (writes : ∀ content, node = .leaf content → content.isWritable = true) :
    (create node).Respects reserve grove fun id => ¬ reserve.nodes id :=
  Edit.ensures_create ⟨intact.not_nodes_nextId, intact.add writes⟩

theorem respects_requireChildren (intact : reserve.Intact grove) :
    (requireChildren id).Respects reserve grove fun _ => True :=
  (requireChildren_ensures id grove).mono (by
    rintro children _ ⟨rfl, _⟩
    exact ⟨trivial, intact⟩) (by
    rintro _ rfl
    exact intact)

/-! ## Sources -/

theorem respects_adoptNode (intact : reserve.Intact grove) :
    (adoptNode parent id).Respects reserve grove fun _ => True := by
  rw [adoptNode]
  apply Edit.Ensures.bind
  apply Edit.ensures_get
  apply Edit.ensures_ite
  · intro _
    exact Edit.Ensures.throw_bind intact
  · intro _
    apply Edit.ensures_ite
    · intro _
      exact Edit.Ensures.throw_bind intact
    · intro _
      exact ⟨trivial, intact.setParent⟩

theorem respects_link {operation : Edit NodeId} {result : NodeId → Prop}
    (respects : operation.Respects reserve grove result) :
    (do
      let id ← operation
      modify (·.setParent id (some parent))
      return id : Edit NodeId).Respects reserve grove fun _ => True := by
  apply respects.bind
  intro id middle _ intact
  apply Edit.Ensures.bind
  apply Edit.ensures_modify
  exact Edit.respects_pure intact.setParent trivial

mutual

theorem respects_instantiate (definition : Template) (grove : Grove)
    (intact : reserve.Intact grove) :
    (instantiate definition).Respects reserve grove fun id => ¬ reserve.nodes id := by
  cases definition with
  | define givenName givenAttributes sources =>
      rw [instantiate]
      apply (Edit.respects_ofExcept intact).bind
      intro name middle _ intact
      apply (Edit.respects_ofExcept intact).bind
      intro attributes middle _ intact
      apply (respects_create intact (by
        intro content equal
        cases equal)).bind
      intro id middle apart intact
      apply (respects_adoptAll id sources middle intact).bind
      intro children middle _ intact
      apply Edit.Ensures.bind
      apply Edit.ensures_modify
      apply Edit.respects_pure _ apart
      apply intact.setNode apart
      intro content equal
      cases equal

theorem respects_adopt (parent : NodeId) (source : Source) (grove : Grove)
    (intact : reserve.Intact grove) :
    (adopt parent source).Respects reserve grove fun _ => True := by
  cases source with
  | text content =>
      rw [adopt]
      apply respects_link
      apply respects_create intact
      intro leaf equal
      cases equal
      rfl
  | node id =>
      rw [adopt]
      exact respects_adoptNode intact
  | template definition =>
      rw [adopt]
      exact respects_link (respects_instantiate definition grove intact)
  | unfit =>
      rw [adopt]
      exact Edit.respects_throw intact

theorem respects_adoptAll (parent : NodeId) (sources : List Source) (grove : Grove)
    (intact : reserve.Intact grove) :
    (adoptAll parent sources).Respects reserve grove fun _ => True := by
  cases sources with
  | nil =>
      rw [adoptAll]
      exact Edit.respects_pure intact trivial
  | cons first rest =>
      rw [adoptAll]
      apply (respects_adopt parent first grove intact).bind
      intro child middle _ intact
      exact (respects_adoptAll parent rest middle intact).bind_pure

end

theorem respects_createLeaf {content : Leaf} (intact : reserve.Intact grove) :
    (createLeaf content).Respects reserve grove fun id => ¬ reserve.nodes id := by
  rw [createLeaf]
  apply Edit.Ensures.bind
  refine Edit.ensures_ofExcept ?_ intact
  intro checked accepted
  rcases Leaf.checked_eq_ok_iff.1 accepted with ⟨rfl, writable⟩
  apply respects_create intact
  intro leaf equal
  cases equal
  exact writable

/-! ## Trees and clones -/

mutual

theorem respects_plantBelow (link : Option NodeId) (tree : Tree) (grove : Grove)
    (intact : reserve.Intact grove) (writable : tree.isWritable = true) :
    ¬ reserve.nodes ((plantBelow link tree).run grove).1 ∧
      reserve.Intact ((plantBelow link tree).run grove).2 := by
  cases tree with
  | leaf content =>
      rw [plantBelow]
      refine ⟨intact.not_nodes_nextId, intact.add ?_⟩
      intro leaf equal
      cases equal
      rw [Tree.isWritable] at writable
      exact writable
  | tag name attributes children =>
      rw [Tree.isWritable] at writable
      have added : reserve.Intact (grove.add ⟨.tag name attributes [], link⟩) := by
        apply intact.add
        intro leaf equal
        cases equal
      rw [plantBelow]
      exact ⟨intact.not_nodes_nextId,
        (respects_plantAllBelow grove.nextId children _ added writable).setChildren
          intact.not_nodes_nextId⟩

theorem respects_plantAllBelow (parent : NodeId) (trees : List Tree) (grove : Grove)
    (intact : reserve.Intact grove) (writable : Tree.areWritable trees = true) :
    reserve.Intact ((plantAllBelow parent trees).run grove).2 := by
  cases trees with
  | nil =>
      rw [plantAllBelow]
      exact intact
  | cons first rest =>
      rw [Tree.areWritable, Bool.and_eq_true] at writable
      rw [plantAllBelow]
      exact respects_plantAllBelow parent rest _
        (respects_plantBelow (some parent) first grove intact writable.1).2 writable.2

end

theorem respects_plant {tree : Tree} (intact : reserve.Intact grove)
    (writable : tree.isWritable = true) :
    (plant tree).Respects reserve grove fun id => ¬ reserve.nodes id :=
  respects_plantBelow none tree grove intact writable

theorem respects_construct {tree : Tree} (intact : reserve.Intact grove) :
    (construct tree).Respects reserve grove fun id => ¬ reserve.nodes id := by
  rw [construct]
  apply Edit.Ensures.bind
  refine Edit.ensures_ofExcept ?_ intact
  intro checked accepted
  rcases Tree.checked_eq_ok_iff.1 accepted with ⟨rfl, writable⟩
  exact respects_plant intact writable

theorem respects_cloneNode {deep : Bool} (intact : reserve.Intact grove) :
    (cloneNode deep id).Respects reserve grove fun clone => ¬ reserve.nodes clone := by
  rw [cloneNode]
  apply Edit.ensures_ite
  · intro _
    apply Edit.Respects.bind_looking intact
    apply (requireView_ensures id grove).mono
    · rintro tree _ rfl
      exact ⟨rfl, respects_construct intact⟩
    · intro last same
      exact same
  · intro _
    apply Edit.Ensures.bind
    apply Edit.ensures_get
    split
    · exact respects_construct intact
    · exact respects_construct intact
    · exact Edit.respects_throw intact

theorem respects_cloneNodes {ids : List NodeId} (intact : reserve.Intact grove) :
    (cloneNodes ids).Respects reserve grove fun _ => True := by
  induction ids generalizing grove with
  | nil => exact Edit.respects_pure intact trivial
  | cons first rest induction =>
      rw [cloneNodes]
      apply (respects_cloneNode intact).bind
      intro clone middle _ intact
      exact (induction intact).bind_pure

/-! ## Attaching and detaching -/

theorem respects_attach {placement : Placement} (intact : reserve.Intact grove)
    (apart : ¬ reserve.nodes parent) :
    (attach placement parent source).Respects reserve grove fun _ => True := by
  rw [attach]
  apply (respects_requireChildren intact).bind
  intro children middle _ intact
  apply (respects_adopt parent source middle intact).bind
  intro child middle _ intact
  apply Edit.Ensures.bind
  apply Edit.ensures_modify
  exact Edit.respects_pure (intact.setChildren apart) trivial

theorem respects_clonedSource {cloned : Bool} (intact : reserve.Intact grove) :
    (clonedSource cloned source).Respects reserve grove fun _ => True := by
  rw [clonedSource]
  apply Edit.ensures_ite
  · intro _
    cases source with
    | node id => exact (respects_cloneNode intact).bind_pure
    | text content => exact Edit.respects_pure intact trivial
    | template definition => exact Edit.respects_pure intact trivial
    | unfit => exact Edit.respects_pure intact trivial
  · intro _
    exact Edit.respects_pure intact trivial

theorem respects_attachEach {placement : Placement} {cloned : Bool} {sources : List Source}
    (intact : reserve.Intact grove) (apart : ¬ reserve.nodes parent) :
    (attachEach placement cloned parent sources).Respects reserve grove fun _ => True := by
  induction sources generalizing grove with
  | nil => exact Edit.respects_pure intact trivial
  | cons first rest induction =>
      rw [attachEach, attachNext, bind_assoc]
      apply (respects_clonedSource intact).bind
      intro ready middle _ intact
      apply (respects_attach intact apart).bind
      intro child middle _ intact
      exact (induction intact).bind_pure

theorem respects_insertEachAt {cloned : Bool} {index : Int} {sources : List Source}
    (intact : reserve.Intact grove) (apart : ¬ reserve.nodes parent) :
    (insertEachAt cloned parent index sources).Respects reserve grove fun _ => True := by
  rw [insertEachAt]
  apply (respects_requireChildren intact).bind
  intro children middle _ intact
  split
  · exact Edit.respects_throw intact
  · exact (respects_attachEach intact apart).bind_pure

/-- It is enough that the child does not belong to a reserve: then its parent, which lists it,
does not belong to it either. -/
theorem respects_removeSibling (intact : reserve.Intact grove)
    (apart : ¬ reserve.nodes parent ∨ ¬ reserve.nodes child) :
    (removeSibling parent child).Respects reserve grove fun _ => True := by
  rw [removeSibling]
  apply Edit.Respects.bind_looking intact
  apply (requireChildren_ensures parent grove).mono
  · rintro siblings _ ⟨rfl, listed⟩
    refine ⟨rfl, ?_⟩
    split
    · exact Edit.respects_throw intact
    · rename_i position found
      have outside : ¬ reserve.nodes parent := by
        intro member
        rcases apart with outside | outside
        · exact outside member
        · apply outside
          apply intact.below member
          rw [children_of_childList? listed]
          exact List.isSome_idxOf?.1 (Option.isSome_of_eq_some found)
      exact ⟨trivial, (intact.setChildren outside).setParent⟩
  · intro last same
    exact same

theorem respects_forM_removeSibling {children : List NodeId} (intact : reserve.Intact grove)
    (apart : ¬ reserve.nodes parent) :
    (children.forM (removeSibling parent)).Respects reserve grove fun _ => True := by
  induction children generalizing grove with
  | nil => exact Edit.respects_pure intact trivial
  | cons first rest induction =>
      change (removeSibling parent first >>= fun _ =>
        rest.forM (removeSibling parent)).Respects reserve grove _
      apply (respects_removeSibling intact (.inl apart)).bind
      intro _ middle _ intact
      exact induction intact

theorem respects_detach (intact : reserve.Intact grove)
    (apart : ¬ reserve.nodes id ∨
      ∀ owner, grove.parentLink? id = some owner → ¬ reserve.nodes owner) :
    (detach id).Respects reserve grove fun _ => True := by
  rw [detach]
  apply Edit.Ensures.bind
  apply Edit.ensures_get
  split
  · exact Edit.respects_pure intact trivial
  · rename_i owner linked
    apply Edit.ensures_ite
    · intro _
      exact Edit.Ensures.throw_bind intact
    · intro _
      apply respects_removeSibling intact
      rcases apart with outside | outside
      · exact .inr outside
      · exact .inl (outside owner linked)

theorem respects_deleteChild {index : Int} (sound : grove.Sound) (intact : reserve.Intact grove)
    (apart : ¬ reserve.nodes parent) :
    (deleteChild parent index).Respects reserve grove fun _ => True := by
  rw [deleteChild]
  apply Edit.Respects.bind_looking intact
  apply (requireChildren_ensures parent grove).mono
  · rintro children _ ⟨rfl, listed⟩
    refine ⟨rfl, ?_⟩
    split
    · exact Edit.respects_throw intact
    · rename_i child found
      apply respects_detach intact
      right
      intro owner linked
      have own := sound.listed (by
        rw [children_of_childList? listed]
        exact List.mem_of_getElem? (Option.bind_eq_some_iff.1 found).choose_spec.2)
      rw [linked] at own
      cases own
      exact apart
  · intro last same
    exact same

theorem respects_removeChild? (intact : reserve.Intact grove) (apart : ¬ reserve.nodes parent) :
    (removeChild? parent child).Respects reserve grove fun _ => True := by
  rw [removeChild?]
  apply Edit.Ensures.bind
  apply Edit.ensures_get
  apply Edit.ensures_ite
  · intro _
    exact (respects_removeSibling intact (.inl apart)).bind_pure
  · intro _
    exact Edit.respects_pure intact trivial

theorem respects_removeChildAt? {index : Int} (intact : reserve.Intact grove)
    (apart : ¬ reserve.nodes parent) :
    (removeChildAt? parent index).Respects reserve grove fun _ => True := by
  rw [removeChildAt?]
  apply (respects_requireChildren intact).bind
  intro children middle _ intact
  split
  · exact Edit.respects_pure intact trivial
  · exact (respects_removeSibling intact (.inl apart)).bind_pure

theorem respects_clearChildren (intact : reserve.Intact grove) (apart : ¬ reserve.nodes id) :
    (clearChildren id).Respects reserve grove fun _ => True := by
  rw [clearChildren]
  apply (respects_requireChildren intact).bind
  intro children middle _ intact
  exact ⟨trivial, (intact.unlinkAll children).setChildren apart⟩

theorem respects_setTextContent {content : Option String} (intact : reserve.Intact grove)
    (apart : ¬ reserve.nodes id) :
    (setTextContent id content).Respects reserve grove fun _ => True := by
  rw [setTextContent.eq_def]
  apply (respects_requireChildren intact).bind
  intro children middle _ intact
  apply Edit.Ensures.bind
  apply Edit.ensures_get
  apply (respects_forM_removeSibling intact apart).bind
  intro _ middle _ intact
  cases content with
  | none => exact Edit.respects_pure intact trivial
  | some text =>
      apply Edit.Respects.bind_pure
      rw [insertChild_eq_attach]
      exact respects_attach intact apart

end XmlGrove
