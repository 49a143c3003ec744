import XmlGrove.Grove.Prologue

/-!
# Looking at changed groves

What a change to a grove does to the parent links and to the nodes. All else that can be looked
at, the lists of children among it, is seen through these two.
-/

namespace XmlGrove

theorem NodeId.eq_of_index {first second : NodeId} (equal : first.index = second.index) :
    first = second := by
  cases first
  cases second
  exact congrArg NodeId.mk equal

namespace Grove

variable {grove : Grove} {id other : NodeId}

/-! ## Nodes that a grove has -/

/-- A grove has a node. -/
def Has (grove : Grove) (id : NodeId) : Prop := id.index < grove.entries.size

instance : Decidable (grove.Has id) := inferInstanceAs (Decidable (_ < _))

theorem has_iff : grove.Has id ↔ (grove.entry? id).isSome = true := by
  simp [Has, entry?]

/-- The identity of the next node. -/
def nextId (grove : Grove) : NodeId := ⟨grove.entries.size⟩

/-- The grove with another node. -/
def add (grove : Grove) (entry : Entry) : Grove :=
  { grove with entries := grove.entries.push entry }

theorem not_has_nextId : ¬ grove.Has grove.nextId := Nat.lt_irrefl _

theorem ne_nextId_of_has (has : grove.Has id) : id ≠ grove.nextId := by
  rintro rfl
  exact not_has_nextId has

/-- A tag node whose construction was given up, or is not done yet. -/
def isUnfinished (grove : Grove) (id : NodeId) : Bool :=
  match grove.node? id with
  | some (.unfinished _ _) => true
  | _ => false

/-! ## Entries -/

theorem entry?_add (entry : Entry) :
    entry? (grove.add entry) id = if id = grove.nextId then some entry else grove.entry? id := by
  rw [Grove.entry?, Grove.entry?, add, Array.getElem?_push]
  by_cases equal : id = grove.nextId
  · rw [if_pos equal, if_pos (by rw [equal]; rfl)]
  · rw [if_neg equal, if_neg]
    intro same
    exact equal (NodeId.eq_of_index same)

theorem entry?_modifyEntry (change : Entry → Entry) :
    entry? (grove.modifyEntry id change) other =
      if other = id then (grove.entry? other).map change else grove.entry? other := by
  rw [Grove.entry?, Grove.entry?, modifyEntry, Array.getElem?_modify]
  by_cases equal : other = id
  · rw [if_pos equal, if_pos (by rw [equal])]
  · rw [if_neg equal, if_neg]
    intro same
    exact equal (NodeId.eq_of_index same.symm)

@[simp] theorem size_modifyEntry (change : Entry → Entry) :
    (grove.modifyEntry id change).entries.size = grove.entries.size := by
  rw [modifyEntry, Array.size_modify]

@[simp] theorem size_add (entry : Entry) :
    (grove.add entry).entries.size = grove.entries.size + 1 :=
  Array.size_push _

/-- A new node may as well be what it is changed to. -/
theorem modifyEntry_nextId_add (entry : Entry) (change : Entry → Entry) :
    (grove.add entry).modifyEntry grove.nextId change = grove.add (change entry) := by
  rw [modifyEntry, add, add]
  congr 1
  apply Array.ext_getElem?
  intro index
  rw [Array.getElem?_modify, Array.getElem?_push, Array.getElem?_push, nextId]
  by_cases equal : index = grove.entries.size
  · rw [if_pos equal, if_pos equal, if_pos equal.symm]
    rfl
  · rw [if_neg equal, if_neg equal, if_neg (Ne.symm equal)]

/-! ## Parent links -/

theorem parentLink?_of_not_has (missing : ¬ grove.Has id) : grove.parentLink? id = none := by
  rw [has_iff] at missing
  rw [parentLink?]
  cases present : grove.entry? id with
  | none => rfl
  | some entry =>
      rw [present] at missing
      exact absurd rfl missing

theorem has_of_parentLink? {parent : NodeId} (linked : grove.parentLink? id = some parent) :
    grove.Has id := by
  apply Decidable.byContradiction
  intro missing
  rw [parentLink?_of_not_has missing] at linked
  cases linked

theorem parentLink?_add (entry : Entry) :
    (grove.add entry).parentLink? id =
      if id = grove.nextId then entry.parent else grove.parentLink? id := by
  rw [parentLink?, entry?_add]
  split
  · rfl
  · rfl

theorem parentLink?_setParent {parent : Option NodeId} :
    (grove.setParent id parent).parentLink? other =
      if other = id ∧ grove.Has other then parent else grove.parentLink? other := by
  rw [parentLink?, setParent, entry?_modifyEntry]
  by_cases equal : other = id
  · rw [if_pos equal]
    by_cases has : grove.Has other
    · rw [if_pos ⟨equal, has⟩]
      rcases Option.isSome_iff_exists.1 (has_iff.1 has) with ⟨entry, present⟩
      rw [present]
      rfl
    · rw [if_neg fun both => has both.2]
      have missing := parentLink?_of_not_has has
      rw [has_iff] at has
      rw [Option.not_isSome_iff_eq_none.1 has, missing]
      rfl
  · rw [if_neg equal, if_neg fun both => equal both.1]
    rfl

theorem parentLink?_modifyEntry {change : Entry → Entry}
    (same : ∀ entry, (change entry).parent = entry.parent) :
    (grove.modifyEntry id change).parentLink? other = grove.parentLink? other := by
  rw [parentLink?, parentLink?, entry?_modifyEntry]
  split
  · cases grove.entry? other with
    | none => rfl
    | some entry => exact same entry
  · rfl

@[simp] theorem parentLink?_setChildren (children : List NodeId) :
    (grove.setChildren id children).parentLink? other = grove.parentLink? other :=
  parentLink?_modifyEntry fun _ => rfl

@[simp] theorem parentLink?_setNode (node : Node) :
    (grove.setNode id node).parentLink? other = grove.parentLink? other :=
  parentLink?_modifyEntry fun _ => rfl

/-! ## Nodes -/

theorem node?_of_not_has (missing : ¬ grove.Has id) : grove.node? id = none := by
  rw [has_iff, Option.not_isSome_iff_eq_none] at missing
  rw [node?, missing]
  rfl

theorem has_of_node? {node : Node} (present : grove.node? id = some node) : grove.Has id := by
  apply Decidable.byContradiction
  intro missing
  rw [node?_of_not_has missing] at present
  cases present

theorem node?_add (entry : Entry) :
    (grove.add entry).node? id =
      if id = grove.nextId then some entry.node else grove.node? id := by
  rw [node?, entry?_add]
  split
  · rfl
  · rfl

theorem node?_nextId_add {entry : Entry} :
    (grove.add entry).node? grove.nextId = some entry.node := by
  rw [node?_add, if_pos rfl]

@[simp] theorem node?_setParent {parent : Option NodeId} :
    (grove.setParent id parent).node? other = grove.node? other := by
  rw [node?, node?, setParent, entry?_modifyEntry]
  split
  · cases grove.entry? other with
    | none => rfl
    | some entry => rfl
  · rfl

theorem node?_setNode (node : Node) :
    (grove.setNode id node).node? other =
      if other = id ∧ grove.Has other then some node else grove.node? other := by
  rw [node?, setNode, entry?_modifyEntry]
  by_cases equal : other = id
  · rw [if_pos equal]
    by_cases has : grove.Has other
    · rw [if_pos ⟨equal, has⟩]
      rcases Option.isSome_iff_exists.1 (has_iff.1 has) with ⟨entry, present⟩
      rw [present]
      rfl
    · rw [if_neg fun both => has both.2]
      have missing := node?_of_not_has has
      rw [has_iff] at has
      rw [Option.not_isSome_iff_eq_none.1 has, missing]
      rfl
  · rw [if_neg equal, if_neg fun both => equal both.1]
    rfl

theorem node?_setChildren (children : List NodeId) :
    (grove.setChildren id children).node? other =
      if other = id then (grove.node? other).map (·.withChildren children)
      else grove.node? other := by
  rw [node?, setChildren, entry?_modifyEntry]
  split
  · rw [node?, Option.map_map, Option.map_map]
    rfl
  · rfl

theorem tag?_of_node? {name : Name} {attributes : Attributes} {children : List NodeId}
    (present : grove.node? id = some (.tag name attributes children)) :
    grove.tag? id = some (name, attributes) := by
  rw [tag?, present]

/-! ## Lists of children -/

theorem childList?_eq_of_node? {first second : Grove} (same : first.node? id = second.node? id) :
    first.childList? id = second.childList? id := by
  rw [childList?, childList?, same]

theorem children_eq_of_node? {first second : Grove} (same : first.node? id = second.node? id) :
    first.children id = second.children id := by
  rw [children, children, childList?_eq_of_node? same]

theorem children_of_childList? {children : List NodeId}
    (listed : grove.childList? id = some children) : grove.children id = children := by
  rw [Grove.children, listed]
  rfl

theorem childList?_of_node? {name : Name} {attributes : Attributes} {children : List NodeId}
    (present : grove.node? id = some (.tag name attributes children)) :
    grove.childList? id = some children := by
  rw [childList?, present]

theorem children_of_node? {name : Name} {attributes : Attributes} {children : List NodeId}
    (present : grove.node? id = some (.tag name attributes children)) :
    grove.children id = children :=
  children_of_childList? (childList?_of_node? present)

theorem children_of_not_has (missing : ¬ grove.Has id) : grove.children id = [] := by
  rw [children, childList?, node?_of_not_has missing]
  rfl

theorem has_of_childList? {children : List NodeId}
    (listed : grove.childList? id = some children) : grove.Has id := by
  apply Decidable.byContradiction
  intro missing
  rw [childList?, node?_of_not_has missing] at listed
  cases listed

theorem childList?_setChildren (children : List NodeId) :
    (grove.setChildren id children).childList? other =
      if other = id then (grove.childList? other).map fun _ => children
      else grove.childList? other := by
  rw [childList?, node?_setChildren]
  by_cases equal : other = id
  · rw [if_pos equal, if_pos equal, childList?]
    cases grove.node? other with
    | none => rfl
    | some node => cases node <;> rfl
  · rw [if_neg equal, if_neg equal, childList?]

theorem children_setChildren_self {children previous : List NodeId}
    (listed : grove.childList? id = some previous) :
    (grove.setChildren id children).children id = children := by
  rw [Grove.children, childList?_setChildren, if_pos rfl, listed]
  rfl

theorem children_setChildren_of_ne (children : List NodeId) (different : other ≠ id) :
    (grove.setChildren id children).children other = grove.children other := by
  rw [Grove.children, childList?_setChildren, if_neg different]
  rfl

@[simp] theorem children_setParent {parent : Option NodeId} :
    (grove.setParent id parent).children other = grove.children other :=
  children_eq_of_node? node?_setParent

/-! ## Documents -/

theorem document?_modifyDocument {document other : DocumentId} {change : Document → Document} :
    (grove.modifyDocument document change).document? other =
      if other = document then (grove.document? other).map change else grove.document? other := by
  rw [document?, document?, modifyDocument, Array.getElem?_modify]
  by_cases equal : other = document
  · rw [if_pos equal, if_pos (by rw [equal])]
  · rw [if_neg equal, if_neg]
    intro same
    cases document
    cases other
    exact equal (congrArg DocumentId.mk same.symm)

end Grove

end XmlGrove
