import XmlGrove.Proofs.Grove.Lookup

/-!
# Ownership

Who a node's parent is gets noted at both ends. What is said here about groves is true between
any two steps of an operation; that the ends agree, with nothing left over, is true between
operations.
-/

namespace XmlGrove

/-- A node without children, or one that can't have any. -/
def Node.IsBarren : Node → Prop
  | .leaf _ | .unfinished _ _ => True
  | .tag _ _ children | .anchor _ children => children = []

/-- Tell whether a node is a document's anchor. -/
def Node.isAnchor : Node → Bool
  | .anchor _ _ => true
  | _ => false

namespace Grove

variable {grove changed : Grove} {id child parent : NodeId}

theorem isAnchor_eq_any : grove.isAnchor id = (grove.node? id).any Node.isAnchor := by
  rw [isAnchor, anchored?]
  cases grove.node? id with
  | none => rfl
  | some node => cases node <;> rfl

/-! ## What nodes are apart from their children -/

/-- What a node is, with its children left out. -/
def shape? (grove : Grove) (id : NodeId) : Option Node :=
  (grove.node? id).map (·.withChildren [])

theorem shape?_of_node? (same : changed.node? id = grove.node? id) :
    changed.shape? id = grove.shape? id := by
  rw [shape?, shape?, same]

/-- A node is its shape along with its children. -/
theorem node?_of_shape? (shape : changed.shape? id = grove.shape? id)
    (children : changed.children id = grove.children id) : changed.node? id = grove.node? id := by
  rw [shape?, shape?] at shape
  rw [Grove.children, Grove.children, childList?, childList?] at children
  cases former : grove.node? id with
  | none =>
      rw [former, Option.map_none, Option.map_eq_none_iff] at shape
      exact shape
  | some node =>
      rw [former, Option.map_some] at shape
      rcases Option.map_eq_some_iff.1 shape with ⟨other, latter, equal⟩
      rw [former, latter] at children
      rw [latter]
      cases node <;> cases other <;> simp_all [Node.withChildren]

theorem node?_of_tag {name : Name} {attributes : Attributes} {present children : List NodeId}
    (former : grove.node? id = some (.tag name attributes present))
    (shape : changed.shape? id = grove.shape? id) (own : changed.children id = children) :
    changed.node? id = some (.tag name attributes children) := by
  rw [shape?, shape?, former, Option.map_some] at shape
  rw [Grove.children, childList?] at own
  rcases Option.map_eq_some_iff.1 shape with ⟨node, latter, equal⟩
  rw [latter] at own ⊢
  cases node <;> simp_all [Node.withChildren]

theorem leaf?_eq_shape? :
    grove.leaf? id =
      match grove.shape? id with
      | some (.leaf content) => some content
      | _ => none := by
  rw [leaf?, shape?]
  cases grove.node? id with
  | none => rfl
  | some node => cases node <;> rfl

theorem tag?_eq_shape? :
    grove.tag? id =
      match grove.shape? id with
      | some (.tag name attributes _) | some (.unfinished name attributes) =>
        some (name, attributes)
      | _ => none := by
  rw [tag?, shape?]
  cases grove.node? id with
  | none => rfl
  | some node => cases node <;> rfl

theorem anchored?_eq_shape? :
    grove.anchored? id =
      match grove.shape? id with
      | some (.anchor document _) => some document
      | _ => none := by
  rw [anchored?, shape?]
  cases grove.node? id with
  | none => rfl
  | some node => cases node <;> rfl

theorem isUnfinished_eq_shape? :
    grove.isUnfinished id =
      match grove.shape? id with
      | some (.unfinished _ _) => true
      | _ => false := by
  rw [isUnfinished, shape?]
  cases grove.node? id with
  | none => rfl
  | some node => cases node <;> rfl

theorem isSome_childList?_eq_shape? :
    (grove.childList? id).isSome =
      match grove.shape? id with
      | some (.tag ..) | some (.anchor ..) => true
      | _ => false := by
  rw [childList?, shape?]
  cases grove.node? id with
  | none => rfl
  | some node => cases node <;> rfl

theorem has_iff_shape? : grove.Has id ↔ (grove.shape? id).isSome = true := by
  rw [has_iff, shape?, node?, Option.isSome_map, Option.isSome_map]

section

variable (same : changed.shape? id = grove.shape? id)

include same

theorem leaf?_of_shape? : changed.leaf? id = grove.leaf? id := by
  rw [leaf?_eq_shape?, leaf?_eq_shape?, same]

theorem anchored?_of_shape? : changed.anchored? id = grove.anchored? id := by
  rw [anchored?_eq_shape?, anchored?_eq_shape?, same]

theorem isUnfinished_of_shape? : changed.isUnfinished id = grove.isUnfinished id := by
  rw [isUnfinished_eq_shape?, isUnfinished_eq_shape?, same]

theorem has_of_shape? : changed.Has id ↔ grove.Has id := by
  rw [has_iff_shape?, has_iff_shape?, same]

theorem isAnchor_of_shape? : changed.isAnchor id = grove.isAnchor id := by
  rw [isAnchor, isAnchor, anchored?_of_shape? same]

end

@[simp] theorem shape?_setParent {link : Option NodeId} :
    (grove.setParent child link).shape? id = grove.shape? id :=
  shape?_of_node? node?_setParent

@[simp] theorem shape?_setChildren (children : List NodeId) :
    (grove.setChildren parent children).shape? id = grove.shape? id := by
  rw [shape?, shape?, node?_setChildren]
  split
  · cases grove.node? id with
    | none => rfl
    | some node => cases node <;> rfl
  · rfl

/-- A node that can have children. -/
def Bears (grove : Grove) (id : NodeId) : Prop := grove.Has id ∧ grove.leaf? id = none

theorem bears_of_shape? (same : changed.shape? id = grove.shape? id) :
    changed.Bears id ↔ grove.Bears id := by
  rw [Bears, Bears, has_of_shape? same, leaf?_of_shape? same]

theorem bears_of_childList? {children : List NodeId}
    (listed : grove.childList? id = some children) : grove.Bears id := by
  refine ⟨has_of_childList? listed, ?_⟩
  rw [childList?] at listed
  rw [leaf?]
  split at listed
  · rename_i present
    rw [present]
  · rename_i present
    rw [present]
  · cases listed

theorem bears_of_isSome_childList? (listed : (grove.childList? id).isSome = true) :
    grove.Bears id := by
  rcases Option.isSome_iff_exists.1 listed with ⟨children, present⟩
  exact bears_of_childList? present

theorem isUnfinished_of_childList? {children : List NodeId}
    (listed : grove.childList? id = some children) : grove.isUnfinished id = false := by
  rw [childList?] at listed
  rw [isUnfinished]
  split at listed
  · rename_i present
    rw [present]
  · rename_i present
    rw [present]
  · cases listed

/-! ## Soundness -/

/-- Parent links lead to nodes that can have children, and what a node lists has a link to it
and is listed once. -/
structure Sound (grove : Grove) : Prop where
  target : ∀ {child parent}, grove.parentLink? child = some parent → grove.Bears parent
  listed : ∀ {child parent}, child ∈ grove.children parent →
    grove.parentLink? child = some parent
  nodup : ∀ parent, (grove.children parent).Nodup

theorem sound_empty : Sound {} where
  target := by
    intro child parent linked
    cases linked
  listed := by
    intro child parent listed
    cases listed
  nodup _ := .nil

theorem Sound.not_listed (sound : grove.Sound) (free : grove.parentLink? child = none) :
    child ∉ grove.children parent := by
  intro listed
  rw [sound.listed listed] at free
  cases free

/-- A link to a node that has its children but does not list the one with the link. -/
structure Loose (grove : Grove) (child parent : NodeId) : Prop where
  linked : grove.parentLink? child = some parent
  unlisted : child ∉ grove.children parent
  finished : grove.isUnfinished parent = false

/-- A change leaves no link loose that was not loose before. -/
def Tight (before after : Grove) : Prop :=
  ∀ child parent, after.Loose child parent → before.Loose child parent

theorem Tight.refl (grove : Grove) : Tight grove grove :=
  fun _ _ loose => loose

theorem Tight.trans {first second third : Grove} (former : Tight first second)
    (latter : Tight second third) : Tight first third :=
  fun child parent loose => former child parent (latter child parent loose)

/-! ## New nodes -/

theorem node?_add_of_has {entry : Entry} (has : grove.Has id) :
    (grove.add entry).node? id = grove.node? id := by
  rw [node?_add, if_neg (ne_nextId_of_has has)]

theorem has_add {entry : Entry} : (grove.add entry).Has id ↔ id = grove.nextId ∨ grove.Has id := by
  rw [Has, Has, size_add, nextId]
  cases id
  simp only [NodeId.mk.injEq]
  omega

theorem has_nextId_add {entry : Entry} : (grove.add entry).Has grove.nextId :=
  has_add.2 (.inl rfl)

@[simp] theorem parentLink?_add_free {node : Node} :
    (grove.add ⟨node, none⟩).parentLink? id = grove.parentLink? id := by
  rw [parentLink?_add]
  split
  · rename_i equal
    rw [equal, parentLink?_of_not_has not_has_nextId]
  · rfl

theorem free_nextId_add {node : Node} :
    (grove.add ⟨node, none⟩).parentLink? grove.nextId = none := by
  rw [parentLink?_add_free, parentLink?_of_not_has not_has_nextId]

theorem children_add {node : Node} (barren : node.IsBarren) {link : Option NodeId} :
    (grove.add ⟨node, link⟩).children id = grove.children id := by
  by_cases equal : id = grove.nextId
  · rw [equal, children_of_not_has not_has_nextId, Grove.children, childList?, node?_add,
      if_pos rfl]
    cases node with
    | leaf content => rfl
    | unfinished name attributes => rfl
    | tag name attributes children =>
        cases barren
        rfl
    | anchor document children =>
        cases barren
        rfl
  · apply children_eq_of_node?
    rw [node?_add, if_neg equal]

theorem bears_add_of_bears {entry : Entry} (bears : grove.Bears id) :
    (grove.add entry).Bears id :=
  (bears_of_shape? (shape?_of_node? (node?_add_of_has bears.1))).2 bears

theorem Sound.add (sound : grove.Sound) (node : Node) (barren : node.IsBarren) :
    (grove.add ⟨node, none⟩).Sound where
  target := by
    intro child parent linked
    rw [parentLink?_add_free] at linked
    exact bears_add_of_bears (sound.target linked)
  listed := by
    intro child parent listed
    rw [children_add barren] at listed
    rw [parentLink?_add_free]
    exact sound.listed listed
  nodup parent := by
    rw [children_add barren]
    exact sound.nodup parent

theorem tight_add (node : Node) (sound : grove.Sound) (barren : node.IsBarren) :
    Tight grove (grove.add ⟨node, none⟩) := by
  intro child parent loose
  have linked := loose.linked
  have unlisted := loose.unlisted
  have finished := loose.finished
  rw [parentLink?_add_free] at linked
  rw [children_add barren] at unlisted
  rw [isUnfinished_of_shape? (shape?_of_node? (node?_add_of_has (sound.target linked).1))]
    at finished
  exact ⟨linked, unlisted, finished⟩

/-! ## Links to parents -/

theorem parentLink?_setParent_of_has {link : Option NodeId} (has : grove.Has child) :
    (grove.setParent child link).parentLink? id =
      if id = child then link else grove.parentLink? id := by
  rw [parentLink?_setParent]
  by_cases equal : id = child
  · rw [if_pos ⟨equal, equal ▸ has⟩, if_pos equal]
  · rw [if_neg fun both => equal both.1, if_neg equal]

theorem Sound.link (sound : grove.Sound) (has : grove.Has child)
    (free : grove.parentLink? child = none) (bears : grove.Bears parent) :
    (grove.setParent child (some parent)).Sound where
  target := by
    intro other owner linked
    rw [parentLink?_setParent_of_has has] at linked
    apply (bears_of_shape? shape?_setParent).2
    split at linked
    · cases linked
      exact bears
    · exact sound.target linked
  listed := by
    intro other owner listed
    rw [children_setParent] at listed
    have linked := sound.listed listed
    rw [parentLink?_setParent_of_has has, if_neg]
    · exact linked
    · rintro rfl
      rw [free] at linked
      cases linked
  nodup owner := by
    rw [children_setParent]
    exact sound.nodup owner

theorem loose_link (has : grove.Has child) {other owner : NodeId}
    (loose : (grove.setParent child (some parent)).Loose other owner) :
    grove.Loose other owner ∨ other = child ∧ owner = parent := by
  have linked := loose.linked
  have unlisted := loose.unlisted
  have finished := loose.finished
  rw [parentLink?_setParent_of_has has] at linked
  rw [children_setParent] at unlisted
  rw [isUnfinished_of_shape? shape?_setParent] at finished
  split at linked
  · rename_i equal
    cases linked
    exact .inr ⟨equal, rfl⟩
  · exact .inl ⟨linked, unlisted, finished⟩

/-! ## Lists of children -/

/-- A change replaces the list of a node's children, and nothing else matters. -/
structure Relisted (before after : Grove) (parent : NodeId) (children : List NodeId) : Prop where
  size : after.entries.size = before.entries.size
  documents : after.documents = before.documents
  link : ∀ id, after.parentLink? id = before.parentLink? id
  bears : ∀ id, before.Bears id → after.Bears id
  own : after.children parent = children
  other : ∀ id, id ≠ parent → after.node? id = before.node? id

section

variable {children : List NodeId} (relisted : Relisted grove changed parent children)

include relisted

theorem Relisted.sound (sound : grove.Sound)
    (linked : ∀ child ∈ children, grove.parentLink? child = some parent)
    (distinct : children.Nodup) : changed.Sound where
  target := by
    intro child owner linked
    rw [relisted.link] at linked
    exact relisted.bears owner (sound.target linked)
  listed := by
    intro child owner listed
    rw [relisted.link]
    by_cases equal : owner = parent
    · rw [equal] at listed ⊢
      rw [relisted.own] at listed
      exact linked child listed
    · rw [children_eq_of_node? (relisted.other owner equal)] at listed
      exact sound.listed listed
  nodup owner := by
    by_cases equal : owner = parent
    · rw [equal, relisted.own]
      exact distinct
    · rw [children_eq_of_node? (relisted.other owner equal)]
      exact sound.nodup owner

theorem Relisted.loose {other owner : NodeId} (loose : changed.Loose other owner) :
    owner ≠ parent ∧ grove.Loose other owner ∨
      owner = parent ∧ other ∉ children ∧ grove.parentLink? other = some parent := by
  have linked := loose.linked
  have unlisted := loose.unlisted
  have finished := loose.finished
  rw [relisted.link] at linked
  by_cases equal : owner = parent
  · rw [equal] at unlisted linked
    rw [relisted.own] at unlisted
    exact .inr ⟨equal, unlisted, linked⟩
  · rw [children_eq_of_node? (relisted.other owner equal)] at unlisted
    rw [isUnfinished_of_shape? (shape?_of_node? (relisted.other owner equal))] at finished
    exact .inl ⟨equal, linked, unlisted, finished⟩

end

theorem relisted_setChildren {children previous : List NodeId}
    (present : grove.childList? parent = some previous) :
    Relisted grove (grove.setChildren parent children) parent children where
  size := size_modifyEntry _
  documents := rfl
  link _ := parentLink?_setChildren children
  bears _ := (bears_of_shape? (shape?_setChildren children)).2
  own := children_setChildren_self present
  other id different := by rw [node?_setChildren, if_neg different]

theorem relisted_setNode (name : Name) (attributes : Attributes) (children : List NodeId)
    (has : grove.Has parent) :
    Relisted grove (grove.setNode parent (.tag name attributes children)) parent children where
  size := size_modifyEntry _
  documents := rfl
  link _ := parentLink?_setNode _
  bears id bears := by
    by_cases equal : id = parent
    · rw [equal]
      have listed : (grove.setNode parent (.tag name attributes children)).childList? parent =
          some children := by
        rw [childList?, node?_setNode, if_pos ⟨rfl, has⟩]
      exact bears_of_childList? listed
    · apply (bears_of_shape? (shape?_of_node? _)).2 bears
      rw [node?_setNode, if_neg fun both => equal both.1]
  own := by
    rw [Grove.children, childList?, node?_setNode, if_pos ⟨rfl, has⟩]
    rfl
  other id different := by rw [node?_setNode, if_neg fun both => different both.1]

/-! ## Taking children out -/

/-- A change takes some children out of a parent. -/
structure Pruned (before after : Grove) (parent : NodeId) (removed : List NodeId) : Prop where
  shape : ∀ id, after.shape? id = before.shape? id
  documents : after.documents = before.documents
  link : ∀ id, after.parentLink? id = if id ∈ removed then none else before.parentLink? id
  subset : ∀ id ∈ removed, id ∈ before.children parent
  own : after.children parent = (before.children parent).filter (· ∉ removed)
  other : ∀ id, id ≠ parent → after.children id = before.children id

section

variable {removed : List NodeId} (pruned : Pruned grove changed parent removed)

include pruned

theorem Pruned.link_of_link {owner : NodeId} (linked : changed.parentLink? child = some owner) :
    child ∉ removed ∧ grove.parentLink? child = some owner := by
  rw [pruned.link] at linked
  split at linked
  · cases linked
  · rename_i kept
    exact ⟨kept, linked⟩

theorem Pruned.mem_children {owner : NodeId} (sound : grove.Sound) :
    child ∈ changed.children owner ↔ child ∈ grove.children owner ∧ child ∉ removed := by
  by_cases equal : owner = parent
  · rw [equal, pruned.own, List.mem_filter, decide_eq_true_iff]
  · rw [pruned.other owner equal]
    constructor
    · intro listed
      refine ⟨listed, ?_⟩
      intro gone
      have linked := sound.listed (pruned.subset child gone)
      rw [sound.listed listed] at linked
      exact equal (Option.some.inj linked)
    · intro both
      exact both.1

theorem Pruned.sound (sound : grove.Sound) : changed.Sound where
  target := by
    intro child owner linked
    exact (bears_of_shape? (pruned.shape owner)).2 (sound.target (pruned.link_of_link linked).2)
  listed := by
    intro child owner listed
    rcases (pruned.mem_children sound).1 listed with ⟨present, kept⟩
    rw [pruned.link, if_neg kept]
    exact sound.listed present
  nodup owner := by
    by_cases equal : owner = parent
    · rw [equal, pruned.own]
      exact (sound.nodup parent).filter _
    · rw [pruned.other owner equal]
      exact sound.nodup owner

theorem Pruned.tight (sound : grove.Sound) : Tight grove changed := by
  intro child owner loose
  rcases pruned.link_of_link loose.linked with ⟨kept, linked⟩
  refine ⟨linked, ?_, ?_⟩
  · intro listed
    exact loose.unlisted ((pruned.mem_children sound).2 ⟨listed, kept⟩)
  · rw [← isUnfinished_of_shape? (pruned.shape owner)]
    exact loose.finished

end

theorem Pruned.refl (grove : Grove) (parent : NodeId) : Pruned grove grove parent [] where
  shape _ := rfl
  documents := rfl
  link id := by rw [if_neg List.not_mem_nil]
  subset id member := by cases member
  own := by
    rw [List.filter_eq_self.2]
    intro id _
    rw [decide_eq_true_iff]
    exact List.not_mem_nil
  other _ _ := rfl

theorem Pruned.trans {middle last : Grove} {removed further : List NodeId}
    (former : Pruned grove middle parent removed) (latter : Pruned middle last parent further) :
    Pruned grove last parent (removed ++ further) where
  shape id := (latter.shape id).trans (former.shape id)
  documents := latter.documents.trans former.documents
  link id := by
    rw [latter.link, former.link]
    simp only [List.mem_append]
    by_cases gone : id ∈ further
    · rw [if_pos gone, if_pos (.inr gone)]
    · rw [if_neg gone]
      simp only [gone, or_false]
  subset id member := by
    rcases List.mem_append.1 member with before | behind
    · exact former.subset id before
    · have left := latter.subset id behind
      rw [former.own] at left
      exact (List.mem_filter.1 left).1
  own := by
    rw [latter.own, former.own, List.filter_filter]
    apply List.filter_congr
    intro id _
    rw [Bool.eq_iff_iff, Bool.and_eq_true, decide_eq_true_iff, decide_eq_true_iff,
      decide_eq_true_iff, List.mem_append, not_or, And.comm]
  other id different := (latter.other id different).trans (former.other id different)

end Grove

end XmlGrove
