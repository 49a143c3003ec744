import XmlGrove.Proofs.Failure.Construction
import XmlGrove.Proofs.Grove.Attachment
import XmlGrove.Proofs.RoundTrip.Parsed

/-!
# Nodes that show trees

The constructors succeed with what was read, and detached nodes can be attached to a tag that was
constructed before them. What a grove shows between two identities stays when only nodes outside
of these are changed.
-/

namespace XmlGrove

namespace Grove

/-! ## Trees between two identities -/

mutual

/-- A node is what a tree says, and so are the nodes below it. Each node is older than those
below it, and all of them are between two identities. -/
inductive Shows (grove : Grove) (high : Nat) : Nat → NodeId → Tree → Prop
  | leaf {low : Nat} {id : NodeId} {content : Leaf} : low ≤ id.index → id.index < high →
      grove.node? id = some (.leaf content) → Shows grove high low id (.leaf content)
  | tag {low : Nat} {id : NodeId} {name : Name} {attributes : Attributes}
      {children : List NodeId} {trees : List Tree} : low ≤ id.index → id.index < high →
      grove.node? id = some (.tag name attributes children) →
      ShowsAll grove high (id.index + 1) children trees →
      Shows grove high low id (.tag name attributes trees)

/-- Several nodes are what several trees say. -/
inductive ShowsAll (grove : Grove) (high : Nat) : Nat → List NodeId → List Tree → Prop
  | nil {low : Nat} : ShowsAll grove high low [] []
  | cons {low : Nat} {id : NodeId} {ids : List NodeId} {tree : Tree} {trees : List Tree} :
      Shows grove high low id tree → ShowsAll grove high low ids trees →
      ShowsAll grove high low (id :: ids) (tree :: trees)

end

variable {grove last : Grove} {high higher : Nat}

theorem Shows.range {low : Nat} {id : NodeId} {tree : Tree} (shows : grove.Shows high low id tree) :
    low ≤ id.index ∧ id.index < high := by
  cases shows with
  | leaf after before _ => exact ⟨after, before⟩
  | tag after before _ _ => exact ⟨after, before⟩

theorem ShowsAll.range {low : Nat} {ids : List NodeId} {trees : List Tree} :
    grove.ShowsAll high low ids trees → ∀ id ∈ ids, low ≤ id.index ∧ id.index < high
  | .nil => by simp
  | .cons first rest => by
      intro id member
      rcases List.mem_cons.1 member with rfl | member
      · exact first.range
      · exact rest.range id member

theorem ShowsAll.append {low : Nat} {ids others : List NodeId} {trees more : List Tree} :
    grove.ShowsAll high low ids trees → grove.ShowsAll high low others more →
    grove.ShowsAll high low (ids ++ others) (trees ++ more)
  | .nil, shows => shows
  | .cons first rest, shows => .cons first (rest.append shows)

mutual

/-- What a grove shows can also be found between wider bounds, in any grove that has the same
nodes between the bounds. -/
theorem Shows.transfer {low lower : Nat} {id : NodeId} {tree : Tree}
    (below : lower ≤ low) (above : high ≤ higher)
    (same : ∀ id : NodeId, low ≤ id.index → id.index < high → last.node? id = grove.node? id) :
    grove.Shows high low id tree → last.Shows higher lower id tree
  | .leaf after before present =>
      .leaf (Nat.le_trans below after) (Nat.lt_of_lt_of_le before above)
        ((same id after before).trans present)
  | .tag after before present children =>
      .tag (Nat.le_trans below after) (Nat.lt_of_lt_of_le before above)
        ((same id after before).trans present)
        (children.transfer (Nat.le_refl _) above fun other behind => same other (by omega))

theorem ShowsAll.transfer {low lower : Nat} {ids : List NodeId} {trees : List Tree}
    (below : lower ≤ low) (above : high ≤ higher)
    (same : ∀ id : NodeId, low ≤ id.index → id.index < high → last.node? id = grove.node? id) :
    grove.ShowsAll high low ids trees → last.ShowsAll higher lower ids trees
  | .nil => .nil
  | .cons first rest => .cons (first.transfer below above same) (rest.transfer below above same)

end

mutual

theorem Shows.viewWithin {low bound : Nat} {id : NodeId} {tree : Tree}
    (enough : high ≤ id.index + bound) :
    grove.Shows high low id tree → grove.viewWithin bound id = some tree
  | .leaf after before present => by
      cases bound with
      | zero => omega
      | succ bound =>
          rw [Grove.viewWithin, present]
  | .tag after before present children => by
      cases bound with
      | zero => omega
      | succ bound =>
          rw [Grove.viewWithin, present]
          dsimp only
          rw [children.viewAllWithin (by omega)]
          rfl

theorem ShowsAll.viewAllWithin {low bound : Nat} {ids : List NodeId} {trees : List Tree}
    (enough : high ≤ low + bound) :
    grove.ShowsAll high low ids trees → grove.viewAllWithin bound ids = some trees
  | .nil => by
      rw [Grove.viewAllWithin]
  | .cons first rest => by
      have behind := first.range
      rw [Grove.viewAllWithin, first.viewWithin (by omega), rest.viewAllWithin enough]

end

/-- The views of nodes are the trees that they show. -/
theorem ShowsAll.map_view? {low : Nat} {ids : List NodeId} {trees : List Tree} :
    grove.ShowsAll grove.entries.size low ids trees → ids.map grove.view? = trees.map some
  | .nil => rfl
  | .cons first rest => by
      rw [List.map_cons, rest.map_view?, Grove.view?, first.viewWithin (by omega)]
      rfl

/-! ## Growth -/

/-- A grove has all nodes of another one whose identities are below a bound, with their links,
and all its nodes are still there. -/
structure Keeps (base : Nat) (grove last : Grove) : Prop where
  size : grove.entries.size ≤ last.entries.size
  node? : ∀ id : NodeId, id.index < base → last.node? id = grove.node? id
  link : ∀ id : NodeId, id.index < base → last.parentLink? id = grove.parentLink? id

theorem Keeps.refl (base : Nat) (grove : Grove) : grove.Keeps base grove :=
  ⟨Nat.le_refl _, fun _ _ => rfl, fun _ _ => rfl⟩

theorem Keeps.trans {base : Nat} {middle : Grove} (former : grove.Keeps base middle)
    (latter : middle.Keeps base last) : grove.Keeps base last where
  size := Nat.le_trans former.size latter.size
  node? id older := (latter.node? id older).trans (former.node? id older)
  link id older := (latter.link id older).trans (former.link id older)

theorem Keeps.mono {base earlier : Nat} (keeps : grove.Keeps base last) (below : earlier ≤ base) :
    grove.Keeps earlier last where
  size := keeps.size
  node? id older := keeps.node? id (by omega)
  link id older := keeps.link id (by omega)

/-- A grove has more nodes than another one, among them detached ones that show trees. -/
structure Adds (grove last : Grove) (ids : List NodeId) (trees : List Tree) : Prop where
  keeps : grove.Keeps grove.entries.size last
  shows : last.ShowsAll last.entries.size grove.entries.size ids trees
  free : ∀ id ∈ ids, last.parentLink? id = none

theorem adds_nil (grove : Grove) : grove.Adds grove [] [] :=
  ⟨.refl _ grove, .nil, by simp⟩

theorem Adds.none {ids : List NodeId} {trees : List Tree} (added : grove.Adds last ids trees) :
    grove.Adds last [] [] :=
  ⟨added.keeps, .nil, by simp⟩

theorem Adds.append {middle : Grove} {ids others : List NodeId} {trees more : List Tree}
    (former : grove.Adds middle ids trees) (latter : middle.Adds last others more) :
    grove.Adds last (ids ++ others) (trees ++ more) where
  keeps := former.keeps.trans (latter.keeps.mono former.keeps.size)
  shows := by
    have first := former.shows.transfer (Nat.le_refl _) latter.keeps.size
      fun id _ older => latter.keeps.node? id older
    have second := latter.shows.transfer former.keeps.size (Nat.le_refl _) fun _ _ _ => rfl
    exact first.append second
  free := by
    intro id member
    rcases List.mem_append.1 member with first | second
    · rw [latter.keeps.link id (former.shows.range id first).2, former.free id first]
    · exact latter.free id second

theorem keeps_add (node : Node) : grove.Keeps grove.entries.size (grove.add ⟨node, none⟩) where
  size := by simp
  node? _ older := node?_add_of_has older
  link _ _ := parentLink?_add_free

theorem adds_add {node : Node} {tree : Tree}
    (shows : ∀ last : Grove, last.node? grove.nextId = some node →
      last.Shows (grove.entries.size + 1) grove.entries.size grove.nextId tree) :
    grove.Adds (grove.add ⟨node, none⟩) [grove.nextId] [tree] where
  keeps := keeps_add node
  shows := by
    rw [size_add]
    exact .cons (shows _ node?_nextId_add) .nil
  free := by
    intro id member
    rw [List.mem_singleton.1 member, parentLink?_add_free, parentLink?_of_not_has not_has_nextId]

theorem adds_leaf (content : Leaf) :
    grove.Adds (grove.add ⟨.leaf content, none⟩) [grove.nextId] [.leaf content] :=
  adds_add fun _ present => .leaf (Nat.le_refl _) (Nat.lt_succ_self _) present

theorem adds_tag (name : Name) (attributes : Attributes) :
    grove.Adds (grove.add ⟨.tag name attributes [], none⟩) [grove.nextId]
      [.tag name attributes []] :=
  adds_add fun _ present => .tag (Nat.le_refl _) (Nat.lt_succ_self _) present .nil

end Grove

open Grove

variable {grove middle last : Grove}

/-! ## Constructors -/

namespace Parse

theorem constructLeaf_yields {content : Leaf} (writable : content.isWritable = true) :
    (constructLeaf content).Yields grove fun id last =>
      grove.Adds last [id] [.leaf content] := by
  have created : (createLeaf content).Yields grove fun id last =>
      grove.Adds last [id] [.leaf content] := by
    rw [createLeaf, Leaf.checked_eq_ok_iff.2 ⟨rfl, writable⟩]
    exact adds_leaf content
  cases content with
  | text content | comment content | cdata content => exact created
  | instruction target content =>
      rw [constructLeaf, Name.ofString?_text]
      exact created

theorem checkedAttributes_text (given : Attributes) (entries : List (Name × String)) :
    checkedAttributes given (entries.map fun (name, value) => (.text name.text, some value)) =
      .ok (entries.foldl (fun attributes (name, value) => attributes.set name value) given) := by
  induction entries generalizing given with
  | nil => rfl
  | cons entry entries induction =>
      rw [List.map_cons, checkedAttributes, checkedAttributeName, GivenName.check,
        Name.ofString?_text]
      exact induction (given.set entry.1 entry.2)

/-- Attributes pass the checks of their names. -/
theorem checkedAttributes_pairs (attributes : Attributes) :
    checkedAttributes {} (attributes.pairs.map fun (name, value) => (.text name, some value)) =
      .ok attributes := by
  have plain : (attributes.pairs.map fun (name, value) => (GivenName.text name, some value)) =
      attributes.entries.map fun (name, value) => (.text name.text, some value) := by
    simp [Attributes.pairs]
  rw [plain, checkedAttributes_text]
  congr 1
  rcases attributes with ⟨entries, nodup⟩
  have same := Attributes.entries_ofList nodup
  simp only [Attributes.ofList] at same
  simp only [EmptyCollection.emptyCollection]
  cases folded : entries.foldl (fun attributes (name, value) => attributes.set name value)
    Attributes.empty with
  | mk others distinct =>
      rw [folded] at same
      simp only at same
      subst same
      rfl

theorem constructTag_yields (name : Name) (attributes : Attributes) :
    (constructTag name attributes).Yields grove fun id last =>
      grove.Adds last [id] [.tag name attributes []] := by
  have named : checkedTagName (.text name.text) = .ok name := by
    rw [checkedTagName, GivenName.check, Name.ofString?_text]
  rw [constructTag]
  apply (createTag_yields named (checkedAttributes_pairs attributes)).mono
  rintro _ _ ⟨rfl, rfl⟩
  exact adds_tag name attributes

end Parse

/-! ## Attaching to a tag -/

/-- Nodes can be attached to a tag one after the other. -/
structure Grove.Attachable (grove : Grove) (tag : NodeId) (nodes : List NodeId) : Prop where
  listed : (grove.childList? tag).isSome = true
  topmost : grove.parentLink? tag = none
  other : tag ∉ nodes
  free : ∀ node ∈ nodes, grove.parentLink? node = none
  distinct : nodes.Nodup

/-- Nodes were attached to a tag, and all other nodes are what they were. -/
structure Grove.Attaches (grove : Grove) (tag : NodeId) (nodes : List NodeId) (last : Grove) :
    Prop where
  size : last.entries.size = grove.entries.size
  node? : ∀ id, id ≠ tag → last.node? id = grove.node? id
  own : ∀ {name attributes present}, grove.node? tag = some (.tag name attributes present) →
    last.node? tag = some (.tag name attributes (present ++ nodes))
  listed : (grove.childList? tag).isSome = true → (last.childList? tag).isSome = true
  link : ∀ id, id ∉ nodes → last.parentLink? id = grove.parentLink? id

variable {tag node : NodeId} {nodes : List NodeId}

theorem appendChild_yields (attachable : grove.Attachable tag [node]) :
    (appendChild tag (.node node)).Yields grove fun _ last => grove.Attaches tag [node] last := by
  have free : grove.parentLink? node = none := attachable.free node List.mem_cons_self
  have different : tag ≠ node := List.ne_of_not_mem_cons attachable.other
  rw [appendChild_eq_attach]
  apply (attach_node_yields attachable.listed free
    (isAtOrAbove_of_free attachable.topmost different.symm)).mono
  intro child last attached
  rcases attached.eq_of_node with ⟨_, rfl⟩
  constructor
  · simp [setChildren, setParent]
  · intro id other
    rw [node?_setChildren, if_neg other, node?_setParent]
  · intro name attributes siblings equal
    rw [Grove.children, childList?, equal, node?_setChildren, if_pos rfl, node?_setParent, equal]
    rfl
  · intro _
    rw [childList?_setChildren]
    simp [childList?_eq_of_node? node?_setParent, attachable.listed]
  · intro id other
    rw [parentLink?_setChildren, parentLink?_setParent, if_neg]
    intro both
    exact other (List.mem_singleton.2 both.1)

theorem Grove.Attachable.head (attachable : grove.Attachable tag (node :: nodes)) :
    grove.Attachable tag [node] where
  listed := attachable.listed
  topmost := attachable.topmost
  other := by
    intro member
    exact attachable.other (List.mem_cons.2 (.inl (List.mem_singleton.1 member)))
  free := by
    intro id member
    exact attachable.free id (List.mem_cons.2 (.inl (List.mem_singleton.1 member)))
  distinct := List.nodup_singleton node

/-- With the first one of several nodes attached, the others can still be. -/
theorem Grove.Attachable.tail (attachable : grove.Attachable tag (node :: nodes))
    (attaches : grove.Attaches tag [node] middle) : middle.Attachable tag nodes where
  listed := attaches.listed attachable.listed
  topmost := by
    rw [attaches.link tag attachable.head.other, attachable.topmost]
  other member := attachable.other (List.mem_cons_of_mem node member)
  free := by
    intro id member
    have different : id ∉ [node] := by
      intro equal
      rw [List.mem_singleton.1 equal] at member
      exact (List.nodup_cons.1 attachable.distinct).1 member
    rw [attaches.link id different, attachable.free id (List.mem_cons_of_mem node member)]
  distinct := (List.nodup_cons.1 attachable.distinct).2

theorem Grove.Attaches.cons (former : grove.Attaches tag [node] middle)
    (latter : middle.Attaches tag nodes last) : grove.Attaches tag (node :: nodes) last where
  size := latter.size.trans former.size
  node? id other := (latter.node? id other).trans (former.node? id other)
  own := by
    intro name attributes present equal
    rw [latter.own (former.own equal), List.append_assoc, List.singleton_append]
  listed := latter.listed ∘ former.listed
  link := by
    intro id other
    rw [List.mem_cons, not_or] at other
    rw [latter.link id other.2, former.link id (by simpa using other.1)]

theorem appendChildren_yields (attachable : grove.Attachable tag nodes) :
    (appendChildren tag (nodes.map .node)).Yields grove fun _ last =>
      grove.Attaches tag nodes last := by
  induction nodes generalizing grove with
  | nil =>
      apply Edit.ensures_pure
      refine ⟨rfl, fun _ _ => rfl, ?_, id, fun _ _ => rfl⟩
      intro name attributes present equal
      rw [equal, List.append_nil]
  | cons node nodes induction =>
      rw [List.map_cons, appendChildren]
      apply Edit.Ensures.bind
      apply (appendChild_yields attachable.head).mono
      intro _ middle former
      apply Edit.Ensures.bind
      apply (induction (attachable.tail former)).mono
      intro _ last latter
      exact Edit.ensures_pure (former.cons latter)

end XmlGrove
