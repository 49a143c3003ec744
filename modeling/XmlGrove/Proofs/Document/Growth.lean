import XmlGrove.Proofs.Document.Frame

/-!
# Growing groves

New nodes leave all that there was as it is. While they are put together, the lists of those
among them change that are filled, but never those of nodes that were there before.
-/

namespace XmlGrove

namespace Grove

variable {grove before middle after start : Grove} {id child parent : NodeId}
  {filled wider : NodeId → Prop} {held touched : List NodeId}

/-- A grove has further nodes. Of those that there were, only filled ones have other children. -/
structure Grown (filled : NodeId → Prop) (before after : Grove) : Prop where
  size : before.entries.size ≤ after.entries.size
  documents : after.documents = before.documents
  shape : ∀ {id}, before.Has id → after.shape? id = before.shape? id
  children : ∀ {id}, before.Has id → ¬ filled id → after.children id = before.children id
  link : ∀ {id}, before.Has id → after.parentLink? id = before.parentLink? id
  sound : before.Sound → after.Sound

namespace Grown

theorem refl (grove : Grove) : Grown filled grove grove where
  size := Nat.le_refl _
  documents := rfl
  shape _ := rfl
  children _ _ := rfl
  link _ := rfl
  sound sound := sound

theorem has (grown : Grown filled before after) (present : before.Has id) : after.Has id :=
  Nat.lt_of_lt_of_le present grown.size

theorem kind? (grown : Grown filled before after) (present : before.Has id) :
    after.kind? id = before.kind? id :=
  kind?_of_shape? (grown.shape present)

theorem node? (grown : Grown filled before after) (present : before.Has id) (apart : ¬ filled id) :
    after.node? id = before.node? id :=
  node?_of_shape? (grown.shape present) (grown.children present apart)

theorem trans (former : Grown filled before middle) (latter : Grown filled middle after) :
    Grown filled before after where
  size := Nat.le_trans former.size latter.size
  documents := latter.documents.trans former.documents
  shape present := by rw [latter.shape (former.has present), former.shape present]
  children present apart := by
    rw [latter.children (former.has present) apart, former.children present apart]
  link present := by rw [latter.link (former.has present), former.link present]
  sound sound := latter.sound (former.sound sound)

/-- Only filling nodes that there were makes a difference. -/
theorem convert (grown : Grown filled before after)
    (implies : ∀ id, before.Has id → filled id → wider id) : Grown wider before after where
  size := grown.size
  documents := grown.documents
  shape := grown.shape
  children present apart := grown.children present fun fills => apart (implies _ present fills)
  link := grown.link
  sound := grown.sound

theorem mono (grown : Grown filled before after) (implies : ∀ id, filled id → wider id) :
    Grown wider before after :=
  grown.convert fun id _ => implies id

theorem spared (grown : Grown filled before after)
    (plain : ∀ id, before.isAnchor id = true → ¬ filled id) : Spared touched before after where
  size := grown.size
  anchors id := by rw [document?, document?, grown.documents]
  kind present := grown.kind? present
  anchored present := anchored?_of_shape? (grown.shape present)
  children anchor _ := grown.children (has_of_isAnchor anchor) (plain _ anchor)
  free anchor link := by rw [grown.link (has_of_isAnchor anchor), link]
  sound := grown.sound
  instructed instructed :=
    instructed.keep (fun id => by rw [document?, document?, grown.documents]) grown.kind?

end Grown

/-- A grove has further nodes, and everything else is as it was. -/
abbrev Enlarged (before after : Grove) : Prop := Grown (fun _ => False) before after

theorem Enlarged.spared (enlarged : Enlarged before after) : Spared touched before after :=
  Grown.spared enlarged fun _ _ fills => fills

/-- Nodes that a grove does not have yet. -/
def Later (start : Grove) (id : NodeId) : Prop := ¬ start.Has id

/-- Filling later nodes leaves everything as it was. -/
theorem Grown.enlarged (grown : Grown start.Later start after) : Enlarged start after :=
  grown.convert fun _ present later => later present

theorem Enlarged.grown (enlarged : Enlarged before after) : Grown filled before after :=
  Grown.mono enlarged fun _ => False.elim

/-! ## Steps of growing -/

theorem Grown.graft {base : Nat} (grown : Grown filled start before)
    (grafted : Grafted base held before after) (older : start.entries.size ≤ base)
    (recent : ∀ id ∈ held, ¬ start.Has id) : Grown filled start after where
  size := Nat.le_trans grown.size grafted.size_le
  documents := grafted.documents.trans grown.documents
  shape present := by
    rw [shape?_of_node? (grafted.node? (grown.has present)), grown.shape present]
  children present apart := by
    rw [children_eq_of_node? (grafted.node? (grown.has present)), grown.children present apart]
  link {id} present := by
    rw [← grown.link present]
    cases linked : after.parentLink? id with
    | none =>
        cases former : before.parentLink? id with
        | none => rfl
        | some owner =>
            rw [grafted.link_of_link former] at linked
            cases linked
    | some owner =>
        rcases grafted.link_cases linked with kept | ⟨_, _, member, _⟩
        · exact kept.symm
        · rw [Has] at present
          exact absurd present (recent id (member (by omega)))
  sound sound := grafted.sound (grown.sound sound)

theorem Grown.adopt (grown : Grown filled start before) (recent : ¬ start.Has child)
    (has : before.Has child) (free : before.parentLink? child = none)
    (bears : before.Bears parent) :
    Grown filled start (before.setParent child (some parent)) where
  size := by
    rw [setParent, size_modifyEntry]
    exact grown.size
  documents := grown.documents
  shape present := by rw [shape?_setParent, grown.shape present]
  children present apart := by rw [children_setParent, grown.children present apart]
  link {id} present := by
    rw [parentLink?_setParent_of_has has, if_neg, grown.link present]
    rintro rfl
    exact recent present
  sound sound := (grown.sound sound).link has free bears

theorem Grown.relist {children : List NodeId} (grown : Grown filled start before)
    (fills : filled parent) (relisted : Relisted before after parent children)
    (shape : ∀ id, after.shape? id = before.shape? id)
    (linked : ∀ child ∈ children, before.parentLink? child = some parent)
    (distinct : children.Nodup) : Grown filled start after where
  size := by
    rw [relisted.size]
    exact grown.size
  documents := relisted.documents.trans grown.documents
  shape present := by rw [shape, grown.shape present]
  children {id} present apart := by
    rw [children_eq_of_node? (relisted.other id _), grown.children present apart]
    rintro rfl
    exact apart fills
  link present := by rw [relisted.link, grown.link present]
  sound sound := relisted.sound (grown.sound sound) linked distinct

/-- A new node has a kind, and it has no parent yet. -/
structure Fresh (start : Grove) (kind : NodeKind) (id : NodeId) (grove : Grove) : Prop where
  added : ¬ start.Has id
  kind : grove.kind? id = some kind
  free : grove.parentLink? id = none

namespace Fresh

variable {kind : NodeKind}

theorem has (fresh : Fresh start kind id grove) : grove.Has id := has_of_kind? fresh.kind

theorem grow (fresh : Fresh start kind id middle) (grown : Grown filled middle after) :
    Fresh start kind id after where
  added := fresh.added
  kind := (grown.kind? fresh.has).trans fresh.kind
  free := (grown.link fresh.has).trans fresh.free

end Fresh

/-- New nodes of some kinds, one for each, none of which has a parent yet. -/
structure AllFresh (start : Grove) (kinds : List NodeKind) (ids : List NodeId) (grove : Grove) :
    Prop where
  kinds : ids.map grove.kind? = kinds.map some
  added : ∀ id ∈ ids, ¬ start.Has id
  free : ∀ id ∈ ids, grove.parentLink? id = none
  distinct : ids.Nodup

namespace AllFresh

variable {kind : NodeKind} {kinds : List NodeKind} {ids : List NodeId}

theorem nil : AllFresh start [] [] grove where
  kinds := rfl
  added id member := by cases member
  free id member := by cases member
  distinct := .nil

theorem single (fresh : Fresh start kind id grove) : AllFresh start [kind] [id] grove where
  kinds := by rw [List.map_singleton, List.map_singleton, fresh.kind]
  added other member := by
    rw [List.mem_singleton] at member
    rw [member]
    exact fresh.added
  free other member := by
    rw [List.mem_singleton] at member
    rw [member]
    exact fresh.free
  distinct := List.nodup_cons.2 ⟨List.not_mem_nil, .nil⟩

theorem exists_kind (fresh : AllFresh start kinds ids grove) (member : id ∈ ids) :
    ∃ kind, grove.kind? id = some kind := by
  have listed := List.mem_map_of_mem (f := grove.kind?) member
  rw [fresh.kinds] at listed
  rcases List.mem_map.1 listed with ⟨kind, _, equal⟩
  exact ⟨kind, equal.symm⟩

theorem offers (fresh : AllFresh start kinds ids grove) (member : id ∈ ids) : grove.Offers id := by
  rcases fresh.exists_kind member with ⟨kind, present⟩
  exact ⟨has_of_kind? present, not_isAnchor_of_kind? present⟩

theorem append {others : List NodeKind} {rest : List NodeId}
    (former : AllFresh start kinds ids middle) (enlarged : Enlarged start middle)
    (latter : AllFresh middle others rest after) (further : Enlarged middle after) :
    AllFresh start (kinds ++ others) (ids ++ rest) after where
  kinds := by
    rw [List.map_append, List.map_append, latter.kinds, ← former.kinds]
    congr 1
    apply List.map_congr_left
    intro id member
    exact further.kind? (former.offers member).1
  added id member := by
    rcases List.mem_append.1 member with first | second
    · exact former.added id first
    · exact fun present => latter.added id second (enlarged.has present)
  free id member := by
    rcases List.mem_append.1 member with first | second
    · rw [further.link (former.offers first).1]
      exact former.free id first
    · exact latter.free id second
  distinct := by
    refine List.nodup_append.2 ⟨former.distinct, latter.distinct, ?_⟩
    rintro id first other second rfl
    exact latter.added id second (former.offers first).1

end AllFresh

theorem fresh_add {node : Node} {kind : NodeKind}
    (shown : (grove.add ⟨node, none⟩).kind? grove.nextId = some kind) :
    Fresh grove kind grove.nextId (grove.add ⟨node, none⟩) where
  added := not_has_nextId
  kind := shown
  free := by
    rw [parentLink?_add_free]
    exact parentLink?_of_not_has not_has_nextId

end Grove

open Grove

variable {grove middle last start : Grove} {id child parent : NodeId} {source : Source}
  {filled : NodeId → Prop}

/-! ## One new node -/

theorem enlarged_add {node : Node} (barren : node.IsBarren) (plain : node.isAnchor = false) :
    Enlarged grove (grove.add ⟨node, none⟩) := by
  have grafted : Grafted grove.entries.size [] grove (grove.add ⟨node, none⟩) :=
    Grafted.none.add barren plain
  apply (Grown.refl grove).graft grafted (Nat.le_refl _)
  intro id member
  cases member

theorem kind?_nextId_add {node : Node} :
    (grove.add ⟨node, none⟩).kind? grove.nextId =
      match node with
      | .leaf content => some content.kind
      | .tag .. | .unfinished .. => some .tag
      | .anchor .. => none := by
  rw [kind?, node?_nextId_add]
  cases node <;> rfl

theorem createLeaf_ensures (content : Leaf) :
    Edit.Ensures (createLeaf content) grove
      (fun id last => Enlarged grove last ∧ Fresh grove content.kind id last)
      (fun last => last = grove) := by
  rw [createLeaf]
  apply Edit.Ensures.bind
  refine Edit.ensures_ofExcept ?_ (Eq.refl grove)
  intro checked accepted
  rw [← (Leaf.checked_eq_ok_iff.1 accepted).1]
  apply Edit.ensures_create
  exact ⟨enlarged_add trivial rfl, fresh_add kind?_nextId_add⟩

theorem createTag_adds (name : GivenName) (attributes : List (GivenName × Option String)) :
    Edit.Ensures (createTag name attributes []) grove
      (fun id last => ∃ valid entries, id = grove.nextId ∧
        last = grove.add ⟨.tag valid entries [], none⟩)
      (fun last => last = grove) := by
  cases named : checkedTagName name with
  | error fault =>
      rw [createTag, instantiate, named]
      exact Edit.Ensures.throw_bind rfl
  | ok valid =>
      cases checked : checkedAttributes {} attributes with
      | error fault =>
          rw [createTag, instantiate, named]
          apply Edit.Ensures.bind
          apply Edit.ensures_pure
          rw [checked]
          exact Edit.Ensures.throw_bind rfl
      | ok entries =>
          apply (createTag_yields named checked).ensures
          rintro id last ⟨next, added⟩
          exact ⟨valid, entries, next, added⟩

theorem createTag_ensures (name : GivenName) (attributes : List (GivenName × Option String)) :
    Edit.Ensures (createTag name attributes []) grove
      (fun id last => Enlarged grove last ∧ Fresh grove .tag id last)
      (fun last => last = grove) := by
  apply (createTag_adds name attributes).mono
  · rintro _ _ ⟨valid, entries, rfl, rfl⟩
    exact ⟨enlarged_add rfl rfl, fresh_add kind?_nextId_add⟩
  · intro last same
    exact same

theorem Constructed.enlarged (constructed : Constructed grove [] child last) :
    Enlarged grove last := by
  apply (Grown.refl grove).graft constructed.grafted (Nat.le_refl _)
  intro id member
  cases member

theorem kind?_plant (tree : Tree) (sound : grove.Sound) (failure : Grove → Prop) :
    Edit.Ensures (plant tree) grove (fun id last => last.kind? id = some tree.kind) failure := by
  cases tree with
  | leaf content => exact kind?_nextId_add
  | tag name attributes children =>
      have planted : Planted grove.entries.size grove none grove.nextId
          (grove.add ⟨.tag name attributes [], none⟩) := by
        apply planted_add (.tag name attributes []) sound rfl rfl
        intro owner equal
        cases equal
      have bears : (grove.add ⟨.tag name attributes [], none⟩).Bears grove.nextId := by
        refine ⟨has_nextId_add, ?_⟩
        rw [leaf?, node?_nextId_add]
      have others := allPlanted_plantAllBelow grove.nextId children
        (grove.add ⟨.tag name attributes [], none⟩) (planted.grafted.sound sound)
        planted.grafted.size_le bears (Nat.le_refl _)
      change (((plantAllBelow grove.nextId children).run
        (grove.add ⟨.tag name attributes [], none⟩)).2.setChildren grove.nextId _).kind?
          grove.nextId = some .tag
      rw [kind?_of_shape? (shape?_setChildren _),
        kind?_of_shape? (shape?_of_node? (others.grafted.node? has_nextId_add))]
      exact kind?_nextId_add

theorem plant_grows (tree : Tree) (sound : grove.Sound) (failure : Grove → Prop) :
    Edit.Ensures (plant tree) grove
      (fun id last => Enlarged grove last ∧ Fresh grove tree.kind id last) failure := by
  have kinds := (kind?_plant tree sound failure).with_outcome
  apply (plant_ensures tree grove sound failure).with_outcome.mono
  · rintro id last ⟨constructed, outcome⟩
    exact ⟨constructed.enlarged, constructed.added, (kinds.of_ok outcome).1, constructed.free⟩
  · rintro last ⟨failed, _⟩
    exact failed

theorem kind_of_view? {tree : Tree} (viewed : grove.view? id = some tree) :
    grove.kind? id = some tree.kind := by
  rw [view?, viewWithin] at viewed
  rw [kind?]
  split at viewed
  · rename_i present
    rw [present]
    cases viewed
    rfl
  · rename_i present
    rw [present]
    rcases Option.map_eq_some_iff.1 viewed with ⟨trees, _, rfl⟩
    rfl
  · cases viewed

theorem construct_grows (tree : Tree) (sound : grove.Sound) :
    Edit.Ensures (construct tree) grove
      (fun id last => Enlarged grove last ∧ Fresh grove tree.kind id last)
      (fun last => last = grove) := by
  rw [construct]
  apply Edit.Ensures.bind
  refine Edit.ensures_ofExcept ?_ (Eq.refl grove)
  intro checked accepted
  rw [← (Tree.checked_eq_ok_iff.1 accepted).1]
  exact plant_grows tree sound _

theorem cloneNode_grows (sound : grove.Sound) :
    Edit.Ensures (cloneNode true id) grove
      (fun clone last => Enlarged grove last ∧
        ∃ kind, grove.kind? id = some kind ∧ Fresh grove kind clone last)
      (fun last => last = grove) := by
  rw [cloneNode, if_pos rfl, requireView, bind_assoc]
  apply Edit.Ensures.bind
  apply Edit.ensures_get
  split
  · rename_i tree viewed
    apply (construct_grows tree sound).mono
    · rintro clone last ⟨enlarged, fresh⟩
      exact ⟨enlarged, tree.kind, kind_of_view? viewed, fresh⟩
    · intro last same
      exact same
  · exact Edit.Ensures.throw_bind rfl

/-! ## Several new nodes -/

theorem cloneNodes_grows (ids : List NodeId) (sound : grove.Sound)
    (present : ∀ id ∈ ids, grove.Has id) :
    Edit.Ensures (cloneNodes ids) grove
      (fun clones last => Enlarged grove last ∧
        ∃ kinds, ids.map grove.kind? = kinds.map some ∧ AllFresh grove kinds clones last)
      (Enlarged grove) := by
  induction ids generalizing grove with
  | nil => exact Edit.ensures_pure ⟨.refl _, [], rfl, .nil⟩
  | cons first rest induction =>
      rw [cloneNodes]
      apply Edit.Ensures.bind
      apply (cloneNode_grows sound).mono
      · rintro clone middle ⟨enlarged, kind, shown, fresh⟩
        apply Edit.Ensures.bind
        apply (induction (enlarged.sound sound) fun id member =>
          enlarged.has (present id (List.mem_cons_of_mem _ member))).mono
        · rintro others last ⟨further, kinds, cloned, allFresh⟩
          apply Edit.ensures_pure
          refine ⟨enlarged.trans further, kind :: kinds, ?_,
            (AllFresh.single fresh).append enlarged allFresh further⟩
          rw [List.map_cons, List.map_cons, shown, ← cloned]
          congr 1
          apply List.map_congr_left
          intro id member
          exact (enlarged.kind? (present id (List.mem_cons_of_mem _ member))).symm
        · intro last further
          exact enlarged.trans further
      · rintro _ rfl
        exact .refl _

/-! ## Attaching to new nodes -/

theorem Attached.grown {placement : Placement} (fair : placement.IsFair) (sound : grove.Sound)
    (grown : Grown filled start grove) (fills : filled parent)
    (recent : ∀ id ∈ source.nodes, grove.Has id ∧ ¬ start.Has id)
    (attached : Attached placement grove parent source child last) : Grown filled start last := by
  rcases attached.relisted with ⟨middle, adopted, bears, relisted, shape⟩
  have has : ∀ id ∈ source.nodes, grove.Has id := fun id member => (recent id member).1
  have between : Grown filled start middle := by
    cases adopted with
    | made created constructed =>
        have grafted := grown.graft constructed.grafted grown.size fun id member =>
          (recent id member).2
        apply grafted.adopt (fun present => constructed.added (grown.has present))
          constructed.has constructed.free (constructed.grafted.bears bears)
    | found same free acyclic =>
        rcases recent child (by rw [same, Source.nodes]; exact List.mem_singleton_self _) with
          ⟨present, added⟩
        exact grown.adopt added present free bears
  apply between.relist fills relisted shape
  · intro other member
    rw [(fair _ _).mem_iff, List.mem_cons] at member
    apply (adopted.link_iff has bears other).2
    rcases member with equal | listed
    · exact .inr equal
    · exact .inl (sound.listed listed)
  · rw [(fair _ _).nodup_iff, List.nodup_cons]
    exact ⟨sound.not_listed adopted.free, sound.nodup parent⟩

theorem appendChild_grows (sound : grove.Sound) (grown : Grown filled start grove)
    (fills : filled parent) (recent : ∀ id ∈ source.nodes, grove.Has id ∧ ¬ start.Has id) :
    Edit.Ensures (appendChild parent source) grove (fun _ last => Grown filled start last)
      (Grown filled start) := by
  rw [appendChild_eq_attach]
  apply (attach_ensures _ parent source sound fun id member => (recent id member).1).mono
  · intro child last attached
    exact attached.grown Placement.isFair_atEnd sound grown fills recent
  · intro last abandoned
    exact grown.graft abandoned.grafted grown.size fun id member => (recent id member).2

end XmlGrove
