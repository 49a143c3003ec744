import XmlGrove.Proofs.Grove.Operation

/-!
# What operations spare

An operation on nodes spares the documents: nodes keep their kind, and what is below an anchor
stays as it is, apart from a child that is taken out. New nodes spare all that there was.
-/

namespace XmlGrove

namespace Grove

variable {grove changed before middle after : Grove} {id child parent : NodeId}
  {touched : List NodeId} {held : List NodeId}

/-! ## Kinds -/

theorem kind?_eq_shape? :
    grove.kind? id =
      match grove.shape? id with
      | some (.leaf content) => some content.kind
      | some (.tag ..) | some (.unfinished ..) => some .tag
      | _ => none := by
  rw [kind?, shape?]
  cases grove.node? id with
  | none => rfl
  | some node => cases node <;> rfl

theorem kind?_of_shape? (same : changed.shape? id = grove.shape? id) :
    changed.kind? id = grove.kind? id := by
  rw [kind?_eq_shape?, kind?_eq_shape?, same]

theorem isTag_iff_kind? : grove.isTag id = true ↔ grove.kind? id = some .tag := by
  rw [isTag, tag?, kind?]
  cases grove.node? id with
  | none => simp
  | some node =>
      cases node with
      | leaf content => cases content <;> simp [Leaf.kind]
      | tag name attributes children => simp
      | unfinished name attributes => simp
      | anchor document children => simp

theorem kind?_of_leaf? {content : Leaf} (leaf : grove.leaf? id = some content) :
    grove.kind? id = some content.kind := by
  rw [leaf?] at leaf
  rw [kind?]
  split at leaf
  · rename_i present
    rw [present]
    cases leaf
    rfl
  · cases leaf

theorem not_isAnchor_of_kind? {kind : NodeKind} (present : grove.kind? id = some kind) :
    grove.isAnchor id = false := by
  rw [kind?] at present
  rw [isAnchor, anchored?]
  split at present
  · rename_i node
    rw [node]
    rfl
  · rename_i node
    rw [node]
    rfl
  · rename_i node
    rw [node]
    rfl
  · cases present

theorem has_of_kind? {kind : NodeKind} (present : grove.kind? id = some kind) : grove.Has id := by
  apply Decidable.byContradiction
  intro missing
  rw [kind?, node?_of_not_has missing] at present
  cases present

/-! ## Changes that spare documents -/

/-- The declarations of documents are processing instructions. -/
def Instructed (grove : Grove) : Prop :=
  ∀ id document declaration, grove.document? id = some document →
    document.declaration = some declaration → grove.kind? declaration = some .instruction

theorem Instructed.keep (instructed : before.Instructed)
    (documents : ∀ id, after.document? id = before.document? id)
    (kind : ∀ {id}, before.Has id → after.kind? id = before.kind? id) : after.Instructed := by
  intro id document declaration present declared
  rw [documents] at present
  have instruction := instructed id document declaration present declared
  rw [kind (has_of_kind? instruction), instruction]

/-- A change keeps the kinds of nodes and the documents, and it leaves the lists of those anchors
as they are that it does not touch. -/
structure Spared (touched : List NodeId) (before after : Grove) : Prop where
  size : before.entries.size ≤ after.entries.size
  anchors : ∀ id, (after.document? id).map (·.anchor) = (before.document? id).map (·.anchor)
  kind : ∀ {id}, before.Has id → after.kind? id = before.kind? id
  anchored : ∀ {id}, before.Has id → after.anchored? id = before.anchored? id
  children : ∀ {id}, before.isAnchor id = true → id ∉ touched →
    after.children id = before.children id
  free : ∀ {id}, before.isAnchor id = true → before.parentLink? id = none →
    after.parentLink? id = none
  sound : before.Sound → after.Sound
  instructed : before.Instructed → after.Instructed

theorem has_of_isAnchor (anchor : grove.isAnchor id = true) : grove.Has id := by
  rw [isAnchor] at anchor
  rcases Option.isSome_iff_exists.1 anchor with ⟨document, anchored⟩
  exact has_of_anchored? anchored

namespace Spared

theorem refl (grove : Grove) : Spared touched grove grove where
  size := Nat.le_refl _
  anchors _ := rfl
  kind _ := rfl
  anchored _ := rfl
  children _ _ := rfl
  free _ link := link
  sound sound := sound
  instructed instructed := instructed

theorem has (spared : Spared touched before after) (present : before.Has id) : after.Has id :=
  Nat.lt_of_lt_of_le present spared.size

theorem isAnchor (spared : Spared touched before after) (present : before.Has id) :
    after.isAnchor id = before.isAnchor id := by
  rw [Grove.isAnchor, Grove.isAnchor, spared.anchored present]

theorem isAnchor_of_isAnchor (spared : Spared touched before after)
    (anchor : before.isAnchor id = true) : after.isAnchor id = true := by
  rw [spared.isAnchor (has_of_isAnchor anchor)]
  exact anchor

theorem offers (spared : Spared touched before after) (offered : before.Offers id) :
    after.Offers id := by
  refine ⟨spared.has offered.1, ?_⟩
  rw [spared.isAnchor offered.1]
  exact offered.2

theorem trans (former : Spared touched before middle) (latter : Spared touched middle after) :
    Spared touched before after where
  size := Nat.le_trans former.size latter.size
  anchors id := by rw [latter.anchors, former.anchors]
  kind present := by rw [latter.kind (former.has present), former.kind present]
  anchored present := by rw [latter.anchored (former.has present), former.anchored present]
  children anchor apart := by
    rw [latter.children (former.isAnchor_of_isAnchor anchor) apart, former.children anchor apart]
  free anchor link := latter.free (former.isAnchor_of_isAnchor anchor) (former.free anchor link)
  sound sound := latter.sound (former.sound sound)
  instructed instructed := latter.instructed (former.instructed instructed)

/-- To touch a node that is no anchor is to touch none. -/
theorem of_plain (spared : Spared [parent] before after)
    (plain : before.isAnchor parent = false) : Spared [] before after where
  size := spared.size
  anchors := spared.anchors
  kind := spared.kind
  anchored := spared.anchored
  children {id} anchor _ := by
    apply spared.children anchor
    rw [List.mem_singleton]
    rintro rfl
    rw [plain] at anchor
    cases anchor
  free := spared.free
  sound := spared.sound
  instructed := spared.instructed

/-- What is noted about documents apart from their anchors may change. -/
theorem note {document : DocumentId} {change : Document → Document}
    (same : ∀ present, (change present).anchor = present.anchor)
    (declares : ∀ present declaration, (change present).declaration = some declaration →
      present.declaration = some declaration ∨ grove.kind? declaration = some .instruction) :
    Spared touched grove (grove.modifyDocument document change) where
  size := Nat.le_refl _
  anchors id := by
    rw [document?, document?, modifyDocument, Array.getElem?_modify]
    split
    · rw [Option.map_map]
      congr 1
      funext present
      exact same present
    · rfl
  kind _ := rfl
  anchored _ := rfl
  children _ _ := rfl
  free _ link := link
  sound sound := ⟨sound.target, sound.listed, sound.nodup⟩
  instructed instructed := by
    intro id present declaration known declared
    rw [document?, modifyDocument, Array.getElem?_modify] at known
    split at known
    · rcases Option.map_eq_some_iff.1 known with ⟨former, found, rfl⟩
      rcases declares former declaration declared with kept | instruction
      · exact instructed id former declaration found kept
      · exact instruction
    · exact instructed id present declaration known declared

/-- A change that keeps what nodes are, the links of anchors and the documents. -/
theorem of_shape? (size : after.entries.size = before.entries.size)
    (documents : after.documents = before.documents)
    (shape : ∀ id, before.Has id → after.shape? id = before.shape? id)
    (children : ∀ id, id ∉ touched → before.isAnchor id = true →
      after.children id = before.children id)
    (free : ∀ id, before.isAnchor id = true → before.parentLink? id = none →
      after.parentLink? id = none)
    (sound : before.Sound → after.Sound) : Spared touched before after where
  size := Nat.le_of_eq size.symm
  anchors id := by rw [document?, document?, documents]
  kind present := kind?_of_shape? (shape _ present)
  anchored present := anchored?_of_shape? (shape _ present)
  children anchor apart := children _ apart anchor
  free anchor link := free _ anchor link
  sound := sound
  instructed instructed := instructed.keep (fun id => by rw [document?, document?, documents])
    fun present => kind?_of_shape? (shape _ present)

end Spared

/-! ## New nodes -/

theorem Grafted.spared {base : Nat} (grafted : Grafted base held before after)
    (older : before.entries.size ≤ base + 1) (offered : ∀ id ∈ held, before.Offers id) :
    Spared touched before after where
  size := grafted.size_le
  anchors id := by rw [document?, document?, grafted.documents]
  kind present := kind?_of_shape? (shape?_of_node? (grafted.node? present))
  anchored present := anchored?_of_shape? (shape?_of_node? (grafted.node? present))
  children anchor _ := children_eq_of_node? (grafted.node? (has_of_isAnchor anchor))
  free {id} anchor link := by
    -- A graft links none but new nodes and those that it holds.
    cases linked : after.parentLink? id with
    | none => rfl
    | some owner =>
        have present := has_of_isAnchor anchor
        rw [Has] at present
        rcases grafted.link_cases linked with kept | ⟨_, recent, member, newer⟩
        · rw [link] at kept
          cases kept
        · by_cases early : id.index < base
          · rw [(offered id (member early)).2] at anchor
            cases anchor
          · have := newer (Nat.le_of_not_lt early)
            omega
  sound := grafted.sound
  instructed instructed :=
    instructed.keep (fun id => by rw [document?, document?, grafted.documents])
      fun present => kind?_of_shape? (shape?_of_node? (grafted.node? present))

theorem Spared.link (has : grove.Has child) (free : grove.parentLink? child = none)
    (plain : grove.isAnchor child = false) (bears : grove.Bears parent) :
    Spared touched grove (grove.setParent child (some parent)) where
  size := Nat.le_of_eq (size_modifyEntry _).symm
  anchors _ := rfl
  kind _ := kind?_of_shape? shape?_setParent
  anchored _ := anchored?_of_shape? shape?_setParent
  children _ _ := children_setParent
  free {id} anchor link := by
    rw [parentLink?_setParent_of_has has, if_neg]
    · exact link
    · rintro rfl
      rw [plain] at anchor
      cases anchor
  sound sound := sound.link has free bears
  instructed instructed :=
    instructed.keep (fun _ => rfl) fun _ => kind?_of_shape? shape?_setParent

/-! ## Lists of children -/

theorem Relisted.spared {children : List NodeId} (relisted : Relisted before after parent children)
    (shape : ∀ id, after.shape? id = before.shape? id)
    (linked : ∀ child ∈ children, before.parentLink? child = some parent)
    (distinct : children.Nodup) : Spared [parent] before after := by
  apply Spared.of_shape? relisted.size relisted.documents fun id _ => shape id
  · intro id apart _
    rw [List.mem_singleton] at apart
    exact children_eq_of_node? (relisted.other id apart)
  · intro id _ link
    rw [relisted.link]
    exact link
  · intro sound
    exact relisted.sound sound linked distinct

theorem Pruned.size {removed : List NodeId} (pruned : Pruned before after parent removed) :
    after.entries.size = before.entries.size := by
  apply Nat.le_antisymm
  · apply Nat.le_of_not_lt
    intro less
    have present : after.Has ⟨before.entries.size⟩ := less
    rw [has_of_shape? (pruned.shape _)] at present
    exact Nat.lt_irrefl _ present
  · apply Nat.le_of_not_lt
    intro less
    have present : before.Has ⟨after.entries.size⟩ := less
    rw [← has_of_shape? (pruned.shape _)] at present
    exact Nat.lt_irrefl _ present

theorem Pruned.spared {removed : List NodeId} (pruned : Pruned before after parent removed)
    (sound : before.Sound) : Spared [parent] before after := by
  apply Spared.of_shape? pruned.size pruned.documents fun id _ => pruned.shape id
  · intro id apart _
    rw [List.mem_singleton] at apart
    exact pruned.other id apart
  · intro id _ link
    rw [pruned.link, link, ite_self]
  · intro _
    exact pruned.sound sound

end Grove

open Grove

variable {grove middle last : Grove} {id child parent : NodeId} {source : Source}
  {held touched : List NodeId}

/-! ## Sources -/

theorem Constructed.spared (constructed : Constructed grove held child last)
    (offered : ∀ id ∈ held, grove.Offers id) : Spared touched grove last :=
  constructed.grafted.spared (Nat.le_succ _) offered

theorem Abandoned.spared (abandoned : Abandoned grove held last)
    (offered : ∀ id ∈ held, grove.Offers id) : Spared touched grove last :=
  abandoned.grafted.spared (Nat.le_succ _) offered

theorem Adopted.spared (adopted : Adopted grove parent source child last)
    (bears : grove.Bears parent) (offered : ∀ id ∈ source.nodes, grove.Offers id) :
    Spared touched grove last := by
  cases adopted with
  | made created constructed =>
      exact (constructed.spared offered).trans (.link constructed.has constructed.free
        constructed.offers.2 (constructed.grafted.bears bears))
  | found same free acyclic =>
      rcases offered child (by rw [same, Source.nodes]; exact List.mem_singleton_self _) with
        ⟨has, plain⟩
      exact .link has free plain bears

theorem Attached.relisted {placement : Placement}
    (attached : Attached placement grove parent source child last) :
    ∃ middle, Adopted grove parent source child middle ∧ grove.Bears parent ∧
      Relisted middle last parent (placement (grove.children parent) child) ∧
      ∀ id, last.shape? id = middle.shape? id := by
  rcases attached with ⟨middle, listed, adopted, rfl⟩
  rcases Option.isSome_iff_exists.1 listed with ⟨children, list⟩
  have bears := bears_of_childList? list
  have same := adopted.node? bears.1
  rw [children_eq_of_node? same]
  have present : middle.childList? parent = some children := by
    rw [childList?_eq_of_node? same, list]
  exact ⟨middle, adopted, bears, relisted_setChildren present, fun id => shape?_setChildren _⟩

theorem Attached.spared {placement : Placement} (fair : placement.IsFair) (sound : grove.Sound)
    (offered : ∀ id ∈ source.nodes, grove.Offers id)
    (attached : Attached placement grove parent source child last) :
    Spared [parent] grove last := by
  rcases attached.relisted with ⟨middle, adopted, bears, relisted, shape⟩
  have has : ∀ id ∈ source.nodes, grove.Has id := fun id member => (offered id member).1
  apply (adopted.spared bears offered).trans
  apply relisted.spared shape
  · intro other member
    rw [(fair _ _).mem_iff, List.mem_cons] at member
    apply (adopted.link_iff has bears other).2
    rcases member with equal | present
    · exact .inr equal
    · exact .inl (sound.listed present)
  · rw [(fair _ _).nodup_iff, List.nodup_cons]
    exact ⟨sound.not_listed adopted.free, sound.nodup parent⟩

theorem Attached.own {placement : Placement}
    (attached : Attached placement grove parent source child last) :
    last.children parent = placement (grove.children parent) child := by
  rcases attached.relisted with ⟨middle, _, _, relisted, _⟩
  exact relisted.own

/-! ## Operations on nodes -/

/-- An operation touches no documents, whether it succeeds or not. -/
def Edit.Sparing (operation : Edit α) (grove : Grove) : Prop :=
  Edit.Ensures operation grove (fun _ last => Spared [] grove last) (Spared [] grove)

namespace Edit

theorem sparing_pure (value : α) : Sparing (pure value) grove := Spared.refl grove

theorem sparing_throw (fault : Fault) : Sparing (throw fault : Edit α) grove := Spared.refl grove

theorem Sparing.bind {first : Edit α} {next : α → Edit β}
    (former : Ensures first grove
      (fun value middle => Spared [] grove middle ∧ Sparing (next value) middle)
      (Spared [] grove)) : Sparing (first >>= next) grove := by
  apply Ensures.bind
  apply former.mono
  · rintro value middle ⟨spared, latter⟩
    apply latter.mono
    · intro result last further
      exact spared.trans further
    · intro last further
      exact spared.trans further
  · intro last spared
    exact spared

theorem Sparing.seq {first : Edit α} {next : α → Edit β} (former : Sparing first grove)
    (latter : ∀ value middle, Spared [] grove middle → Sparing (next value) middle) :
    Sparing (first >>= next) grove := by
  apply Sparing.bind
  apply former.mono
  · intro value middle spared
    exact ⟨spared, latter value middle spared⟩
  · intro last spared
    exact spared

theorem Sparing.bind_pure {first : Edit α} {transform : α → β} (sparing : Sparing first grove) :
    Sparing (first >>= fun value => pure (transform value)) grove :=
  sparing.seq fun _ _ _ => sparing_pure _

/-- An operation that only looks at the grove, and another one after it. -/
theorem Sparing.bind_looking {first : Edit α} {next : α → Edit β}
    (looks : Ensures first grove (fun value last => last = grove ∧ Sparing (next value) grove)
      (fun last => last = grove)) : Sparing (first >>= next) grove := by
  apply Ensures.bind
  apply looks.mono
  · rintro value _ ⟨rfl, latter⟩
    exact latter
  · rintro _ rfl
    exact Spared.refl _

end Edit

theorem sparing_createLeaf (content : Leaf) (sound : grove.Sound) :
    (createLeaf content).Sparing grove := by
  rw [createLeaf]
  apply Edit.Ensures.bind
  apply Edit.ensures_ofExcept _ (Spared.refl grove)
  intro checked _
  apply Edit.ensures_create
  apply (constructed_leaf sound checked).spared
  intro id member
  cases member

theorem sparing_createTag (name : GivenName) (attributes : List (GivenName × Option String))
    (sources : List Source) (sound : grove.Sound)
    (offered : ∀ id ∈ Source.allNodes sources, grove.Offers id) :
    (createTag name attributes sources).Sparing grove := by
  have usable : ∀ id ∈ (Template.define name attributes sources).nodes, grove.Offers id := by
    rw [Template.nodes]
    exact offered
  apply (instantiate_ensures _ grove sound fun id member => (usable id member).1).mono
  · intro child last constructed
    exact constructed.spared usable
  · intro last abandoned
    exact abandoned.spared usable

theorem sparing_plant (tree : Tree) (sound : grove.Sound) : (plant tree).Sparing grove := by
  apply (plant_ensures tree grove sound (Spared [] grove)).mono
  · intro child last constructed
    apply constructed.spared
    intro id member
    cases member
  · intro last spared
    exact spared

theorem sparing_cloneNode (deep : Bool) (id : NodeId) (sound : grove.Sound) :
    (cloneNode deep id).Sparing grove := by
  apply (cloneNode_ensures deep id grove sound).mono
  · intro child last constructed
    apply constructed.spared
    intro id member
    cases member
  · rintro _ rfl
    exact Spared.refl _

theorem sparing_attach {placement : Placement} (fair : placement.IsFair) (sound : grove.Sound)
    (plain : grove.isAnchor parent = false) (offered : ∀ id ∈ source.nodes, grove.Offers id) :
    (attach placement parent source).Sparing grove := by
  apply (attach_ensures placement parent source sound fun id member => (offered id member).1).mono
  · intro child last attached
    exact (attached.spared fair sound offered).of_plain plain
  · intro last abandoned
    exact abandoned.spared offered

theorem clonedSource_spares (cloned : Bool) (sound : grove.Sound)
    (offered : ∀ id ∈ source.nodes, grove.Offers id) :
    Edit.Ensures (clonedSource cloned source) grove
      (fun ready middle => Spared [] grove middle ∧ ∀ id ∈ ready.nodes, middle.Offers id)
      (Spared [] grove) := by
  rw [clonedSource]
  apply Edit.ensures_ite
  · intro _
    cases source with
    | node id =>
        apply Edit.Ensures.bind
        apply (cloneNode_ensures true id grove sound).mono
        · intro clone middle constructed
          apply Edit.ensures_pure
          constructor
          · apply constructed.spared
            intro other member
            cases member
          · intro other member
            rw [Source.nodes, List.mem_singleton] at member
            rw [member]
            exact constructed.offers
        · rintro _ rfl
          exact Spared.refl _
    | text content => exact Edit.ensures_pure ⟨.refl _, offered⟩
    | template definition => exact Edit.ensures_pure ⟨.refl _, offered⟩
    | unfit => exact Edit.ensures_pure ⟨.refl _, offered⟩
  · intro _
    exact Edit.ensures_pure ⟨.refl _, offered⟩

theorem sparing_attachEach {placement : Placement} (fair : placement.IsFair) (cloned : Bool)
    (sources : List Source) (sound : grove.Sound) (offered : grove.Offers parent)
    (usable : ∀ id ∈ Source.allNodes sources, grove.Offers id) :
    (attachEach placement cloned parent sources).Sparing grove := by
  induction sources generalizing grove with
  | nil => exact Edit.sparing_pure _
  | cons first rest induction =>
      rw [attachEach, attachNext, bind_assoc]
      apply Edit.Sparing.bind
      apply (clonedSource_spares cloned sound fun id member =>
        usable id (List.mem_append_left _ member)).mono
      · rintro ready middle ⟨spared, ready⟩
        refine ⟨spared, ?_⟩
        apply (sparing_attach fair (spared.sound sound) (spared.offers offered).2 ready).seq
        intro child between further
        have both := spared.trans further
        exact (induction (both.sound sound) (both.offers offered) fun id member =>
          both.offers (usable id (List.mem_append_right _ member))).bind_pure
      · intro last spared
        exact spared

theorem sparing_insertEachAt (cloned : Bool) (index : Int) (sources : List Source)
    (sound : grove.Sound) (offered : grove.Offers parent)
    (usable : ∀ id ∈ Source.allNodes sources, grove.Offers id) :
    (insertEachAt cloned parent index sources).Sparing grove := by
  rw [insertEachAt]
  apply Edit.Sparing.bind_looking
  apply (requireChildren_ensures parent grove).mono
  · rintro children _ ⟨rfl, listed⟩
    refine ⟨rfl, ?_⟩
    split
    · exact Edit.sparing_throw _
    · rename_i position found
      apply (sparing_attachEach (Placement.isFair_atIndex position) cloned sources.reverse sound
        offered _).bind_pure
      intro id member
      rcases mem_allNodes.1 member with ⟨source, listed, held⟩
      exact usable id (mem_allNodes.2 ⟨source, List.mem_reverse.1 listed, held⟩)
  · intro last same
    exact same

theorem sparing_removeSibling (child : NodeId) (sound : grove.Sound)
    (plain : grove.isAnchor parent = false) : (removeSibling parent child).Sparing grove := by
  apply (removeSibling_ensures parent child sound).mono
  · intro _ last pruned
    exact (Pruned.spared pruned sound).of_plain plain
  · rintro _ rfl
    exact Spared.refl _

theorem sparing_removeChild? (child : NodeId) (sound : grove.Sound)
    (plain : grove.isAnchor parent = false) : (removeChild? parent child).Sparing grove := by
  rw [removeChild?]
  apply Edit.Sparing.bind_looking
  apply Edit.ensures_get
  refine ⟨rfl, ?_⟩
  apply Edit.ensures_ite
  · intro linked
    exact (sparing_removeSibling child sound plain).bind_pure
  · intro _
    exact Edit.sparing_pure _

theorem sparing_removeChildAt? (index : Int) (sound : grove.Sound)
    (plain : grove.isAnchor parent = false) : (removeChildAt? parent index).Sparing grove := by
  rw [removeChildAt?]
  apply Edit.Sparing.bind_looking
  apply (requireChildren_ensures parent grove).mono
  · rintro children _ ⟨rfl, listed⟩
    refine ⟨rfl, ?_⟩
    split
    · exact Edit.sparing_pure _
    · rename_i child found
      exact (sparing_removeSibling child sound plain).bind_pure
  · intro last same
    exact same

theorem Sequence.mem_of_get? {items : List α} {item : α} {index : Int}
    (found : Sequence.get? items index = some item) : item ∈ items := by
  rcases Option.bind_eq_some_iff.1 found with ⟨position, _, present⟩
  exact List.mem_of_getElem? present

theorem sparing_deleteChild (index : Int) (sound : grove.Sound)
    (plain : grove.isAnchor parent = false) : (deleteChild parent index).Sparing grove := by
  rw [deleteChild]
  apply Edit.Sparing.bind_looking
  apply (requireChildren_ensures parent grove).mono
  · rintro children _ ⟨rfl, listed⟩
    refine ⟨rfl, ?_⟩
    split
    · exact Edit.sparing_throw _
    · rename_i child found
      have linked := sound.listed (by
        rw [children_of_childList? listed]
        exact Sequence.mem_of_get? found)
      rw [detach]
      apply Edit.Sparing.bind_looking
      apply Edit.ensures_get
      refine ⟨rfl, ?_⟩
      rw [linked]
      apply Edit.ensures_ite
      · intro rooted
        exact Edit.Ensures.throw_bind (Spared.refl _)
      · intro _
        exact sparing_removeSibling child sound plain
  · intro last same
    exact same

theorem sparing_forM_removeSibling (children : List NodeId) (sound : grove.Sound)
    (offered : grove.Offers parent) : (children.forM (removeSibling parent)).Sparing grove := by
  induction children generalizing grove with
  | nil => exact Edit.sparing_pure _
  | cons first rest induction =>
      change (removeSibling parent first >>= fun _ =>
        rest.forM (removeSibling parent)).Sparing grove
      apply (sparing_removeSibling first sound offered.2).seq
      intro _ middle spared
      exact induction (spared.sound sound) (spared.offers offered)

theorem sparing_clearChildren (sound : grove.Sound) (plain : grove.isAnchor id = false) :
    (clearChildren id).Sparing grove := by
  rw [clearChildren]
  apply Edit.Sparing.bind_looking
  apply (requireChildren_ensures id grove).mono
  · rintro children _ ⟨rfl, listed⟩
    refine ⟨rfl, ?_⟩
    apply Edit.ensures_modify
    exact (Pruned.spared (pruned_clear listed) sound).of_plain plain
  · intro last same
    exact same

theorem sparing_setTextContent (content : Option String) (sound : grove.Sound)
    (offered : grove.Offers id) : (setTextContent id content).Sparing grove := by
  rw [setTextContent.eq_def]
  apply Edit.Sparing.bind_looking
  apply (requireChildren_ensures id grove).mono
  · rintro children _ ⟨rfl, listed⟩
    refine ⟨rfl, ?_⟩
    apply Edit.Sparing.bind_looking
    apply Edit.ensures_get
    refine ⟨rfl, ?_⟩
    apply (sparing_forM_removeSibling _ sound offered).seq
    intro _ middle spared
    cases content with
    | none => exact Edit.sparing_pure _
    | some text =>
        apply Edit.Sparing.bind_pure
        rw [insertChild_eq_attach]
        apply sparing_attach (Placement.isFair_atIndex 0) (spared.sound sound)
          (spared.offers offered).2
        intro other member
        cases member
  · intro last same
    exact same

end XmlGrove
