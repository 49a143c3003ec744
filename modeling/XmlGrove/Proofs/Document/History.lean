import XmlGrove.Proofs.Document.Loading

/-!
# Histories of documents

Documents are loaded, and then they and all nodes are changed, in any order. A document has its
shape all the time: comments and processing instructions, and then its root. There is one
exception, which is about a document right when it is loaded: from an element tree whose root
follows something else.
-/

namespace XmlGrove

open Grove

/-! ## Other names and contents -/

/-- A node got other names, attributes or contents. -/
inductive Node.Relabeled : Node → Node → Prop
  | leaf {former latter : Leaf} (kind : latter.kind = former.kind) :
      Relabeled (.leaf former) (.leaf latter)
  | tag {former latter : Name} {attributes others : Attributes} {children : List NodeId} :
      Relabeled (.tag former attributes children) (.tag latter others children)
  | unfinished {former latter : Name} {attributes others : Attributes} :
      Relabeled (.unfinished former attributes) (.unfinished latter others)
  | anchor {document : DocumentId} {children : List NodeId} :
      Relabeled (.anchor document children) (.anchor document children)

namespace Grove

variable {grove : Grove} {id other : NodeId} {touched : List NodeId} {change : Node → Node}

/-- The grove with a node changed. -/
def modifyNode (grove : Grove) (id : NodeId) (change : Node → Node) : Grove :=
  grove.modifyEntry id fun entry => { entry with node := change entry.node }

theorem node?_modifyNode :
    (grove.modifyNode id change).node? other =
      if other = id then (grove.node? other).map change else grove.node? other := by
  rw [node?, modifyNode, entry?_modifyEntry]
  split
  · rw [node?, Option.map_map, Option.map_map]
    rfl
  · rfl

/-- All that there is to see at a node apart from its names, attributes and contents. -/
structure Alike (before after : Grove) (id : NodeId) : Prop where
  kind : after.kind? id = before.kind? id
  anchored : after.anchored? id = before.anchored? id
  children : after.children id = before.children id
  leaf : (after.leaf? id).isSome = (before.leaf? id).isSome

theorem Alike.of_node? {before after : Grove} (same : after.node? id = before.node? id) :
    Alike before after id where
  kind := by rw [kind?, kind?, same]
  anchored := by rw [anchored?, anchored?, same]
  children := children_eq_of_node? same
  leaf := by rw [leaf?, leaf?, same]

theorem Alike.of_relabeled {before after : Grove} {former latter : Node}
    (relabeled : former.Relabeled latter) (present : before.node? id = some former)
    (changed : after.node? id = some latter) : Alike before after id := by
  cases relabeled with
  | leaf kind =>
      constructor <;> simp [kind?, anchored?, Grove.children, childList?, leaf?, present, changed,
        kind]
  | tag =>
      constructor <;> simp [kind?, anchored?, Grove.children, childList?, leaf?, present, changed]
  | unfinished =>
      constructor <;> simp [kind?, anchored?, Grove.children, childList?, leaf?, present, changed]
  | anchor => exact .of_node? (changed.trans present.symm)

theorem alike_modifyNode
    (relabels : ∀ node, grove.node? id = some node → node.Relabeled (change node)) :
    Alike grove (grove.modifyNode id change) other := by
  have changed : (grove.modifyNode id change).node? other = _ := node?_modifyNode
  split at changed
  · rename_i equal
    rw [← equal] at relabels
    cases present : grove.node? other with
    | none =>
        rw [present] at changed
        exact .of_node? (changed.trans present.symm)
    | some node =>
        rw [present] at changed
        exact .of_relabeled (relabels node present) present changed
  · exact .of_node? changed

theorem parentLink?_modifyNode :
    (grove.modifyNode id change).parentLink? other = grove.parentLink? other :=
  parentLink?_modifyEntry fun _ => rfl

theorem Spared.relabel
    (relabels : ∀ node, grove.node? id = some node → node.Relabeled (change node)) :
    Spared touched grove (grove.modifyNode id change) where
  size := Nat.le_of_eq (size_modifyEntry _).symm
  anchors _ := rfl
  kind _ := (alike_modifyNode relabels).kind
  anchored _ := (alike_modifyNode relabels).anchored
  children _ _ := (alike_modifyNode relabels).children
  free _ link := by rw [parentLink?_modifyNode, link]
  instructed instructed :=
    instructed.keep (fun _ => rfl) fun _ => (alike_modifyNode relabels).kind
  sound sound := by
    constructor
    · intro child parent linked
      rw [parentLink?_modifyNode] at linked
      rcases sound.target linked with ⟨has, leafless⟩
      refine ⟨?_, ?_⟩
      · rw [Has, modifyNode, size_modifyEntry]
        exact has
      · rw [← Option.not_isSome_iff_eq_none, (alike_modifyNode relabels).leaf, leafless]
        exact Bool.false_ne_true
    · intro child parent listed
      rw [(alike_modifyNode relabels).children] at listed
      rw [parentLink?_modifyNode]
      exact sound.listed listed
    · intro parent
      rw [(alike_modifyNode relabels).children]
      exact sound.nodup parent

theorem Spared.setName (name : Name) : Spared touched grove (grove.setName id name) := by
  change Spared touched grove (grove.modifyNode id fun node => node.withName name)
  apply Spared.relabel
  intro node _
  cases node with
  | leaf content => exact .leaf rfl
  | tag => exact .tag
  | unfinished => exact .unfinished
  | anchor => exact .anchor

theorem Spared.setAttributes (attributes : Attributes) :
    Spared touched grove (grove.setAttributes id attributes) := by
  change Spared touched grove (grove.modifyNode id fun node => node.withAttributes attributes)
  apply Spared.relabel
  intro node _
  cases node with
  | leaf content => exact .leaf rfl
  | tag => exact .tag
  | unfinished => exact .unfinished
  | anchor => exact .anchor

theorem Spared.setLeaf {former content : Leaf} (present : grove.leaf? id = some former)
    (kind : content.kind = former.kind) :
    Spared touched grove (grove.setNode id (.leaf content)) := by
  change Spared touched grove (grove.modifyNode id fun _ => .leaf content)
  apply Spared.relabel
  intro node found
  rw [leaf?, found] at present
  cases node with
  | leaf other =>
      cases present
      exact .leaf kind
  | tag => cases present
  | unfinished => cases present
  | anchor => cases present

end Grove

variable {grove : Grove}

theorem sparing_setDeclaration (id : DocumentId) (declaration : Option NodeId) :
    (setDeclaration id declaration).Sparing grove := by
  rw [setDeclaration]
  apply Edit.Sparing.bind_looking
  apply Edit.ensures_get
  refine ⟨rfl, ?_⟩
  apply Edit.ensures_ite
  · intro acceptable
    apply Edit.ensures_set
    refine .note (fun _ => rfl) fun _ node noted => .inr ?_
    cases noted
    rw [Option.all_some] at acceptable
    split at acceptable
    · rename_i leaf
      exact kind?_of_leaf? leaf
    · cases acceptable
  · intro _
    exact Edit.Ensures.throw_bind (.refl _)

theorem sparing_declareAnew (id : DocumentId) (version encoding : String) :
    (declareAnew id version encoding).Sparing grove := by
  rw [declareAnew]
  apply Edit.Sparing.bind_looking
  apply (requireDocument_ensures id).mono
  · rintro document _ ⟨rfl, _⟩
    refine ⟨rfl, ?_⟩
    apply Edit.ensures_ite
    · intro _
      rw [createDeclaration]
      apply Edit.Ensures.bind
      apply (createLeaf_ensures _).mono
      · rintro declaration middle ⟨enlarged, fresh⟩
        apply Edit.ensures_modify
        apply enlarged.spared.trans
        refine .note (fun _ => rfl) fun _ other noted => .inr ?_
        cases noted
        exact fresh.kind
      · rintro _ rfl
        exact .refl _
    · intro _
      exact Edit.sparing_pure _
  · intro last same
    exact same

/-! ## Acts -/

/-- Something that is done to documents or nodes, or done in order to get a document. -/
inductive Act where
  | operate (operation : Operation)
  | load (services : Loading.Services) (loaders : List Loading.Loader) (options : ParserOptions)
      (sourceUrl : Option Value) (source : Loading.LoadSource) (notes : List String)
  | rename (id : NodeId) (name : Name)
  | setAttributes (id : NodeId) (attributes : Attributes)
  | setLeaf (id : NodeId) (content : Leaf)
  | setDeclaration (id : DocumentId) (declaration : Option NodeId)
  | declareAnew (id : DocumentId) (version encoding : String)
  | revise (id : DocumentId) (version encoding sourceUrl : Value)

namespace Act

/-- The grove after an act, whether that succeeded or raised a fault. -/
def apply (act : Act) (grove : Grove) : Grove :=
  match act with
  | operate operation => operation.apply grove
  | load _ loaders options sourceUrl source notes =>
    (Activity.outcome (Loading.loadDocument loaders options sourceUrl source)
      { grove := grove, notes := notes }).2.grove
  | rename id name => grove.setName id name
  | setAttributes id attributes => grove.setAttributes id attributes
  | setLeaf id content => grove.setNode id (.leaf content)
  | setDeclaration id declaration => (XmlGrove.setDeclaration id declaration).after grove
  | declareAnew id version encoding => (XmlGrove.declareAnew id version encoding).after grove
  | revise id version encoding sourceUrl => grove.modifyDocument id fun document =>
      { document with version := version, encoding := encoding, sourceUrl := sourceUrl }

/-- Documents are made by the usual loaders only, existing nodes are handed over, and a leaf
remains one of its kind. -/
def Available (act : Act) (grove : Grove) : Prop :=
  match act with
  | operate operation =>
    operation.Available grove ∧ ∀ parts, operation ≠ .createDocument parts
  | load services loaders _ _ _ _ => ∀ loader ∈ loaders, loader ∈ Loading.standardLoaders services
  | setLeaf id content =>
    ∃ former, grove.leaf? id = some former ∧ content.kind = former.kind
  | _ => True

/-- A document is loaded from a tree whose root follows an element or a reference to an
entity. -/
def Crowds (act : Act) (grove : Grove) : Prop :=
  match act with
  | load _ loaders options sourceUrl source notes => source.isCrowded = true ∧
      ∃ id last, Activity.outcome (Loading.loadDocument loaders options sourceUrl source)
        { grove := grove, notes := notes } = (.ok id, last)
  | _ => False

end Act

/-- Tell whether an operation is about nodes only, wherever they are. -/
def Operation.isPlain : Operation → Bool
  | .detach _ | .createDocument _ | .cloneDocument _ | .setRoot .. | .appendToPrologue ..
  | .insertIntoPrologue .. | .prependToPrologue .. | .removeFromPrologue .. | .clearPrologue _ =>
    false
  | _ => true

theorem Operation.spared_apply {operation : Operation} (sound : grove.Sound)
    (available : operation.Available grove) (plain : operation.isPlain = true) :
    Spared [] grove (operation.apply grove) := by
  cases operation with
  | createLeaf content => exact (sparing_createLeaf content sound).after
  | createTag name attributes sources =>
      exact (sparing_createTag name attributes sources sound available).after
  | plant tree => exact (sparing_plant tree sound).after
  | clone deep id => exact (sparing_cloneNode deep id sound).after
  | append cloned parent sources =>
      rw [append_eq_attachEach]
      have offered := available parent List.mem_cons_self
      have usable : ∀ id ∈ Source.allNodes sources, grove.Offers id :=
        fun id member => available id (List.mem_cons_of_mem _ member)
      exact (sparing_attachEach Placement.isFair_atEnd cloned sources sound offered usable).after
  | insert cloned parent index sources =>
      rw [insert_eq_insertEachAt]
      have offered := available parent List.mem_cons_self
      have usable : ∀ id ∈ Source.allNodes sources, grove.Offers id :=
        fun id member => available id (List.mem_cons_of_mem _ member)
      exact (sparing_insertEachAt cloned index sources sound offered usable).after
  | deleteChild parent index =>
      exact (sparing_deleteChild index sound (available parent List.mem_cons_self).2).after
  | removeChild parent child =>
      exact (sparing_removeChild? child sound (available parent List.mem_cons_self).2).after
  | removeChildAt parent index =>
      exact (sparing_removeChildAt? index sound (available parent List.mem_cons_self).2).after
  | clearChildren parent =>
      exact (sparing_clearChildren sound (available parent List.mem_cons_self).2).after
  | setTextContent parent content =>
      exact (sparing_setTextContent content sound (available parent List.mem_cons_self)).after
  | _ => cases plain

theorem Operation.regular_apply {operation : Operation} (regular : grove.Regular [])
    (available : operation.Available grove) (made : ∀ parts, operation ≠ .createDocument parts) :
    (operation.apply grove).Regular [] := by
  cases operation with
  | detach id => exact (regulates_detach regular).after
  | createDocument parts => exact absurd rfl (made parts)
  | cloneDocument id => exact (regulates_cloneDocument id regular).after
  | setRoot id root =>
      have regulates : (XmlGrove.setRoot id root).Regulates grove := by
        apply (setRoot_ensures id root regular).mono
        · intro _ last rerooted
          exact rerooted.regular
        · rintro _ rfl
          exact regular
      exact regulates.after
  | appendToPrologue id node => exact (Prologue.regulates_append id regular).after
  | insertIntoPrologue id index node => exact (Prologue.regulates_insert id index regular).after
  | prependToPrologue id node => exact (Prologue.regulates_insert id 0 regular).after
  | removeFromPrologue id node => exact (Prologue.regulates_remove id regular).after
  | clearPrologue id => exact (Prologue.regulates_clear id regular).after
  | _ => exact regular.spare_all (spared_apply regular.sound available rfl)

theorem Act.spared_apply {act : Act} (available : act.Available grove)
    (operates : ∀ operation, act ≠ .operate operation)
    (loads : ∀ services loaders options sourceUrl source notes,
      act ≠ .load services loaders options sourceUrl source notes) :
    Spared [] grove (act.apply grove) := by
  cases act with
  | operate operation => exact absurd rfl (operates operation)
  | load => exact absurd rfl (loads _ _ _ _ _ _)
  | rename id name => exact .setName name
  | setAttributes id attributes => exact .setAttributes attributes
  | setLeaf id content =>
      rcases available with ⟨former, present, kind⟩
      exact .setLeaf present kind
  | setDeclaration id declaration => exact (sparing_setDeclaration id declaration).after
  | declareAnew id version encoding => exact (sparing_declareAnew id version encoding).after
  | revise id version encoding sourceUrl => exact .note (fun _ => rfl) fun _ _ => .inl

/-- Loading either fails and adds nodes at most, or it loads a document. -/
theorem Act.load_cases {services : Loading.Services} {loaders : List Loading.Loader}
    (options : ParserOptions) (sourceUrl : Option Value) (source : Loading.LoadSource)
    (notes : List String) (usual : ∀ loader ∈ loaders, loader ∈ Loading.standardLoaders services)
    (sound : grove.Sound) :
    (∃ fault last, Activity.outcome (Loading.loadDocument loaders options sourceUrl source)
        { grove := grove, notes := notes } = (.error fault, last) ∧
      Enlarged grove last.grove) ∨
    ∃ id last, Activity.outcome (Loading.loadDocument loaders options sourceUrl source)
        { grove := grove, notes := notes } = (.ok id, last) ∧
      Loading.Loaded source grove id last.grove := by
  let start : Loading.State := { grove := grove, notes := notes }
  have fair : ∀ loader ∈ loaders, loader.IsFair :=
    fun loader member => Loading.isFair_of_mem_standardLoaders (usual loader member)
  have ensures : Activity.Ensures (Loading.loadDocument loaders options sourceUrl source) start
      _ _ := Loading.loadDocument_ensures loaders options sourceUrl source fair sound
  rw [Activity.Ensures] at ensures
  split at ensures
  · rename_i id last equal
    exact .inr ⟨id, last, equal, ensures⟩
  · rename_i fault last equal
    exact .inl ⟨fault, last, equal, ensures⟩

theorem Act.regular_apply {act : Act} (regular : grove.Regular []) (available : act.Available grove)
    (uncrowded : ¬ act.Crowds grove) : (act.apply grove).Regular [] := by
  have sound := regular.sound
  cases act with
  | operate operation => exact operation.regular_apply regular available.1 available.2
  | load services loaders options sourceUrl source notes =>
      rw [apply]
      rcases load_cases options sourceUrl source notes available sound with
        ⟨fault, last, failed, enlarged⟩ | ⟨id, last, succeeded, loaded⟩
      · rw [failed]
        exact regular.spare_all enlarged.spared
      · rw [succeeded]
        apply loaded.regular regular
        rw [← Bool.not_eq_true]
        intro crowded
        exact uncrowded ⟨crowded, id, last, succeeded⟩
  | _ =>
      apply regular.spare_all
      exact Act.spared_apply available (fun _ equal => (by cases equal))
        fun _ _ _ _ _ _ equal => (by cases equal)

/-! ## Shapes -/

namespace Grove

variable {id : DocumentId} {document : Document} {node anchor root : NodeId}

/-- A document consists of comments and processing instructions and its root, which is a tag
node. None of them has a parent, and all of them belong to the document. -/
structure HasShape (grove : Grove) (id : DocumentId) : Prop where
  exists_root : ∃ root, grove.anchoredNodes id = grove.prologue id ++ [root] ∧
    grove.documentRoot? id = some root ∧ grove.kind? root = some .tag
  precedes : ∀ node ∈ grove.prologue id, grove.Precedes node
  orphaned : ∀ node ∈ grove.anchoredNodes id, grove.parent? node = none
  owned : ∀ node ∈ grove.anchoredNodes id, grove.documentOf? node = some id

theorem top_of_link_of_free (linked : grove.parentLink? node = some anchor)
    (free : grove.parentLink? anchor = none) : grove.top node = anchor := by
  have present := has_of_parentLink? linked
  rw [Has] at present
  rw [top, lineage, linked]
  cases size : grove.entries.size with
  | zero =>
      rw [size] at present
      exact absurd present (Nat.not_lt_zero _)
  | succ bound => rw [follow, free, follow_none, List.getLast?_singleton, Option.getD_some]

theorem parent?_of_free (free : grove.parentLink? node = none) : grove.parent? node = none := by
  rw [parent?, free, Option.filter_none]

/-- A tag node without a parent belongs to no document. -/
theorem documentOf?_of_free (free : grove.parentLink? node = none)
    (tag : grove.kind? node = some .tag) : grove.documentOf? node = none := by
  have plain := not_isAnchor_of_kind? tag
  rw [isAnchor, Option.isSome_eq_false_iff, Option.isNone_iff_eq_none] at plain
  rw [documentOf?, top, lineage_of_free free, List.getLast?_nil, Option.getD_none, plain]

theorem Regular.hasShape (regular : grove.Regular [])
    (present : grove.document? id = some document) : grove.HasShape id := by
  rcases regular.exists_root present with ⟨root, list, found, precedes, tag⟩
  have linked : ∀ node ∈ grove.anchoredNodes id, grove.parentLink? node = some document.anchor := by
    intro node member
    rw [anchoredNodes_eq present] at member
    exact regular.sound.listed member
  refine ⟨⟨root, (anchoredNodes_eq present).trans list, found, tag⟩, precedes, ?_, ?_⟩
  · intro node member
    rw [parent?, linked node member, Option.filter_some,
      isAnchor_of_document? regular.anchored present]
    rfl
  · intro node member
    rw [documentOf?, top_of_link_of_free (linked node member) (regular.free id document present)]
    exact regular.anchored id document present

theorem HasShape.ordered (shape : grove.HasShape id) : grove.Ordered (grove.anchoredNodes id) := by
  rcases shape.exists_root with ⟨root, list, _, tag⟩
  exact ⟨_, root, list, shape.precedes, tag⟩

/-- The root of a document was replaced: the former one is a tree of its own now. -/
structure Replaced (before : Grove) (id : DocumentId) (root : NodeId) (after : Grove) : Prop where
  shape : after.HasShape id
  root : after.documentRoot? id = some root
  prologue : after.prologue id = before.prologue id
  orphaned : ∀ former, before.documentRoot? id = some former → after.parent? former = none
  disowned : ∀ former, before.documentRoot? id = some former → after.documentOf? former = none

end Grove

/-- The groves that histories lead to. -/
inductive Reached (allowed : Act → Grove → Prop) : Grove → Prop
  | start : Reached allowed {}
  | step {grove : Grove} {act : Act} (reached : Reached allowed grove)
      (available : act.Available grove) (admitted : allowed act grove) :
      Reached allowed (act.apply grove)

theorem Reached.mono {allowed wider : Act → Grove → Prop} (reached : Reached allowed grove)
    (weaken : ∀ act grove, allowed act grove → wider act grove) : Reached wider grove := by
  induction reached with
  | start => exact .start
  | step reached available admitted induction =>
      exact induction.step available (weaken _ _ admitted)

/-- Links and lists fit together all the time, crowded documents or not. -/
theorem Reached.sound_and_anchored {allowed : Act → Grove → Prop}
    (reached : Reached allowed grove) : grove.Sound ∧ grove.Anchored := by
  induction reached with
  | start => exact ⟨regular_empty.sound, regular_empty.anchored⟩
  | @step grove act reached available _ induction =>
      rcases induction with ⟨sound, anchored⟩
      cases act with
      | operate operation =>
          have moves := (operation.changed sound anchored available.1).moves
          exact ⟨moves.sound sound, moves.anchored anchored⟩
      | load services loaders options sourceUrl source notes =>
          rw [Act.apply]
          rcases Act.load_cases options sourceUrl source notes available sound with
            ⟨fault, last, failed, enlarged⟩ | ⟨id, last, succeeded, loaded⟩
          · rw [failed]
            exact ⟨enlarged.sound sound, enlarged.keeps_anchored anchored⟩
          · rw [succeeded]
            exact ⟨loaded.sound, loaded.anchored anchored⟩
      | _ =>
          have spared := Act.spared_apply available (fun _ equal => (by cases equal))
            fun _ _ _ _ _ _ equal => (by cases equal)
          exact ⟨spared.sound sound, spared.keeps_anchored anchored⟩

theorem Reached.regular (reached : Reached (fun act grove => ¬ act.Crowds grove) grove) :
    grove.Regular [] := by
  induction reached with
  | start => exact regular_empty
  | step reached available uncrowded induction =>
      exact Act.regular_apply induction available uncrowded

theorem exists_document_of_root {id : DocumentId} {root : NodeId}
    (found : grove.documentRoot? id = some root) :
    ∃ document, grove.document? id = some document := by
  cases present : grove.document? id with
  | none =>
      rw [documentRoot?, anchoredNodes, present] at found
      cases found
  | some document => exact ⟨document, rfl⟩

theorem Rerooted.replaced {id : DocumentId} {root : NodeId} {last : Grove}
    (rerooted : Rerooted grove id root last) : Replaced grove id root last := by
  rcases exists_document_of_root rerooted.root with ⟨document, present⟩
  refine ⟨rerooted.regular.hasShape present, rerooted.root, rerooted.prologue, ?_, ?_⟩
  · intro former found
    exact parent?_of_free (rerooted.free former found)
  · intro former found
    have tag := isTag_iff_kind?.1 (List.find?_some found)
    apply documentOf?_of_free (rerooted.free former found)
    rw [rerooted.kind (has_of_kind? tag), tag]

/-- A crowded document does not get its shape. -/
theorem Act.not_hasShape_of_crowds {act : Act} (regular : grove.Regular [])
    (available : act.Available grove) (crowds : act.Crowds grove) :
    ∃ id document, (act.apply grove).document? id = some document ∧
      ¬ (act.apply grove).HasShape id := by
  cases act with
  | load services loaders options sourceUrl source notes =>
      rcases crowds with ⟨crowded, id, last, succeeded⟩
      rw [apply]
      rcases load_cases options sourceUrl source notes available regular.sound with
        ⟨fault, other, failed, _⟩ | ⟨other, final, outcome, loaded⟩
      · rw [succeeded] at failed
        cases failed
      · rw [succeeded] at outcome
        cases outcome
        rw [succeeded]
        rcases loaded.document with ⟨document, present, _⟩
        refine ⟨id, document, present, ?_⟩
        intro shape
        rw [loaded.ordered.1 shape.ordered] at crowded
        cases crowded
  | _ => exact False.elim crowds

/-- Unless a tree was loaded whose root follows an element or a reference to an entity, all
documents have their shape after whatever was done to them. The assignment of a root replaces the
former one, which then belongs to no document, or it fails and changes nothing. From there on,
whatever is done keeps the shapes of all documents exactly if it doesn't load such a tree. -/
theorem hasShape_of_reached (reached : Reached (fun act grove => ¬ act.Crowds grove) grove) :
    (∀ id document, grove.document? id = some document → grove.HasShape id) ∧
      (∀ id root, Edit.Ensures (setRoot id root) grove
        (fun _ last => Replaced grove id root last) (fun last => last = grove)) ∧
      ∀ act : Act, act.Available grove →
        ((∀ id document, (act.apply grove).document? id = some document →
          (act.apply grove).HasShape id) ↔ ¬ act.Crowds grove) := by
  have regular := reached.regular
  refine ⟨fun id document => regular.hasShape, ?_, ?_⟩
  · intro id root
    apply (setRoot_ensures id root regular).mono
    · intro _ last rerooted
      exact rerooted.replaced
    · intro last same
      exact same
  · intro act available
    constructor
    · intro shapes crowds
      rcases Act.not_hasShape_of_crowds regular available crowds with
        ⟨id, document, present, misshapen⟩
      exact misshapen (shapes id document present)
    · intro uncrowded id document
      exact (Act.regular_apply regular available uncrowded).hasShape

/-- The grove of a document that was made of a tag node and got a comment before it. -/
def prefacedGrove : Grove :=
  (Act.operate (.appendToPrologue ⟨0⟩ ⟨3⟩)).apply
    ((Act.operate (.createLeaf (.comment "note"))).apply
      ((Act.load {} (Loading.standardLoaders {}) {} none (.node ⟨0⟩) []).apply
        ((Act.operate (.createTag (.text "root") [] [])).apply {})))

theorem reached_prefacedGrove :
    Reached (fun act grove => ¬ act.Crowds grove) prefacedGrove := by
  have uncrowded : ∀ operation grove, ¬ Act.Crowds (.operate operation) grove :=
    fun _ _ crowds => crowds
  apply Reached.step
  · apply Reached.step
    · apply Reached.step
      · apply Reached.start.step
        · exact ⟨fun id member => (by cases member), fun parts equal => (by cases equal)⟩
        · exact uncrowded _ _
      · exact fun loader member => member
      · rintro ⟨crowded, _⟩
        cases crowded
    · exact ⟨fun id member => (by cases member), fun parts equal => (by cases equal)⟩
    · exact uncrowded _ _
  · refine ⟨?_, fun parts equal => (by cases equal)⟩
    unfold Operation.Available Offers
    decide
  · exact uncrowded _ _

theorem hasShape_of_reached_prefacedGrove :
    Reached (fun act grove => ¬ act.Crowds grove) prefacedGrove ∧
      prefacedGrove.anchoredNodes ⟨0⟩ = [⟨3⟩, ⟨0⟩] ∧ prefacedGrove.HasShape ⟨0⟩ := by
  refine ⟨reached_prefacedGrove, by decide, ?_⟩
  have present : (prefacedGrove.document? ⟨0⟩).isSome = true := by decide
  rcases Option.isSome_iff_exists.1 present with ⟨document, known⟩
  exact (hasShape_of_reached reached_prefacedGrove).1 ⟨0⟩ document known

/-- An element tree that is seen from the second one of two elements. -/
def siblingsSource : Loading.LoadSource :=
  .elements
    { root := .element "r" [] none
        [.element "a" [] none [] none, .element "b" [] none [] none] none,
      way := [1], isTree := true }

/-- The document that is loaded from the tree of a second element has two tag nodes. -/
theorem not_hasShape_of_reached :
    ¬ ∀ grove, Reached (fun _ _ => True) grove →
      ∀ id document, grove.document? id = some document → grove.HasShape id := by
  intro shapes
  let act : Act := .load {} (Loading.standardLoaders {}) {} none siblingsSource []
  have reached : Reached (fun _ _ => True) (act.apply {}) :=
    Reached.start.step (fun loader member => member) trivial
  have present : ((act.apply {}).document? ⟨0⟩).isSome = true := by decide
  rcases Option.isSome_iff_exists.1 present with ⟨document, known⟩
  rcases (shapes _ reached ⟨0⟩ document known).exists_root with ⟨root, list, _⟩
  have nodes : (act.apply {}).anchoredNodes ⟨0⟩ = [⟨0⟩, ⟨1⟩] := by decide
  have none : (act.apply {}).prologue ⟨0⟩ = [] := by decide
  rw [nodes, none] at list
  cases list

end XmlGrove
