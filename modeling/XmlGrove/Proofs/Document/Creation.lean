import XmlGrove.Proofs.Document.Shape

/-!
# New documents

A document that is created of existing nodes without parents lists these, in their order. It is
there as soon as its declaration is, and nothing can go wrong from then on.
-/

namespace XmlGrove

open Grove

variable {grove middle ready last : Grove} {anchor : NodeId} {id : DocumentId}
  {parts : DocumentParts} {nodes : List NodeId} {document : Document}

namespace Grove

/-! ## Documents without children -/

/-- The identity of the next document. -/
def nextDocument (grove : Grove) : DocumentId := ⟨grove.documents.size⟩

theorem document?_enter :
    (grove.enter document).document? id =
      if id = grove.nextDocument then some document else grove.document? id := by
  rw [document?, document?, enter, Array.getElem?_push, nextDocument]
  cases id
  simp only [DocumentId.mk.injEq]

theorem node?_enter {node : NodeId} :
    (grove.enter document).node? node =
      if node = grove.nextId then some (.anchor grove.nextDocument []) else grove.node? node :=
  node?_add _

theorem parentLink?_enter {node : NodeId} :
    (grove.enter document).parentLink? node = grove.parentLink? node :=
  parentLink?_add_free

theorem children_enter {node : NodeId} :
    (grove.enter document).children node = grove.children node := by
  by_cases equal : node = grove.nextId
  · rw [equal, children_of_not_has not_has_nextId, children, childList?, node?_enter, if_pos rfl]
    rfl
  · exact children_eq_of_node? (by rw [node?_enter, if_neg equal])

theorem shape?_enter {node : NodeId} (has : grove.Has node) :
    (grove.enter document).shape? node = grove.shape? node :=
  shape?_of_node? (by rw [node?_enter, if_neg (ne_nextId_of_has has)])

theorem Sound.enter (sound : grove.Sound) (anchor : document.anchor = grove.nextId) :
    (grove.enter document).Sound := by
  have moves : Moves True grove (grove.enter document) := Moves.none.enter anchor
  exact moves.sound sound

theorem Regular.enter (regular : grove.Regular []) (anchor : document.anchor = grove.nextId)
    (instructs : ∀ declaration, document.declaration = some declaration →
      grove.kind? declaration = some .instruction) :
    (grove.enter document).Regular [grove.nextId] where
  sound := regular.sound.enter anchor
  anchored := regular.anchored.enter anchor
  free other known present := by
    rw [parentLink?_enter]
    rw [document?_enter] at present
    split at present
    · cases present
      rw [anchor]
      exact parentLink?_of_not_has not_has_nextId
    · exact regular.free other known present
  ordered other known present apart := by
    rw [document?_enter] at present
    split at present
    · cases present
      rw [anchor] at apart
      exact absurd (List.mem_singleton_self _) apart
    · rw [children_enter]
      have ordered := regular.ordered other known present List.not_mem_nil
      exact ordered_of_map_kind? ordered
        (List.map_congr_left fun node member =>
          kind?_of_shape? (shape?_enter (ordered.has node member)))
  instructed other known declaration present declared := by
    rw [document?_enter] at present
    have instruction : grove.kind? declaration = some .instruction := by
      split at present
      · cases present
        exact instructs declaration declared
      · exact regular.instructed other known declaration present declared
    rw [kind?_of_shape? (shape?_enter (has_of_kind? instruction)), instruction]

end Grove

/-! ## Creation of a document -/

/-- The declaration of a new document is the one that was found, or else one that notes what was
found out. -/
def DocumentParts.Declares (parts : DocumentParts) (declaration : NodeId) (grove : Grove) : Prop :=
  match parts.declaration with
  | some found => declaration = found
  | none => grove.leaf? declaration =
      some (.instruction Name.xml (Declaration.content parts.version parts.encoding))

theorem DocumentParts.Declares.keep {declaration : NodeId} {after : Grove}
    (declares : parts.Declares declaration grove)
    (same : grove.Has declaration → after.leaf? declaration = grove.leaf? declaration) :
    parts.Declares declaration after := by
  unfold Declares at declares ⊢
  split at declares
  · exact declares
  · rw [same, declares]
    exact (Prologue.offers_of_leaf? (by rw [declares]; rfl)).1.1

/-- A declaration that was found is a processing instruction. -/
def DocumentParts.Instructs (parts : DocumentParts) (grove : Grove) : Prop :=
  ∀ found, parts.declaration = some found → grove.kind? found = some .instruction

theorem DocumentParts.Declares.kind? {declaration : NodeId}
    (declares : parts.Declares declaration grove) (instructs : parts.Instructs grove) :
    grove.kind? declaration = some .instruction := by
  unfold Declares at declares
  split at declares
  · rename_i found known
    rw [declares]
    exact instructs found known
  · exact kind?_of_leaf? declares

theorem leaf?_nextId_add {content : Leaf} :
    (grove.add ⟨.leaf content, none⟩).leaf? grove.nextId = some content := by
  rw [leaf?, node?_nextId_add]

theorem declare_grows :
    Edit.Ensures parts.declare grove
      (fun declaration last => Enlarged grove last ∧ parts.Declares declaration last)
      (fun last => last = grove) := by
  unfold DocumentParts.declare DocumentParts.Declares
  cases parts.declaration with
  | some found => exact Edit.ensures_pure ⟨.refl _, rfl⟩
  | none =>
      dsimp only
      rw [createDeclaration, createLeaf]
      apply Edit.Ensures.bind
      refine Edit.ensures_ofExcept ?_ (Eq.refl grove)
      intro checked accepted
      rw [← (Leaf.checked_eq_ok_iff.1 accepted).1]
      apply Edit.ensures_create
      exact ⟨enlarged_add trivial rfl, leaf?_nextId_add⟩

/-- A document was entered when its declaration was there. -/
structure Entered (grove : Grove) (parts : DocumentParts) (id : DocumentId) (anchor : NodeId)
    (ready : Grove) : Prop where
  exists_enter : ∃ middle document declaration, Enlarged grove middle ∧
    parts.Declares declaration middle ∧ ready = middle.enter document ∧
      id = middle.nextDocument ∧ anchor = middle.nextId ∧
        document.anchor = middle.nextId ∧ document.declaration = some declaration ∧
          document.version = .text parts.version ∧ document.encoding = .text parts.encoding

theorem prepareDocument_enters :
    Edit.Ensures (prepareDocument parts) grove
      (fun made ready => Entered grove parts made.1 made.2 ready) (fun last => last = grove) := by
  rw [prepareDocument]
  apply Edit.Ensures.bind
  apply Edit.ensures_get
  apply Edit.ensures_ite
  · intro rooted
    apply Edit.Ensures.bind
    apply declare_grows.mono
    · rintro declaration middle ⟨enlarged, declares⟩
      apply Edit.Ensures.bind
      apply Edit.ensures_get
      apply Edit.Ensures.bind
      apply Edit.ensures_create
      apply Edit.Ensures.bind
      apply Edit.ensures_modify
      apply Edit.ensures_pure
      exact ⟨middle, _, declaration, enlarged, declares, rfl, rfl, rfl, rfl, rfl, rfl, rfl⟩
    · intro last same
      exact same
  · intro rootless
    exact Edit.Ensures.throw_bind rfl

/-- A document was created of existing nodes. -/
structure Created (grove : Grove) (parts : DocumentParts) (nodes : List NodeId) (id : DocumentId)
    (last : Grove) : Prop where
  document : ∃ document declaration, last.document? id = some document ∧
    last.children document.anchor = nodes ∧ document.declaration = some declaration ∧
      parts.Declares declaration last ∧ document.version = .text parts.version ∧
        document.encoding = .text parts.encoding
  shape : ∀ {node}, grove.Has node → last.shape? node = grove.shape? node
  sound : last.Sound
  anchored : grove.Anchored → last.Anchored
  regular : grove.Regular [] → parts.Instructs grove → grove.Ordered nodes → last.Regular []

section

variable (entered : Entered grove parts id anchor ready)

include entered

theorem Entered.sound (sound : grove.Sound) : ready.Sound := by
  rcases entered with ⟨middle, document, declaration, enlarged, _, rfl, _, rfl, equal, _⟩
  exact (enlarged.sound sound).enter equal

theorem Entered.anchored (anchored : grove.Anchored) : ready.Anchored := by
  rcases entered with ⟨middle, document, declaration, enlarged, _, rfl, _, rfl, equal, _⟩
  exact (enlarged.keeps_anchored anchored).enter equal

theorem Entered.regular (regular : grove.Regular []) (instructs : parts.Instructs grove) :
    ready.Regular [anchor] := by
  rcases entered with
    ⟨middle, document, declaration, enlarged, declares, rfl, _, rfl, equal, known, _⟩
  apply (regular.spare_all enlarged.spared).enter equal
  intro other declared
  rw [known] at declared
  cases declared
  apply declares.kind?
  intro found present
  have instruction := instructs found present
  rw [enlarged.kind? (has_of_kind? instruction), instruction]

theorem Entered.older {node : NodeId} (has : grove.Has node) : node.index < anchor.index := by
  rcases entered with ⟨middle, document, declaration, enlarged, _, rfl, _, rfl, _⟩
  exact enlarged.has has

theorem Entered.size : ready.entries.size = anchor.index + 1 := by
  rcases entered with ⟨middle, document, declaration, enlarged, _, rfl, _, rfl, _⟩
  exact size_add _

theorem Entered.listed : ready.childList? anchor = some [] := by
  rcases entered with ⟨middle, document, declaration, enlarged, _, rfl, _, rfl, _⟩
  rw [childList?, node?_enter, if_pos rfl]

theorem Entered.top : ready.parentLink? anchor = none := by
  rcases entered with ⟨middle, document, declaration, enlarged, _, rfl, _, rfl, _⟩
  rw [parentLink?_enter]
  exact parentLink?_of_not_has not_has_nextId

theorem Entered.has {node : NodeId} (has : grove.Has node) : ready.Has node := by
  have older := entered.older has
  rw [Has, entered.size]
  omega

theorem Entered.shape? {node : NodeId} (has : grove.Has node) :
    ready.shape? node = grove.shape? node := by
  rcases entered with ⟨middle, document, declaration, enlarged, _, rfl, _, rfl, _⟩
  rw [shape?_enter (enlarged.has has), enlarged.shape has]

theorem Entered.parentLink? {node : NodeId} (has : grove.Has node) :
    ready.parentLink? node = grove.parentLink? node := by
  rcases entered with ⟨middle, document, declaration, enlarged, _, rfl, _, rfl, _⟩
  rw [parentLink?_enter, enlarged.link has]

end

theorem mem_allNodes_map_node {node : NodeId} :
    node ∈ Source.allNodes (nodes.map .node) ↔ node ∈ nodes := by
  rw [mem_allNodes]
  constructor
  · rintro ⟨source, listed, held⟩
    rcases List.mem_map.1 listed with ⟨present, member, rfl⟩
    rw [Source.nodes, List.mem_singleton] at held
    rw [held]
    exact member
  · intro member
    exact ⟨.node node, List.mem_map_of_mem member, List.mem_singleton_self node⟩

/-- A node that may become a part of a new document. -/
structure Usable (grove : Grove) (node : NodeId) : Prop where
  kind : ∃ kind, grove.kind? node = some kind
  free : grove.parentLink? node = none

theorem Usable.has {node : NodeId} (usable : Usable grove node) : grove.Has node := by
  rcases usable.kind with ⟨kind, present⟩
  exact has_of_kind? present

/-- An entered document adopts and lists its nodes. -/
theorem Entered.adopts (entered : Entered grove parts id anchor ready) (sound : grove.Sound)
    (sources : parts.sources = nodes.map .node) (distinct : nodes.Nodup)
    (usable : ∀ node ∈ nodes, Usable grove node) :
    Edit.Yields (adoptAll anchor parts.sources) ready (fun children last =>
      Spared [anchor] ready (last.setChildren anchor children) ∧ children = nodes ∧
        (last.setChildren anchor children).children anchor = children ∧
          last.documents = ready.documents ∧ ∀ node, ready.Has node →
            (last.setChildren anchor children).shape? node = ready.shape? node) := by
  have bears := bears_of_childList? entered.listed
  have kinds : ∀ node ∈ nodes, ∃ kind, ready.kind? node = some kind := by
    intro node member
    rw [kind?_of_shape? (entered.shape? (usable node member).has)]
    exact (usable node member).kind
  have older : ∀ node ∈ Source.allNodes (nodes.map .node), node.index < anchor.index :=
    fun node member => entered.older (usable node (mem_allNodes_map_node.1 member)).has
  rcases adoptAll_nodes distinct entered.top (by
    intro node member
    rcases kinds node member with ⟨kind, present⟩
    refine ⟨has_of_kind? present, ?_, ?_⟩
    · rw [entered.parentLink? (usable node member).has]
      exact (usable node member).free
    · rintro rfl
      exact Nat.lt_irrefl _ (entered.older (usable node member).has)) with ⟨last, outcome⟩
  have adopted := (adoptAll_ensures anchor (nodes.map .node) ready (entered.sound sound)
    bears anchor.index (Nat.le_refl _) older).of_ok outcome
  have listed : last.childList? anchor = some [] := by
    rw [childList?_eq_of_node? (adopted.grafted.node? bears.1), entered.listed]
  have relisted : Relisted last (last.setChildren anchor nodes) anchor nodes :=
    relisted_setChildren listed
  rw [sources, Edit.Yields, Edit.Ensures, outcome]
  refine ⟨?_, rfl, relisted.own, adopted.grafted.documents, ?_⟩
  · have grafted : Spared [anchor] ready last := by
      apply adopted.grafted.spared (Nat.le_of_eq entered.size)
      intro node member
      rcases kinds node (mem_allNodes_map_node.1 member) with ⟨kind, present⟩
      exact ⟨has_of_kind? present, not_isAnchor_of_kind? present⟩
    apply grafted.trans
    apply relisted.spared fun node => shape?_setChildren nodes
    · intro node member
      exact (adopted.linked node).2 (.inr member)
    · exact distinct
  · intro node present
    rw [shape?_setChildren, shape?_of_node? (adopted.grafted.node? present)]

theorem Entered.created (entered : Entered grove parts id anchor ready)
    (sound : grove.Sound) (spared : Spared [anchor] ready last)
    (own : last.children anchor = nodes) (documents : last.documents = ready.documents)
    (shape : ∀ node, ready.Has node → last.shape? node = ready.shape? node) :
    Created grove parts nodes id last where
  document := by
    rcases entered with ⟨middle, document, declaration, enlarged, declares, rfl, rfl, rfl, equal,
      noted, version, encoding⟩
    refine ⟨document, declaration, ?_, ?_, noted, ?_, version, encoding⟩
    · rw [document?, documents, ← document?, document?_enter, if_pos rfl]
    · rw [equal, own]
    · apply declares.keep
      intro has
      have kept : (middle.enter document).shape? declaration = _ := shape?_enter has
      rw [leaf?_of_shape? ((shape _ ((has_of_shape? kept).2 has)).trans kept)]
  shape present := by rw [shape _ (entered.has present), entered.shape? present]
  sound := spared.sound (entered.sound sound)
  anchored anchored := spared.keeps_anchored (entered.anchored anchored)
  regular regular instructs ordered := by
    apply (entered.regular regular instructs).spare spared
    intro other document present member
    rw [List.mem_singleton] at member
    rw [member, own]
    apply ordered_of_map_kind? ordered
    apply List.map_congr_left
    intro node member
    exact kind?_of_shape? (entered.shape? (ordered.has node member))

theorem createDocument_creates (sound : grove.Sound)
    (sources : parts.sources = nodes.map .node) (distinct : nodes.Nodup)
    (usable : ∀ node ∈ nodes, Usable grove node) :
    Edit.Ensures (createDocument parts) grove (Created grove parts nodes)
      (fun last => last = grove) := by
  rw [createDocument]
  apply Edit.Ensures.bind
  apply prepareDocument_enters.mono
  · rintro ⟨id, anchor⟩ ready entered
    apply Edit.Ensures.bind
    apply (entered.adopts sound sources distinct usable).ensures
    rintro children last ⟨spared, same, own, documents, shape⟩
    apply Edit.Ensures.bind
    apply Edit.ensures_modify
    apply Edit.ensures_pure
    rw [same] at spared own shape ⊢
    exact entered.created sound spared own documents shape
  · intro last same
    exact same

/-! ## Clones of documents -/

theorem Grove.AllFresh.usable {kinds : List NodeKind} {start : Grove}
    (fresh : AllFresh start kinds nodes grove) : ∀ node ∈ nodes, Usable grove node :=
  fun node member => ⟨fresh.exists_kind member, fresh.free node member⟩

theorem regulates_cloneDocument (id : DocumentId) (regular : grove.Regular []) :
    (cloneDocument id).Regulates grove := by
  rw [cloneDocument]
  apply Edit.Regulates.bind_looking regular
  apply (requireDocument_ensures id).mono
  · rintro document _ ⟨rfl, present⟩
    refine ⟨rfl, ?_⟩
    apply Edit.Regulates.bind_looking regular
    apply Edit.ensures_get
    refine ⟨rfl, ?_⟩
    have ordered := regular.ordered id document present List.not_mem_nil
    rw [anchoredNodes_eq present]
    apply Edit.Ensures.bind
    apply Edit.Ensures.adapt
    apply (cloneNodes_grows _ regular.sound ordered.has).mono
    · rintro clones middle ⟨enlarged, kinds, shown, fresh⟩
      have between := regular.spare_all enlarged.spared
      apply Edit.Ensures.bind
      apply (createDocument_creates between.sound rfl fresh.distinct fresh.usable).mono
      · intro clone last created
        have after : last.Regular [] :=
          created.regular between (fun _ declared => by cases declared)
            (ordered_of_map_kind? ordered (fresh.kinds.trans shown.symm))
        split
        · rename_i found declared
          apply Edit.Ensures.bind
          rw [map_eq_pure_bind]
          apply Edit.Ensures.bind
          have former := regular.instructed id document found present declared
          have instruction : last.kind? found = some .instruction := by
            have still := enlarged.kind? (has_of_kind? former)
            rw [former] at still
            rw [kind?_of_shape? (created.shape (has_of_kind? still)), still]
          apply (cloneNode_grows after.sound).mono
          · rintro copy final ⟨further, kind, known, copied⟩
            rw [instruction] at known
            cases known
            apply Edit.ensures_pure
            apply Edit.Ensures.bind
            apply Edit.ensures_modify
            apply Edit.ensures_pure
            apply (after.spare_all further.spared).spare_all
            refine .note (fun _ => rfl) fun _ declaration noted => .inr ?_
            cases noted
            exact copied.kind
          · rintro _ rfl
            exact after
        · apply Edit.Ensures.bind
          apply Edit.ensures_pure
          apply Edit.Ensures.bind
          apply Edit.ensures_modify
          apply Edit.ensures_pure
          exact after.spare_all (.note (fun _ => rfl) fun _ _ noted => by cases noted)
      · rintro _ rfl
        exact between
    · intro last enlarged
      exact regular.spare_all enlarged.spared
  · intro last same
    exact same

end XmlGrove
