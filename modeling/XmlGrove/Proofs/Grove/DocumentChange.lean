import XmlGrove.Proofs.Grove.Detachment

/-!
# Changes of documents

A new document adopts its nodes before they are listed. When it is given up in between, links are
left loose; no other change of documents does that.
-/

namespace XmlGrove

open Grove

variable {grove middle ready last : Grove} {id child parent anchor : NodeId}

/-! ## New nodes -/

theorem orderly_createLeaf (content : Leaf) (sound : grove.Sound) :
    (createLeaf content).Orderly grove := by
  rw [createLeaf]
  apply Edit.Ensures.bind
  apply Edit.ensures_ofExcept _ Changed.none
  intro checked _
  apply Edit.ensures_create
  exact (constructed_leaf sound checked).changed

theorem orderly_createTag (name : GivenName) (attributes : List (GivenName × Option String))
    (sources : List Source) (sound : grove.Sound)
    (offered : ∀ id ∈ Source.allNodes sources, grove.Offers id) :
    (createTag name attributes sources).Orderly grove := by
  have held : ∀ id ∈ (Template.define name attributes sources).nodes, grove.Has id := by
    intro id member
    rw [Template.nodes] at member
    exact (offered id member).1
  apply (instantiate_ensures _ grove sound held).mono
  · intro child last constructed
    exact constructed.changed
  · intro last abandoned
    exact abandoned.changed

theorem orderly_plant (tree : Tree) (sound : grove.Sound) : (plant tree).Orderly grove := by
  apply (plant_ensures tree grove sound (Changed True False grove)).mono
  · intro child last constructed
    exact constructed.changed
  · intro last changed
    exact changed

theorem orderly_cloneNode (deep : Bool) (id : NodeId) (sound : grove.Sound) :
    (cloneNode deep id).Orderly grove := by
  apply (cloneNode_ensures deep id grove sound).mono
  · intro child last constructed
    exact constructed.changed
  · rintro _ rfl
    exact Changed.none

theorem orderly_attach_node {placement : Placement} (fair : placement.IsFair)
    (parent id : NodeId) (sound : grove.Sound) (offered : grove.Offers id) :
    (attach placement parent (.node id)).Orderly grove := by
  have usable : ∀ other ∈ (Source.node id).nodes, grove.Offers other := by
    intro other member
    rw [Source.nodes, List.mem_singleton] at member
    rw [member]
    exact offered
  apply (attach_ensures placement parent (.node id) sound
    fun id member => (usable id member).1).mono
  · intro child last attached
    apply (attached.changed fair sound usable).mono
    · rintro _ ⟨definition, equal, _⟩
      cases equal
    · intro loose
      exact loose
  · intro last abandoned
    exact abandoned.changed

/-! ## Preparation of a document -/

/-- A document is there with its anchor, which has no children yet. -/
structure Prepared (grove : Grove) (anchor : NodeId) (ready : Grove) : Prop where
  changed : Changed True False grove ready
  link : ∀ id, ready.parentLink? id = grove.parentLink? id
  added : ¬ grove.Has anchor
  listed : ready.childList? anchor = some []
  older : ∀ {id}, grove.Has id → id.index < anchor.index
  behind : ∀ {child parent}, ready.Link child parent → child.index < anchor.index

theorem declare_ensures (parts : DocumentParts) (sound : grove.Sound) :
    Edit.Ensures parts.declare grove
      (fun _ last => Changed True False grove last ∧
        ∀ id, last.parentLink? id = grove.parentLink? id)
      (fun last => last = grove) := by
  rw [DocumentParts.declare]
  split
  · exact Edit.ensures_pure ⟨Changed.none, fun _ => rfl⟩
  · rw [createDeclaration, createLeaf]
    apply Edit.Ensures.bind
    refine Edit.ensures_ofExcept ?_ (Eq.refl grove)
    intro checked _
    apply Edit.ensures_create
    exact ⟨(constructed_leaf sound checked).changed, fun _ => parentLink?_add_free⟩

theorem prepared_enter {document : Document} (changed : Changed True False grove middle)
    (sound : grove.Sound) (link : ∀ id, middle.parentLink? id = grove.parentLink? id)
    (anchor : document.anchor = middle.nextId) :
    Prepared grove middle.nextId (middle.enter document) := by
  have sound' := changed.moves.sound sound
  have linked : ∀ id, (middle.enter document).parentLink? id = middle.parentLink? id :=
    fun _ => parentLink?_add_free
  refine ⟨?_, ?_, ?_, ?_, ?_, ?_⟩
  · refine changed.trans ⟨Moves.none.enter anchor, ?_⟩
    intro _ child parent loose
    exact tight_add (.anchor ⟨middle.documents.size⟩ []) sound' rfl child parent
      ⟨loose.linked, loose.unlisted, loose.finished⟩
  · intro id
    rw [linked, link]
  · intro has
    exact not_has_nextId (changed.moves.has has)
  · have node : (middle.enter document).node? middle.nextId =
        some (.anchor ⟨middle.documents.size⟩ []) :=
      (node?_add _).trans (if_pos rfl)
    rw [childList?, node]
  · intro id has
    exact changed.moves.has has
  · intro child parent link
    rw [Link, linked] at link
    exact has_of_parentLink? link

theorem prepareDocument_ensures (parts : DocumentParts) (sound : grove.Sound) :
    Edit.Ensures (prepareDocument parts) grove (fun made ready => Prepared grove made.2 ready)
      (Changed True False grove) := by
  rw [prepareDocument]
  apply Edit.Ensures.bind
  apply Edit.ensures_get
  apply Edit.ensures_ite
  · intro rooted
    apply Edit.Ensures.bind
    apply (declare_ensures parts sound).mono
    · rintro declaration middle ⟨changed, link⟩
      apply Edit.Ensures.bind
      apply Edit.ensures_get
      apply Edit.Ensures.bind
      apply Edit.ensures_create
      apply Edit.Ensures.bind
      apply Edit.ensures_modify
      apply Edit.ensures_pure
      exact prepared_enter changed sound link rfl
    · rintro _ rfl
      exact Changed.none
  · intro rootless
    exact Edit.Ensures.throw_bind Changed.none

/-! ## Creation of a document -/

/-- A new document adopts the first of its parts, but not all of them. -/
def DocumentParts.GivenUp (parts : DocumentParts) (grove : Grove) : Prop :=
  ∃ id anchor ready first rest child middle fault last,
    (prepareDocument parts).outcome grove = (.ok (id, anchor), ready) ∧
      parts.sources = first :: rest ∧
        (adopt anchor first).outcome ready = (.ok child, middle) ∧
          (adoptAll anchor rest).outcome middle = (.error fault, last)

namespace Prepared

variable {sources : List Source} (prepared : Prepared grove anchor ready) (sound : grove.Sound)

include prepared

theorem bears : ready.Bears anchor := bears_of_childList? prepared.listed

theorem loose_of_givenUp {first : Source} {rest : List Source}
    (adopted : Adopted ready anchor first child middle)
    (held : ∀ id ∈ first.nodes, ready.Has id)
    (partly : PartlyAdopted anchor.index middle anchor rest last) : last.Loose child anchor := by
  have kept := partly.grafted.node? ((has_of_shape? (shape?_of_node?
    (adopted.node? prepared.bears.1))).2 prepared.bears.1)
  have same : last.childList? anchor = some [] := by
    rw [childList?_eq_of_node? kept, childList?_eq_of_node? (adopted.node? prepared.bears.1),
      prepared.listed]
  refine ⟨?_, ?_, isUnfinished_of_childList? same⟩
  · exact partly.grafted.link_of_link ((adopted.link_iff held prepared.bears child).2 (.inr rfl))
  · rw [children_of_childList? same]
    exact List.not_mem_nil

include sound

theorem not_linked : ready.parentLink? child ≠ some anchor := by
  intro linked
  rw [prepared.link] at linked
  exact prepared.added (sound.target linked).1

theorem changed_of_allAdopted {children : List NodeId}
    (adopted : AllAdopted anchor.index ready anchor sources children last) :
    Changed True False grove (last.setChildren anchor children) := by
  have present : last.childList? anchor = some [] := by
    rw [childList?_eq_of_node? (adopted.grafted.node? prepared.bears.1), prepared.listed]
  refine prepared.changed.trans ⟨?_, ?_⟩
  · apply (Moves.none.graft adopted.grafted prepared.behind).relist present _ adopted.distinct
    intro child member
    exact (adopted.linked child).2 (.inr member)
  · intro _ child owner loose
    rcases (relisted_setChildren present).loose loose with ⟨different, before⟩ | ⟨_, unlisted, link⟩
    · rcases adopted.loose before with earlier | equal
      · exact earlier
      · exact absurd equal different
    · rcases (adopted.linked child).1 link with earlier | member
      · exact absurd earlier (prepared.not_linked sound)
      · exact absurd member unlisted

end Prepared

theorem adoptAll_error {sources : List Source} {fault : Fault}
    (failed : (adoptAll parent sources).outcome grove = (.error fault, last)) :
    ∃ first rest, sources = first :: rest ∧
      ((adopt parent first).outcome grove = (.error fault, last) ∨
        ∃ child middle, (adopt parent first).outcome grove = (.ok child, middle) ∧
          (adoptAll parent rest).outcome middle = (.error fault, last)) := by
  cases sources with
  | nil =>
      rw [adoptAll, Edit.outcome_pure] at failed
      cases failed
  | cons first rest =>
      refine ⟨first, rest, rfl, ?_⟩
      rw [adoptAll, Edit.outcome_bind] at failed
      split at failed
      · rename_i child middle adopted
        right
        refine ⟨child, middle, adopted, ?_⟩
        rw [Edit.outcome_bind] at failed
        split at failed
        · cases failed
        · rename_i same
          cases failed
          exact same
      · rename_i same
        cases failed
        exact .inl same

theorem createDocument_ensures (parts : DocumentParts) (sound : grove.Sound)
    (offered : ∀ id ∈ Source.allNodes parts.sources, grove.Offers id) :
    Edit.Ensures (createDocument parts) grove
      (fun _ last => Changed True (parts.GivenUp grove) grove last)
      (Changed True (parts.GivenUp grove) grove) := by
  rw [createDocument]
  apply Edit.Ensures.bind
  apply (prepareDocument_ensures parts sound).with_outcome.mono
  · rintro ⟨id, anchor⟩ ready ⟨prepared, made⟩
    have older : ∀ id ∈ Source.allNodes parts.sources, id.index < anchor.index :=
      fun id member => prepared.older (offered id member).1
    have sound' := prepared.changed.moves.sound sound
    apply Edit.Ensures.bind
    apply (adoptAll_ensures anchor parts.sources ready sound' prepared.bears anchor.index
      (Nat.le_refl _) older).with_outcome.mono
    · rintro children last ⟨adopted, _⟩
      apply Edit.Ensures.bind
      apply Edit.ensures_modify
      apply Edit.ensures_pure
      exact (prepared.changed_of_allAdopted sound adopted).mono (fun _ => trivial) False.elim
    · rintro last ⟨adopted, fault, failed⟩
      refine ⟨prepared.changed.moves.graft adopted.grafted prepared.behind, ?_⟩
      intro kept
      apply (prepared.changed.tight not_false).trans
      rcases adoptAll_error failed with
        ⟨first, rest, equal, refused | ⟨child, middle, former, refused⟩⟩
      · have held : ∀ id ∈ first.nodes, ready.Has id := by
          intro id member
          have listed : id ∈ Source.allNodes parts.sources := by
            rw [equal]
            exact List.mem_append_left _ member
          exact prepared.changed.moves.has (offered id listed).1
        exact ((adopt_ensures anchor first ready sound' held).of_error refused).tight
      · exact absurd ⟨id, anchor, ready, first, rest, child, middle, fault, last, made, equal,
          former, refused⟩ kept
  · rintro last ⟨changed, _⟩
    exact changed.mono (fun _ => trivial) False.elim

theorem loose_of_givenUp {parts : DocumentParts} (sound : grove.Sound)
    (offered : ∀ id ∈ Source.allNodes parts.sources, grove.Offers id)
    (given : parts.GivenUp grove) :
    ∃ child parent, ((createDocument parts).after grove).Loose child parent := by
  rcases given with
    ⟨id, anchor, ready, first, rest, child, middle, fault, last, made, equal, adopted, refused⟩
  have prepared : Prepared grove anchor ready := (prepareDocument_ensures parts sound).of_ok made
  have sound' := prepared.changed.moves.sound sound
  have older : ∀ id ∈ Source.allNodes (first :: rest), id.index < anchor.index := by
    intro id member
    rw [← equal] at member
    exact prepared.older (offered id member).1
  have held : ∀ id ∈ first.nodes, ready.Has id := by
    intro id member
    have listed : id ∈ Source.allNodes parts.sources := by
      rw [equal]
      exact List.mem_append_left _ member
    exact prepared.changed.moves.has (offered id listed).1
  have former := (adopt_ensures anchor first ready sound' held).of_ok adopted
  have grafted := former.grafted held prepared.bears (Nat.le_refl _)
    fun id member => older id (List.mem_append_left _ member)
  have partly := (adoptAll_ensures anchor rest middle (grafted.sound sound')
    (grafted.bears prepared.bears) anchor.index (Nat.le_refl _)
    fun id member => older id (List.mem_append_right _ member)).of_error refused
  have failed : (adoptAll anchor parts.sources).outcome ready = (.error fault, last) := by
    rw [equal, adoptAll, Edit.outcome_bind_of_ok adopted, Edit.outcome_bind_of_error refused]
  -- The first part is linked to the anchor, which lists none before all are adopted.
  refine ⟨child, anchor, ?_⟩
  rw [createDocument, Edit.after_bind_of_ok made, Edit.after, Edit.outcome_bind_of_error failed]
  exact prepared.loose_of_givenUp former held partly

/-! ## Clones of a document -/

/-- Several new nodes without parents. -/
structure AllCloned (grove : Grove) (ids : List NodeId) (last : Grove) : Prop where
  changed : Changed True False grove last
  free : ∀ {id}, grove.Has id → grove.parentLink? id = none → last.parentLink? id = none
  added : ∀ id ∈ ids, ¬ grove.Has id
  fresh : ∀ id ∈ ids, last.parentLink? id = none
  offered : ∀ id ∈ ids, last.Offers id
  distinct : ids.Nodup

theorem Constructed.keeps_free (constructed : Constructed grove [] child last) (has : grove.Has id)
    (free : grove.parentLink? id = none) : last.parentLink? id = none := by
  cases link : last.parentLink? id with
  | none => rfl
  | some owner =>
      rcases constructed.grafted.link_cases link with before | ⟨_, _, older, _⟩
      · rw [free] at before
        cases before
      · cases older has

theorem cloneNodes_ensures (ids : List NodeId) (sound : grove.Sound) :
    Edit.Ensures (cloneNodes ids) grove (AllCloned grove) (Changed True False grove) := by
  induction ids generalizing grove with
  | nil =>
      apply Edit.ensures_pure
      refine ⟨.none, fun _ free => free, ?_, ?_, ?_, .nil⟩
      · intro id member
        cases member
      · intro id member
        cases member
      · intro id member
        cases member
  | cons first rest induction =>
      rw [cloneNodes]
      apply Edit.Ensures.bind
      apply (cloneNode_ensures true first grove sound).mono
      · intro clone middle constructed
        have changed : Changed True False grove middle := constructed.changed
        apply Edit.Ensures.bind
        apply (induction (changed.moves.sound sound)).mono
        · intro others last cloned
          apply Edit.ensures_pure
          refine ⟨changed.trans cloned.changed, ?_, ?_, ?_, ?_, ?_⟩
          · intro id has free
            exact cloned.free (constructed.grafted.has has) (constructed.keeps_free has free)
          · intro id member
            rcases List.mem_cons.1 member with equal | behind
            · rw [equal]
              exact constructed.added
            · intro has
              exact cloned.added id behind (constructed.grafted.has has)
          · intro id member
            rcases List.mem_cons.1 member with equal | behind
            · rw [equal]
              exact cloned.free constructed.has constructed.free
            · exact cloned.fresh id behind
          · intro id member
            rcases List.mem_cons.1 member with equal | behind
            · rw [equal]
              exact cloned.changed.moves.offers constructed.offers
            · exact cloned.offered id behind
          · refine List.nodup_cons.2 ⟨?_, cloned.distinct⟩
            intro member
            exact cloned.added clone member constructed.has
        · intro last further
          exact changed.trans further
      · rintro _ rfl
        exact Changed.none

theorem outcome_adopt_node (free : grove.parentLink? id = none)
    (passed : (grove.isTag id && grove.isAtOrAbove id parent) = false) :
    (adopt parent (.node id)).outcome grove = (.ok id, grove.setParent id (some parent)) := by
  rw [adopt, adoptNode, Edit.outcome_bind_of_ok (Edit.outcome_get grove), free, passed]
  rfl

theorem adoptAll_nodes {ids : List NodeId} (distinct : ids.Nodup)
    (top : grove.parentLink? parent = none)
    (free : ∀ id ∈ ids, grove.Has id ∧ grove.parentLink? id = none ∧ id ≠ parent) :
    ∃ last, (adoptAll parent (ids.map .node)).outcome grove = (.ok ids, last) := by
  induction ids generalizing grove with
  | nil => exact ⟨grove, rfl⟩
  | cons first rest induction =>
      rcases free first List.mem_cons_self with ⟨has, unlinked, different⟩
      rcases List.nodup_cons.1 distinct with ⟨apart, distinct⟩
      have passed : grove.isAtOrAbove first parent = false := isAtOrAbove_of_free top different
      have adopted : (adopt parent (.node first)).outcome grove =
          (.ok first, grove.setParent first (some parent)) :=
        outcome_adopt_node unlinked (by rw [passed, Bool.and_false])
      have kept : ∀ id, id ≠ first →
          (grove.setParent first (some parent)).parentLink? id = grove.parentLink? id := by
        intro id other
        rw [parentLink?_setParent_of_has has, if_neg other]
      obtain ⟨last, others⟩ := induction distinct ((kept parent different.symm).trans top) (by
        intro id member
        obtain ⟨present, free, other⟩ := free id (List.mem_cons_of_mem _ member)
        refine ⟨(has_of_shape? shape?_setParent).2 present, ?_, other⟩
        rw [kept id fun equal => apart (equal ▸ member)]
        exact free)
      refine ⟨last, ?_⟩
      rw [List.map_cons, adoptAll, Edit.outcome_bind_of_ok adopted, Edit.outcome_bind_of_ok others]
      rfl

theorem not_givenUp_nodes {parts : DocumentParts} {ids : List NodeId} (sound : grove.Sound)
    (nodes : parts.sources = ids.map .node) (distinct : ids.Nodup)
    (free : ∀ id ∈ ids, grove.Has id ∧ grove.parentLink? id = none) : ¬ parts.GivenUp grove := by
  rintro ⟨id, anchor, ready, first, rest, child, middle, fault, last, made, equal, adopted, refused⟩
  have prepared : Prepared grove anchor ready := (prepareDocument_ensures parts sound).of_ok made
  have top : ready.parentLink? anchor = none := by
    rw [prepared.link]
    exact parentLink?_of_not_has prepared.added
  obtain ⟨final, succeeded⟩ := adoptAll_nodes distinct top (by
    intro id member
    obtain ⟨has, unlinked⟩ := free id member
    refine ⟨prepared.changed.moves.has has, (prepared.link id).trans unlinked, ?_⟩
    rintro rfl
    exact prepared.added has)
  rw [← nodes, equal, adoptAll, Edit.outcome_bind_of_ok adopted,
    Edit.outcome_bind_of_error refused] at succeeded
  cases succeeded

theorem outcome_requireDocument {id : DocumentId} {document : Document}
    (present : grove.document? id = some document) :
    (requireDocument id).outcome grove = (.ok document, grove) := by
  rw [requireDocument, Edit.outcome_bind_of_ok (Edit.outcome_get grove), present]
  rfl

theorem requireDocument_ensures (id : DocumentId) :
    Edit.Ensures (requireDocument id) grove
      (fun document last => last = grove ∧ grove.document? id = some document)
      (fun last => last = grove) := by
  rw [requireDocument]
  apply Edit.Ensures.bind
  apply Edit.ensures_get
  split
  · rename_i document found
    exact Edit.ensures_pure ⟨rfl, found⟩
  · exact Edit.ensures_throw rfl

theorem AllCloned.offers {ids : List NodeId} (cloned : AllCloned grove ids last) :
    ∀ id ∈ Source.allNodes (ids.map .node), last.Offers id := by
  intro id member
  rcases mem_allNodes.1 member with ⟨source, listed, held⟩
  rcases List.mem_map.1 listed with ⟨clone, present, rfl⟩
  rw [Source.nodes, List.mem_singleton] at held
  rw [held]
  exact cloned.offered clone present

theorem AllCloned.not_givenUp {ids : List NodeId} (cloned : AllCloned grove ids last)
    (sound : last.Sound) :
    ¬ DocumentParts.GivenUp { sources := ids.map .node } last :=
  not_givenUp_nodes sound rfl cloned.distinct fun id member =>
    ⟨(cloned.offered id member).1, cloned.fresh id member⟩

theorem changed_modifyDocument {id : DocumentId} {change : Document → Document}
    (same : ∀ document, (change document).anchor = document.anchor) :
    Changed True False grove (grove.modifyDocument id change) where
  moves := Moves.none.note same
  tight _ _ _ loose := ⟨loose.linked, loose.unlisted, loose.finished⟩

theorem orderly_cloneDocument (id : DocumentId) (sound : grove.Sound) :
    (cloneDocument id).Orderly grove := by
  rw [cloneDocument]
  apply Edit.Orderly.bind_looking
  apply (requireDocument_ensures id).mono
  · rintro document _ ⟨rfl, _⟩
    refine ⟨rfl, ?_⟩
    apply Edit.Orderly.bind_looking
    apply Edit.ensures_get
    refine ⟨rfl, ?_⟩
    apply Edit.Orderly.bind
    apply Edit.Ensures.adapt
    apply (cloneNodes_ensures _ sound).mono
    · intro ids middle cloned
      refine ⟨cloned.changed, ?_⟩
      have sound := cloned.changed.moves.sound sound
      -- A document of clones is not given up, as nothing else has adopted them.
      have kept := cloned.not_givenUp sound
      apply Edit.Orderly.bind
      apply (createDocument_ensures { sources := ids.map .node } sound cloned.offers).mono
      · intro clone between changed
        refine ⟨changed.mono (fun _ => trivial) kept, ?_⟩
        split
        · rename_i found _
          apply Edit.Orderly.bind
          rw [map_eq_pure_bind]
          apply Edit.Ensures.bind
          apply (cloneNode_ensures true found between (changed.moves.sound sound)).mono
          · intro copy last constructed
            apply Edit.ensures_pure
            refine ⟨constructed.changed, ?_⟩
            apply Edit.Orderly.bind
            apply Edit.ensures_modify
            exact ⟨changed_modifyDocument fun _ => rfl, Edit.orderly_pure _⟩
          · rintro _ rfl
            exact Changed.none
        · apply Edit.Orderly.bind
          apply Edit.ensures_pure
          refine ⟨Changed.none, ?_⟩
          apply Edit.Orderly.bind
          apply Edit.ensures_modify
          exact ⟨changed_modifyDocument fun _ => rfl, Edit.orderly_pure _⟩
      · intro last changed
        exact changed.mono (fun _ => trivial) kept
    · intro last changed
      exact changed
  · intro last same
    exact same

/-! ## Roots -/

theorem orderly_insertNode (parent : NodeId) (index : Int) (sound : grove.Sound)
    (offered : grove.Offers id) : (insertChildren parent index [.node id]).Orderly grove := by
  have usable : ∀ other ∈ Source.allNodes [.node id], grove.Offers other := by
    intro other member
    rcases mem_allNodes.1 member with ⟨source, listed, held⟩
    rw [List.mem_singleton] at listed
    rw [listed, Source.nodes, List.mem_singleton] at held
    rw [held]
    exact offered
  have avoids : ¬ ClosesCycleAt false parent index grove [.node id] := by
    rintro ⟨children, position, _, _, closes⟩
    apply not_closesCycle _ closes
    intro source member definition equal
    rw [List.reverse_singleton, List.mem_singleton] at member
    rw [member] at equal
    cases equal
  rw [insertChildren_eq_insertEachAt]
  apply (insertEachAt_ensures false parent index [.node id] sound usable).mono
  · intro _ last extended
    exact extended.changed.mono (fun _ => avoids) fun loose => loose
  · intro last extended
    exact extended.changed.mono (fun _ => avoids) fun loose => loose

theorem requireRoot_ensures (id : DocumentId) :
    Edit.Ensures (requireRoot id) grove (fun _ last => last = grove)
      (fun last => last = grove) := by
  rw [requireRoot]
  apply Edit.Ensures.bind
  apply Edit.ensures_get
  split
  · exact Edit.ensures_pure rfl
  · exact Edit.ensures_throw rfl

theorem orderly_setRoot (id : DocumentId) (root : NodeId) (sound : grove.Sound)
    (offered : grove.Offers root) : (setRoot id root).Orderly grove := by
  rw [setRoot]
  apply Edit.Orderly.bind_looking
  apply Edit.ensures_get
  refine ⟨rfl, ?_⟩
  apply Edit.ensures_ite
  · intro tag
    apply Edit.ensures_ite
    · intro attached
      exact Edit.Ensures.throw_bind Changed.none
    · intro free
      apply Edit.Orderly.bind_looking
      apply (requireDocument_ensures id).mono
      · rintro document _ ⟨rfl, _⟩
        refine ⟨rfl, ?_⟩
        apply Edit.Orderly.bind_looking
        apply (requireRoot_ensures id).mono
        · rintro current _ rfl
          refine ⟨rfl, ?_⟩
          apply Edit.Orderly.bind
          apply (orderly_removeSibling document.anchor current sound).mono
          · intro _ middle changed
            refine ⟨changed, ?_⟩
            apply Edit.Orderly.bind
            apply (orderly_insertNode document.anchor _ (changed.moves.sound sound)
              (changed.moves.offers offered)).mono
            · intro _ last further
              exact ⟨further, Edit.orderly_pure _⟩
            · intro last further
              exact further
          · intro last changed
            exact changed
        · intro last same
          exact same
      · intro last same
        exact same
  · intro other
    exact Edit.Ensures.throw_bind Changed.none

end XmlGrove
