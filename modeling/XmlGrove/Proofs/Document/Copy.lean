import XmlGrove.Proofs.Document.Steadiness
import XmlGrove.Proofs.Grove.Comparison
import XmlGrove.Proofs.Grove.Copy

/-!
# Copies of nodes and documents

A clone of a node or of a document is a copy that shares no node with the original. What one of
them is rendered as does not depend on what is done to the other one. There is one way in which
cloning fails: a tag node whose construction was given up is never finished, and neither is a copy
of what it became a part of.
-/

namespace XmlGrove

open Grove Relation Script

variable {grove before after middle ready last start : Grove} {id clone anchor : NodeId}
  {document : Document} {parts : DocumentParts} {nodes held : List NodeId}

/-! ## What the creation of a document leaves as it is -/

namespace Grove

theorem Enlarged.retained (enlarged : Enlarged before after) : Retained before after where
  size := enlarged.size
  node? present := Grown.node? enlarged present id

theorem Enlarged.preserved (enlarged : Enlarged before after) : Preserved held before after where
  toRetained := enlarged.retained
  link present _ := enlarged.link present
  document? present := by rwa [document?, enlarged.documents]

theorem preserved_enter : Preserved held grove (grove.enter document) where
  size := by
    rw [enter, size_add]
    exact Nat.le_succ _
  node? present := by rw [node?_enter, if_neg (ne_nextId_of_has present)]
  link _ _ := parentLink?_enter
  document? {other content} present := by
    rw [document?_enter, if_neg, present]
    rintro rfl
    rw [Grove.document?, nextDocument, Array.getElem?_size] at present
    cases present

namespace Preserved

variable (preserved : Preserved held start before)

include preserved

theorem graft {base : Nat} {others : List NodeId} (grafted : Grafted base others before after)
    (older : start.entries.size ≤ base) (holds : ∀ id ∈ others, id ∈ held) :
    Preserved held start after where
  size := Nat.le_trans preserved.size grafted.size_le
  node? present := by
    rw [grafted.node? (preserved.has present), preserved.node? present]
  link {id} present apart := by
    rw [← preserved.link present apart]
    cases linked : after.parentLink? id with
    | none =>
        cases former : before.parentLink? id with
        | none => rfl
        | some owner =>
            rw [grafted.link_of_link former] at linked
            cases linked
    | some owner =>
        rcases grafted.link_cases linked with kept | ⟨_, _, member, _⟩
        · exact kept.symm
        · exact absurd (holds id (member (Nat.lt_of_lt_of_le present older))) apart
  document? present := by
    rw [Grove.document?, grafted.documents]
    exact preserved.document? present

theorem setChildren {children : List NodeId} (later : ¬ start.Has id) :
    Preserved held start (before.setChildren id children) where
  size := by
    rw [Grove.setChildren, size_modifyEntry]
    exact preserved.size
  node? {other} present := by
    rw [node?_setChildren, if_neg, preserved.node? present]
    rintro rfl
    exact later present
  link present apart := by rw [parentLink?_setChildren, preserved.link present apart]
  document? := preserved.document?

theorem modifyDocument {made : DocumentId} {change : Document → Document}
    (later : start.document? made = none) :
    Preserved held start (before.modifyDocument made change) where
  size := preserved.size
  node? := preserved.node?
  link := preserved.link
  document? {other content} present := by
    rw [document?_modifyDocument, if_neg, preserved.document? present]
    rintro rfl
    rw [later] at present
    cases present

end Preserved

end Grove

theorem Entered.preserved {id : DocumentId} (entered : Entered grove parts id anchor ready) :
    Preserved held grove ready := by
  rcases entered with ⟨between, document, declaration, enlarged, _, rfl, _⟩
  exact enlarged.preserved.trans preserved_enter

theorem Entered.document?_eq_none {id : DocumentId}
    (entered : Entered grove parts id anchor ready) : grove.document? id = none := by
  rcases entered with ⟨between, document, declaration, enlarged, _, _, rfl, _⟩
  rw [document?, nextDocument, enlarged.documents, Array.getElem?_size]

/-! ## Documents of clones -/

/-- A document is prepared exactly if there is a root for it. -/
theorem prepareDocument_rooted (declares : parts.declare.Yields grove fun _ _ => True) :
    (prepareDocument parts).Ensures grove
      (fun _ _ => parts.sources.any grove.isTagSource = true)
      (fun _ => ¬ parts.sources.any grove.isTagSource = true) := by
  rw [prepareDocument]
  apply Edit.Ensures.bind
  apply Edit.ensures_get
  apply Edit.ensures_ite
  · intro rooted
    apply Edit.Ensures.bind
    apply declares.ensures
    intro declaration middle _
    apply Edit.Ensures.bind
    apply Edit.ensures_get
    apply Edit.Ensures.bind
    apply Edit.ensures_create
    apply Edit.Ensures.bind
    apply Edit.ensures_modify
    exact Edit.ensures_pure rooted
  · intro rootless
    exact Edit.Ensures.throw_bind rootless

theorem declare_yields {sources : List Source} :
    DocumentParts.declare { sources := sources } |>.Yields grove fun _ _ => True := by
  have checked : (Leaf.instruction Name.xml (Declaration.content Declaration.defaultVersion
      Declaration.defaultEncoding)).checked = .ok _ :=
    Leaf.checked_eq_ok_iff.2 ⟨rfl, by decide⟩
  change (createLeaf _).Yields grove _
  rw [createLeaf, checked]
  trivial

theorem createDocument_preserves (sound : grove.Sound) (distinct : nodes.Nodup)
    (usable : ∀ node ∈ nodes, Usable grove node) :
    (createDocument { sources := nodes.map .node }).Ensures grove
      (fun made last => Preserved nodes grove last ∧ grove.document? made = none ∧
        nodes.any grove.isTag = true)
      (fun last => last = grove ∧ ¬ nodes.any grove.isTag = true) := by
  have sources : (nodes.map Source.node).any grove.isTagSource = nodes.any grove.isTag := by
    rw [List.any_map]
    rfl
  rw [createDocument, ← sources]
  apply Edit.Ensures.bind
  apply (prepareDocument_enters.and (prepareDocument_rooted declare_yields)).mono
  · rintro ⟨made, anchor⟩ ready ⟨entered, rooted⟩
    have older : ∀ node ∈ Source.allNodes (nodes.map .node), node.index < anchor.index :=
      fun node member => entered.older (usable node (mem_allNodes_map_node.1 member)).has
    have recent : grove.entries.size ≤ anchor.index := by
      apply Nat.le_of_not_lt
      intro before
      exact Nat.lt_irrefl _ (entered.older before)
    apply Edit.Ensures.bind
    apply ((entered.adopts sound rfl distinct usable).and
      (adoptAll_ensures anchor (nodes.map .node) ready (entered.sound sound)
        (bears_of_childList? entered.listed) anchor.index (Nat.le_refl _) older)).mono
    · rintro children last ⟨_, adopted⟩
      apply Edit.Ensures.bind
      apply Edit.ensures_modify
      apply Edit.ensures_pure
      refine ⟨?_, entered.document?_eq_none, rooted⟩
      apply (entered.preserved.graft adopted.grafted recent _).setChildren
      · exact Nat.not_lt.2 recent
      · intro node member
        exact mem_allNodes_map_node.1 member
    · rintro last ⟨impossible, _⟩
      exact impossible.elim
  · rintro last both
    exact both

/-! ## Clones of nodes -/

/-- From a node on downwards, no tag node lacks its list of children. -/
def Grove.IsWhole (grove : Grove) (id : NodeId) : Prop :=
  ∀ other, ReflTransGen grove.Lists id other → grove.IsComplete other

/-- A copy of a node is a tree of its own that is equal to the original. All nodes that there were
are as they were. What becomes of one of both does not matter for the other one. -/
structure NodeCopy (before : Grove) (id clone : NodeId) (after : Grove) : Prop where
  reproduced : Reproduced before after id clone
  detached : after.parentLink? clone = none
  equal : after.contrast? id clone = .ok none
  preserved : Preserved [] before after
  steady : after.IsSteady id ∧ after.IsSteady clone

section

variable (reached : Reached (fun act _ => act.Checks) grove)

include reached

theorem cloneNode_copies (offered : grove.Offers id) (unwound : grove.Unwound id) :
    (cloneNode true id).Ensures grove
      (fun clone last => NodeCopy grove id clone last ∧ grove.IsWhole id)
      (fun last => last = grove ∧ ¬ grove.IsWhole id) := by
  have sound := reached.sound_and_anchored.1
  rw [IsWhole, ← isSome_view?_iff sound unwound]
  cases seen : grove.view? id with
  | none =>
      rw [Edit.Ensures, outcome_cloneNode_of_hidden seen]
      exact ⟨rfl, Bool.false_ne_true⟩
  | some tree =>
      apply (cloneNode_yields reached.writable seen).with_outcome.mono
      · rintro clone last ⟨⟨sprouts, _⟩, outcome⟩
        have preserved : Preserved [] grove last := sprouts.preserved
        have reproduced := sprouts.shows.reproduced (Nat.le_refl _) seen
        rcases reproduced.alike with ⟨other, known, shown⟩
        rw [seen] at known
        cases known
        have kept := preserved.view? sound seen
        have later : Reached (fun act _ => act.Checks) last := by
          have available : (Act.operate (.clone true id)).Available grove := by
            refine ⟨?_, fun parts equal => by cases equal⟩
            intro other member
            rw [Operation.nodes, List.mem_singleton] at member
            rw [member]
            exact offered
          have step := reached.step available trivial
          have applied : (Act.operate (.clone true id)).apply grove = last := by
            change (cloneNode true id).after grove = last
            rw [Edit.after, outcome]
          rwa [applied] at step
        refine ⟨⟨reproduced, sprouts.link, ?_, preserved, ?_, ?_⟩, rfl⟩
        · exact contrast?_of_view? later.sound_and_anchored.1 kept shown
        · exact later.isSteady (Option.isSome_of_eq_some kept)
        · exact later.isSteady (Option.isSome_of_eq_some shown)
      · rintro last ⟨impossible, _⟩
        exact impossible.elim

end

/-! ## Clones of documents -/

/-- A document has a root, and there is no tag node in it that lacks its list of children. -/
structure Grove.Cloneable (grove : Grove) (id : DocumentId) : Prop where
  rooted : (grove.documentRoot? id).isSome = true
  whole : ∀ node ∈ grove.anchoredNodes id, grove.IsWhole node

/-- A document was cloned: there is another one with the same data, and with copies of the
declaration and the nodes. -/
structure DocumentCloned (before : Grove) (id clone : DocumentId) (after : Grove) : Prop where
  added : before.document? clone = none
  data : ∃ original copy, before.document? id = some original ∧
    after.document? clone = some copy ∧
    copy = { original with anchor := copy.anchor, declaration := copy.declaration } ∧
    Option.Rel (Reproduced before after) original.declaration copy.declaration
  nodes : List.Forall₂ (Reproduced before after) (before.anchoredNodes id)
    (after.anchoredNodes clone)
  preserved : Preserved [] before after

/-- A copy of a document is written like the original in every layout, and it stays like that
whatever becomes of the original, and the other way around. -/
structure DocumentCopy (before : Grove) (id clone : DocumentId) (after : Grove) : Prop
    extends DocumentCloned before id clone after where
  pieces : ∀ indentation : Indentation,
    indentation.documentPieces after clone = indentation.documentPieces before id
  steady : after.IsSteadyDocument id ∧ after.IsSteadyDocument clone

/-- A document was created of the clones of another one's nodes. It has a declaration of its own
so far. -/
structure Drafted (start : Grove) (nodes clones : List NodeId) (clone : DocumentId)
    (grove : Grove) : Prop where
  added : start.document? clone = none
  entered : ∃ draft, grove.document? clone = some draft ∧ grove.children draft.anchor = clones
  reproduced : List.Forall₂ (Reproduced start grove) nodes clones
  preserved : Preserved [] start grove
  sound : grove.Sound
  anchored : grove.Anchored
  writable : grove.Writable

namespace Grove

theorem any_isTag_of_alike {originals clones : List NodeId}
    (each : List.Forall₂ (ShowsAlike before after) originals clones) :
    clones.any after.isTag = originals.any before.isTag := by
  induction each with
  | nil => rfl
  | cons first others induction => rw [List.any_cons, List.any_cons, first.isTag, induction]

theorem isSome_documentRoot?_iff {id : DocumentId} :
    (grove.documentRoot? id).isSome = true ↔ (grove.anchoredNodes id).any grove.isTag = true := by
  rw [documentRoot?, List.find?_isSome, List.any_eq_true]

end Grove

theorem forall_mem_of_forall₂ {relation : α → β → Prop} {holds : α → Prop} {first : List α}
    {second : List β} (each : List.Forall₂ relation first second)
    (implies : ∀ {left right}, relation left right → holds left) : ∀ left ∈ first, holds left :=
  ((List.forall₂_and_left _ _).1 (each.imp fun _ _ related => ⟨implies related, related⟩)).1

theorem exists_of_rel_some_left {relation : α → β → Prop} {left : α} {second : Option β}
    (related : Option.Rel relation (some left) second) : ∃ right, relation left right := by
  cases related with
  | some holds => exact ⟨_, holds⟩

theorem exists_of_rel_some_right {relation : α → β → Prop} {first : Option α} {right : β}
    (related : Option.Rel relation first (some right)) : ∃ left, relation left right := by
  cases related with
  | some holds => exact ⟨_, holds⟩

/-- The clones of a document's nodes, and the document that is created of them. -/
theorem draft_ensures (sound : grove.Sound) (anchored : grove.Anchored)
    (writable : grove.Writable) (has : ∀ id ∈ nodes, grove.Has id)
    (unwound : ∀ id ∈ nodes, grove.Unwound id) :
    Edit.Ensures (do
        let clones ← ExceptT.adapt (fun fault => Fault.loading (Loading.Excuse.allAfter fault))
          (cloneNodes nodes)
        createDocument { sources := clones.map .node }) grove
      (fun clone last => (∃ clones, Drafted grove nodes clones clone last) ∧
        nodes.any grove.isTag = true ∧ ∀ id ∈ nodes, (grove.view? id).isSome = true)
      (fun last => Preserved [] grove last ∧ ¬ (nodes.any grove.isTag = true ∧
        ∀ id ∈ nodes, (grove.view? id).isSome = true)) := by
  apply Edit.Ensures.bind
  apply Edit.Ensures.adapt
  apply ((cloneNodes_sprout sound has unwound (.refl grove) writable).and
    (cloneNodes_grows nodes sound has)).mono
  · rintro clones middle ⟨⟨trees, seen, sprout, writable⟩, enlarged, kinds, _, fresh⟩
    have between := enlarged.sound sound
    have visible : ∀ id ∈ nodes, (grove.view? id).isSome = true :=
      forall_mem_of_forall₂ seen fun shown => Option.isSome_of_eq_some shown
    have reproduced := sprout.shows.reproduced (Nat.le_refl _) seen
    have tags := any_isTag_of_alike (reproduced.imp fun _ _ => Reproduced.alike)
    have kept : Preserved [] grove middle := sprout.keeps.preserved sprout.documents
    have intact := (Reserve.nothing middle).intact_start writable
    rw [← tags]
    apply ((createDocument_creates between rfl fresh.distinct fresh.usable).and
      ((createDocument_preserves between fresh.distinct fresh.usable).and
        (respects_createDocument intact))).mono
    · rintro clone last ⟨created, ⟨preserved, added, rooted⟩, _, intact⟩
      refine ⟨⟨clones, ?_, ?_, ?_, ?_, created.sound, ?_, intact.writable⟩, rooted, visible⟩
      · rwa [document?, ← sprout.documents]
      · rcases created.document with ⟨draft, _, present, own, _⟩
        exact ⟨draft, present, own⟩
      · exact reproduced.imp fun _ _ copied => copied.keep between preserved.toRetained
      · exact (kept.hold.trans preserved).of_later fresh.added
      · exact created.anchored (enlarged.keeps_anchored anchored)
    · rintro last ⟨rfl, ⟨_, rootless⟩, _⟩
      exact ⟨kept, fun both => rootless both.1⟩
  · rintro last ⟨⟨kept, id, member, hidden⟩, _⟩
    refine ⟨kept, fun both => ?_⟩
    have visible := both.2 id member
    rw [hidden] at visible
    cases visible

theorem Drafted.keep {clones : List NodeId} {clone : DocumentId}
    (drafted : Drafted start nodes clones clone grove) (preserved : Preserved [] grove last)
    (sound : last.Sound) (anchored : last.Anchored) (writable : last.Writable) :
    Drafted start nodes clones clone last where
  added := drafted.added
  entered := by
    rcases drafted.entered with ⟨draft, present, own⟩
    refine ⟨draft, preserved.document? present, ?_⟩
    have anchor := isAnchor_of_document? drafted.anchored present
    rw [children_eq_of_node? (preserved.node? (has_of_isAnchor anchor)), own]
  reproduced := drafted.reproduced.imp fun _ _ copied =>
    copied.keep drafted.sound preserved.toRetained
  preserved := drafted.preserved.trans preserved
  sound := sound
  anchored := anchored
  writable := writable

/-- The declaration is cloned next. -/
theorem Drafted.declare {clones : List NodeId} {clone : DocumentId}
    {next : Option NodeId → Edit α} {success : α → Grove → Prop} {failure : Grove → Prop}
    (drafted : Drafted start nodes clones clone grove) (sound : start.Sound)
    (declared : ∀ found, document.declaration = some found →
      (start.view? found).isSome = true)
    (continues : ∀ copy last, Drafted start nodes clones clone last →
      Option.Rel (Reproduced start last) document.declaration copy →
        (next copy).Ensures last success failure) :
    Edit.Ensures (match document.declaration with
      | some found => some <$> cloneNode true found >>= next
      | none => pure none >>= next) grove success failure := by
  cases noted : document.declaration with
  | none =>
      rw [noted] at continues
      exact continues none grove drafted .none
  | some found =>
      rw [noted] at continues
      rcases Option.isSome_iff_exists.1 (declared found noted) with ⟨tree, seen⟩
      have kept := drafted.preserved.view? sound seen
      dsimp only
      rw [map_eq_pure_bind, bind_assoc]
      apply Edit.Ensures.bind
      apply ((cloneNode_yields drafted.writable kept).and
        (cloneNode_grows drafted.sound)).mono
      · rintro copy last ⟨⟨sprouts, writable⟩, enlarged, _⟩
        apply Edit.Ensures.bind
        apply Edit.ensures_pure
        apply continues
        · exact drafted.keep sprouts.preserved (enlarged.sound drafted.sound)
            (enlarged.keeps_anchored drafted.anchored) writable
        · exact .some (sprouts.shows.reproduced drafted.preserved.size seen)
      · rintro last ⟨impossible, _⟩
        exact impossible.elim

theorem Grove.Reproduced.modifyDocument {made : DocumentId} {change : Document → Document}
    (reproduced : Reproduced start grove id clone) (sound : grove.Sound) :
    Reproduced start (grove.modifyDocument made change) id clone :=
  reproduced.keep sound ⟨Nat.le_refl _, fun _ => rfl⟩

/-- What is left is to take over the other data. -/
theorem Drafted.cloned {clones : List NodeId} {id clone : DocumentId} {copy : Option NodeId}
    (drafted : Drafted start (start.anchoredNodes id) clones clone grove)
    (present : start.document? id = some document)
    (declared : Option.Rel (Reproduced start grove) document.declaration copy) :
    DocumentCloned start id clone (grove.modifyDocument clone fun created =>
      { document with anchor := created.anchor, declaration := copy }) := by
  rcases drafted.entered with ⟨draft, entered, own⟩
  have made : (grove.modifyDocument clone fun created =>
      { document with anchor := created.anchor, declaration := copy }).document? clone =
        some { document with anchor := draft.anchor, declaration := copy } := by
    rw [document?_modifyDocument, if_pos rfl, entered]
    rfl
  refine ⟨drafted.added, ⟨document, _, present, made, rfl, ?_⟩, ?_,
    drafted.preserved.modifyDocument drafted.added⟩
  · generalize document.declaration = original at declared ⊢
    cases declared with
    | none => exact .none
    | some copied => exact .some (copied.modifyDocument drafted.sound)
  · rw [anchoredNodes_eq made]
    change List.Forall₂ _ _ (grove.children draft.anchor)
    rw [own]
    exact drafted.reproduced.imp fun _ _ copied => copied.modifyDocument drafted.sound

section

variable (reached : Reached (fun act _ => act.Checks) grove)

include reached

theorem cloneDocument_clones {id : DocumentId} (present : grove.document? id = some document)
    (declared : ∀ declaration, document.declaration = some declaration →
      (grove.view? declaration).isSome = true)
    (unwound : ∀ node ∈ grove.anchoredNodes id, grove.Unwound node) :
    (cloneDocument id).Ensures grove
      (fun clone last => DocumentCloned grove id clone last ∧ grove.Cloneable id)
      (fun last => Preserved [] grove last ∧ ¬ grove.Cloneable id) := by
  rcases reached.sound_and_anchored with ⟨sound, anchored⟩
  have cloneable_iff : (grove.anchoredNodes id).any grove.isTag = true ∧
      (∀ node ∈ grove.anchoredNodes id, (grove.view? node).isSome = true) ↔
        grove.Cloneable id := by
    have visible_iff := forall₂_congr fun node member =>
      isSome_view?_iff sound (unwound node member)
    rw [visible_iff, ← isSome_documentRoot?_iff]
    exact ⟨fun both => ⟨both.1, both.2⟩, fun cloneable => ⟨cloneable.rooted, cloneable.whole⟩⟩
  have has : ∀ node ∈ grove.anchoredNodes id, grove.Has node := by
    intro node member
    rw [anchoredNodes_eq present] at member
    exact has_of_parentLink? (sound.listed member)
  rw [cloneDocument]
  apply Edit.Ensures.bind_of_ok (outcome_requireDocument present)
  apply Edit.Ensures.bind_of_ok (Edit.outcome_get grove)
  rw [← bind_assoc]
  apply Edit.Ensures.bind
  apply (draft_ensures sound anchored reached.writable has unwound).mono
  · rintro clone middle ⟨⟨clones, drafted⟩, visible⟩
    apply drafted.declare sound declared
    intro copy last drafted reproduced
    apply Edit.Ensures.bind
    apply Edit.ensures_modify
    exact Edit.ensures_pure ⟨drafted.cloned present reproduced, cloneable_iff.1 visible⟩
  · rintro last ⟨kept, hidden⟩
    exact ⟨kept, fun cloneable => hidden (cloneable_iff.2 cloneable)⟩

/-- A cloned document is a copy. -/
theorem DocumentCloned.copy {id clone : DocumentId} {last : Grove}
    (cloned : DocumentCloned grove id clone last)
    (later : Reached (fun act _ => act.Checks) last) : DocumentCopy grove id clone last := by
  have sound := reached.sound_and_anchored.1
  rcases cloned.data with ⟨original, copy, present, made, _, declared⟩
  have alike : ∀ {node other}, Reproduced grove last node other →
      ShowsAlike grove last node other := Reproduced.alike
  have seen : ∀ {node other}, Reproduced grove last node other →
      (last.view? node).isSome = true := by
    rintro node other ⟨⟨tree, seen, _⟩, _⟩
    exact Option.isSome_of_eq_some (cloned.preserved.view? sound seen)
  have shown : ∀ {node other}, Reproduced grove last node other →
      (last.view? other).isSome = true := by
    rintro node other ⟨⟨tree, _, shown⟩, _⟩
    exact Option.isSome_of_eq_some shown
  have nodes := cloned.nodes
  refine ⟨cloned, ?_, ?_, ?_⟩
  · intro indentation
    apply documentPieces_of_alike present made _ (nodes.imp fun _ _ => alike)
    generalize original.declaration = first at declared ⊢
    generalize copy.declaration = second at declared ⊢
    cases declared with
    | none => exact .none
    | some reproduced => exact .some (alike reproduced)
  · have kept := cloned.preserved.document? present
    apply later.isSteadyDocument kept
    · intro declaration noted
      rw [noted] at declared
      rcases exists_of_rel_some_left declared with ⟨other, reproduced⟩
      exact seen reproduced
    · have anchor := isAnchor_of_document? reached.sound_and_anchored.2 present
      rw [anchoredNodes_eq kept, children_eq_of_node?
        (cloned.preserved.node? (has_of_isAnchor anchor)), ← anchoredNodes_eq present]
      exact forall_mem_of_forall₂ nodes seen
  · apply later.isSteadyDocument made
    · intro declaration noted
      rw [noted] at declared
      rcases exists_of_rel_some_right declared with ⟨other, reproduced⟩
      exact shown reproduced
    · exact forall_mem_of_forall₂ nodes.flip shown

end

/-! ## Copies in all histories -/

namespace Grove

theorem isSome_view?_of_leaf? (leaf : (grove.leaf? id).isSome = true) :
    (grove.view? id).isSome = true := by
  rw [leaf?] at leaf
  split at leaf
  · rename_i content present
    rw [view?, viewWithin_leaf present]
    rfl
  · cases leaf

theorem Precedes.isWhole (precedes : grove.Precedes id) : grove.IsWhole id := by
  rcases precedes.exists_leaf with ⟨content, leaf, _⟩
  intro other way
  exact isComplete_below (isSome_view?_of_leaf? (Option.isSome_of_eq_some leaf)) way

/-- A document that has its shape can be cloned if its root is whole. -/
theorem Regular.cloneable_iff {id : DocumentId} (regular : grove.Regular [])
    (present : grove.document? id = some document) :
    ∃ root, grove.documentRoot? id = some root ∧ (grove.Cloneable id ↔ grove.IsWhole root) := by
  rcases regular.exists_root present with ⟨root, list, found, precedes, _⟩
  have nodes : grove.anchoredNodes id = grove.prologue id ++ [root] :=
    (anchoredNodes_eq present).trans list
  refine ⟨root, found, fun cloneable => cloneable.whole root ?_, fun whole => ⟨?_, ?_⟩⟩
  · rw [nodes]
    exact List.mem_append_right _ (List.mem_singleton_self root)
  · rw [found]
    rfl
  · intro node member
    rw [nodes] at member
    rcases List.mem_append.1 member with before | last
    · exact (precedes node before).isWhole
    · rw [List.mem_singleton.1 last]
      exact whole

/-- A document's declaration, if it has one, is a leaf. -/
def HasLeafDeclaration (grove : Grove) (document : Document) : Prop :=
  ∀ declaration, document.declaration = some declaration →
    (grove.leaf? declaration).isSome = true

theorem Regular.hasLeafDeclaration {id : DocumentId} (regular : grove.Regular [])
    (present : grove.document? id = some document) : grove.HasLeafDeclaration document := by
  intro declaration noted
  have instruction := regular.instructed id document declaration present noted
  have precedes : grove.Precedes declaration := .inr instruction
  rcases precedes.exists_leaf with ⟨content, leaf, _⟩
  exact Option.isSome_of_eq_some leaf

end Grove

/-- In all histories, a deep clone of a node that is not above itself is a copy, unless there is a
tag node below it whose construction was given up. The same goes for documents: if they can be
cloned, that makes a copy. Otherwise cloning fails, and all there was stays as it was. Documents
that have their shape can be cloned unless there is such a tag node in them. -/
theorem copies_of_reached (reached : Reached (fun act _ => act.Checks) grove) :
    (∀ id, grove.Offers id → grove.Unwound id →
      (cloneNode true id).Ensures grove
        (fun clone last => NodeCopy grove id clone last ∧ grove.IsWhole id)
        (fun last => last = grove ∧ ¬ grove.IsWhole id)) ∧
    (∀ id document, grove.document? id = some document → grove.HasLeafDeclaration document →
      (∀ node ∈ grove.anchoredNodes id, grove.Unwound node) →
        (cloneDocument id).Ensures grove
          (fun clone last => DocumentCopy grove id clone last ∧ grove.Cloneable id)
          (fun last => Preserved [] grove last ∧ ¬ grove.Cloneable id)) ∧
    (Reached (fun act grove => ¬ act.Crowds grove) grove →
      ∀ id document, grove.document? id = some document →
        grove.HasLeafDeclaration document ∧ ∃ root, grove.documentRoot? id = some root ∧
          (grove.Cloneable id ↔ grove.IsWhole root)) := by
  refine ⟨fun id => cloneNode_copies reached, ?_, ?_⟩
  · intro id document present leaf unwound
    have declared := fun declaration noted => isSome_view?_of_leaf? (leaf declaration noted)
    apply (cloneDocument_clones reached present declared unwound).with_outcome.mono
    · rintro clone last ⟨⟨cloned, cloneable⟩, outcome⟩
      have available : (Act.operate (.cloneDocument id)).Available grove :=
        ⟨fun other member => (by cases member), fun parts equal => (by cases equal)⟩
      have step := reached.step available trivial
      have applied : (Act.operate (.cloneDocument id)).apply grove = last := by
        change (cloneDocument id).after grove = last
        rw [Edit.after, outcome]
      rw [applied] at step
      exact ⟨cloned.copy reached step, cloneable⟩
    · rintro last ⟨failed, _⟩
      exact failed
  · intro uncrowded id document present
    have regular := uncrowded.regular
    exact ⟨regular.hasLeafDeclaration present, regular.cloneable_iff present⟩

theorem checked_prefacedGrove : Reached (fun act _ => act.Checks) prefacedGrove := by
  apply Reached.step
  · apply Reached.step
    · apply Reached.step
      · apply Reached.start.step
        · exact ⟨fun id member => (by cases member), fun parts equal => (by cases equal)⟩
        · trivial
      · exact fun loader member => member
      · trivial
    · exact ⟨fun id member => (by cases member), fun parts equal => (by cases equal)⟩
    · trivial
  · refine ⟨?_, fun parts equal => (by cases equal)⟩
    unfold Operation.Available Offers
    decide
  · trivial

theorem copies_of_reached_prefacedGrove :
    Reached (fun act _ => act.Checks) prefacedGrove ∧
      (∃ clone last, (cloneNode true ⟨0⟩).outcome prefacedGrove = (.ok clone, last) ∧
        NodeCopy prefacedGrove ⟨0⟩ clone last) ∧
      ∃ clone last, (cloneDocument ⟨0⟩).outcome prefacedGrove = (.ok clone, last) ∧
        DocumentCopy prefacedGrove ⟨0⟩ clone last := by
  rcases copies_of_reached checked_prefacedGrove with ⟨nodes, documents, shaped⟩
  have visible : (prefacedGrove.view? ⟨0⟩).isSome = true :=
    Option.isSome_of_eq_some view?_prefacedGrove
  have unwound : ∀ id, (prefacedGrove.view? id).isSome = true → prefacedGrove.Unwound id := by
    intro id visible
    exact unwound_of_acc (acc_of_viewWithin (Option.eq_some_of_isSome visible))
  have whole : prefacedGrove.IsWhole ⟨0⟩ := fun other way => isComplete_below visible way
  refine ⟨checked_prefacedGrove, ?_, ?_⟩
  · have offered : prefacedGrove.Offers ⟨0⟩ := by
      unfold Offers
      decide
    rcases (nodes ⟨0⟩ offered (unwound ⟨0⟩ visible)).exists_ok
        (fun last failed => failed.2 whole) with ⟨clone, last, outcome, copied, _⟩
    exact ⟨clone, last, outcome, copied⟩
  · have present : (prefacedGrove.document? ⟨0⟩).isSome = true := by decide
    rcases Option.isSome_iff_exists.1 present with ⟨document, known⟩
    rcases shaped reached_prefacedGrove ⟨0⟩ document known with ⟨leaf, root, found, cloneable⟩
    have rooted : prefacedGrove.documentRoot? ⟨0⟩ = some ⟨0⟩ := by decide
    rw [rooted] at found
    cases found
    have parts : prefacedGrove.anchoredNodes ⟨0⟩ = [⟨3⟩, ⟨0⟩] := by decide
    have each : ∀ node ∈ prefacedGrove.anchoredNodes ⟨0⟩, prefacedGrove.Unwound node := by
      rw [parts]
      intro node member
      rcases List.mem_pair.1 member with rfl | rfl
      · exact unwound ⟨3⟩ (isSome_view?_of_leaf? (by decide))
      · exact unwound ⟨0⟩ visible
    rcases (documents ⟨0⟩ document known leaf each).exists_ok
        (fun last failed => failed.2 (cloneable.2 whole)) with ⟨clone, last, outcome, copied, _⟩
    exact ⟨clone, last, outcome, copied⟩

/-- The construction of a tag node was given up when it had adopted a text node. The tag node, which
is what the text node still has as its parent, was attached to another one. -/
def unfinishedGrove : Grove :=
  (Act.operate (.append false ⟨2⟩ [.node ⟨1⟩])).apply
    ((Act.operate (.createTag (.text "parent") [] [])).apply
      ((Act.operate (.createTag (.text "tag") [] [.node ⟨0⟩, .unfit])).apply
        ((Act.operate (.createLeaf (.text "loose"))).apply {})))

theorem checked_unfinishedGrove : Reached (fun act _ => act.Checks) unfinishedGrove := by
  apply Reached.step
  · apply Reached.step
    · apply Reached.step
      · apply Reached.start.step
        · exact ⟨fun id member => (by cases member), fun parts equal => (by cases equal)⟩
        · trivial
      · refine ⟨?_, fun parts equal => (by cases equal)⟩
        unfold Operation.Available Offers
        decide
      · trivial
    · exact ⟨fun id member => (by cases member), fun parts equal => (by cases equal)⟩
    · trivial
  · refine ⟨?_, fun parts equal => (by cases equal)⟩
    unfold Operation.Available Offers
    decide
  · trivial

/-- Where each parent was added later than its children, no node is above itself. -/
theorem Grove.acyclic_of_later
    (later : ∀ index < grove.entries.size,
      (grove.parentLink? ⟨index⟩).all (index < ·.index) = true) : grove.Acyclic := by
  intro id round
  have upward : ∀ child parent, grove.Link child parent → child.index < parent.index := by
    intro child parent linked
    have held := later child.index (has_of_parentLink? linked)
    rw [show grove.parentLink? ⟨child.index⟩ = some parent from linked, Option.all_some] at held
    exact of_decide_eq_true held
  have greater : TransGen (· < ·) id.index id.index := round.lift NodeId.index upward
  rw [transGen_eq_self] at greater
  exact Nat.lt_irrefl _ greater

theorem acyclic_unfinishedGrove : unfinishedGrove.Acyclic :=
  acyclic_of_later (by decide)

/-- A tag node that is not above itself can't be cloned because of what was attached to it. -/
theorem not_cloned_of_reached :
    ¬ ∀ grove, Reached (fun act _ => act.Checks) grove → grove.Acyclic →
      ∀ id, grove.Offers id →
        ∃ clone last, (cloneNode true id).outcome grove = (.ok clone, last) := by
  intro succeeds
  have offered : unfinishedGrove.Offers ⟨2⟩ := by
    unfold Offers
    decide
  rcases succeeds unfinishedGrove checked_unfinishedGrove acyclic_unfinishedGrove ⟨2⟩ offered with
    ⟨clone, last, outcome⟩
  have sound := checked_unfinishedGrove.sound_and_anchored.1
  have copies := cloneNode_copies checked_unfinishedGrove offered
    (unwound_of_acyclic sound acyclic_unfinishedGrove ⟨2⟩)
  have listed : unfinishedGrove.Lists ⟨2⟩ ⟨1⟩ := by
    unfold Grove.Lists
    decide
  have finished := ((copies.of_ok outcome).2 ⟨1⟩ (.single listed)).finished
  have unfinished : unfinishedGrove.isUnfinished ⟨1⟩ = true := by decide
  rw [unfinished] at finished
  cases finished

end XmlGrove
