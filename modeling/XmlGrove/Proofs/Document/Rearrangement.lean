import XmlGrove.Proofs.Document.Shape

/-!
# Rearranged prologues

A prologue is the front of a longer list, which a document's root follows in. What is put into that
list, or taken out of it, is put into the prologue or taken out of it, and leaves the root where it
is; what is put behind the root doesn't get into the prologue.
-/

namespace XmlGrove

namespace Grove

variable {grove before after : Grove} {id other : DocumentId} {document : Document}
  {anchor node : NodeId} {nodes front behind : List NodeId} {position : Nat}

theorem exists_divided (grove : Grove) (id : DocumentId) :
    ∃ behind, grove.Divided (grove.anchoredNodes id) (grove.prologue id) behind := by
  refine ⟨_, List.takeWhile_append_dropWhile.symm, ?_, ?_⟩
  · intro node member
    exact Prologue.isTag_of_mem_prologue member
  · intro node head
    have other := List.head?_dropWhile_not (fun node => !grove.isTag node) (grove.anchoredNodes id)
    rw [Option.mem_def.1 head] at other
    simpa using other

/-! ## Lists of anchors -/

/-- Links and the list of one node aside, everything is as it was. -/
structure Regrouped (before : Grove) (anchor : NodeId) (nodes : List NodeId) (after : Grove) :
    Prop where
  shape : ∀ node, after.shape? node = before.shape? node
  documents : after.documents = before.documents
  own : after.children anchor = nodes
  other : ∀ node, node ≠ anchor → after.children node = before.children node

namespace Regrouped

theorem isTag (regrouped : Regrouped before anchor nodes after) :
    after.isTag = before.isTag := by
  funext node
  rw [Grove.isTag, Grove.isTag, tag?_eq_shape?, tag?_eq_shape?, regrouped.shape]

theorem document? (regrouped : Regrouped before anchor nodes after) :
    after.document? id = before.document? id := by
  rw [Grove.document?, Grove.document?, regrouped.documents]

theorem anchoredNodes (regrouped : Regrouped before document.anchor nodes after)
    (present : before.document? id = some document) : after.anchoredNodes id = nodes := by
  rw [anchoredNodes_eq (regrouped.document?.trans present), regrouped.own]

theorem anchoredNodes_of_ne (regrouped : Regrouped before document.anchor nodes after)
    (anchored : before.Anchored) (present : before.document? id = some document)
    (different : other ≠ id) : after.anchoredNodes other = before.anchoredNodes other := by
  cases found : before.document? other with
  | none => rw [Grove.anchoredNodes, Grove.anchoredNodes, regrouped.document?, found]
  | some owner =>
      rw [anchoredNodes_eq (regrouped.document?.trans found), anchoredNodes_eq found]
      apply regrouped.other
      intro same
      have known := anchored other owner found
      rw [same, anchored id document present] at known
      exact different (Option.some.inj known).symm

end Regrouped

/-- Prologues and roots are what they were. -/
def Unmoved (before after : Grove) : Prop :=
  ∀ id, after.prologue id = before.prologue id ∧ after.documentRoot? id = before.documentRoot? id

theorem unmoved_refl (grove : Grove) : grove.Unmoved grove := fun _ => ⟨rfl, rfl⟩

theorem prologue_and_root_of_anchoredNodes (tags : after.isTag = before.isTag)
    (same : after.anchoredNodes id = before.anchoredNodes id) :
    after.prologue id = before.prologue id ∧ after.documentRoot? id = before.documentRoot? id := by
  rw [prologue, prologue, documentRoot?, documentRoot?, tags, same]
  exact ⟨rfl, rfl⟩

theorem unmoved_setParent {link : Option NodeId} : grove.Unmoved (grove.setParent node link) := by
  have tags : (grove.setParent node link).isTag = grove.isTag := by
    funext other
    rw [isTag, isTag, tag?_eq_shape?, tag?_eq_shape?, shape?_setParent]
  intro id
  apply prologue_and_root_of_anchoredNodes tags
  have same : (grove.setParent node link).document? id = grove.document? id := rfl
  rw [anchoredNodes, anchoredNodes, same]
  cases grove.document? id with
  | none => rfl
  | some document => exact children_setParent

/-- The prologue of a document may be another one. The document's root and the prologues and roots
of others are what they were, and so are the nodes. What is in the prologue is linked to the anchor,
and what isn't any more has no parent. -/
structure Rearranged (before : Grove) (id : DocumentId) (anchor : NodeId) (after : Grove) :
    Prop where
  root : after.documentRoot? id = before.documentRoot? id
  others : ∀ other, other ≠ id → after.prologue other = before.prologue other ∧
    after.documentRoot? other = before.documentRoot? other
  node? : ∀ node, node ≠ anchor → after.node? node = before.node? node
  held : ∀ node ∈ after.prologue id, after.parentLink? node = some anchor
  released : ∀ node ∈ before.prologue id, node ∉ after.prologue id → after.parentLink? node = none
  link : ∀ node, node ∉ before.anchoredNodes id → node ∉ after.anchoredNodes id →
    after.parentLink? node = before.parentLink? node

theorem Regrouped.prologue_and_root (regrouped : Regrouped before document.anchor nodes after)
    (present : before.document? id = some document) (divided : before.Divided nodes front behind) :
    after.prologue id = front ∧ after.documentRoot? id = behind.head? := by
  rw [prologue, documentRoot?, regrouped.anchoredNodes present, regrouped.isTag]
  exact ⟨divided.takeWhile, divided.find?⟩

theorem Regrouped.node? (regrouped : Regrouped before anchor nodes after)
    (different : node ≠ anchor) : after.node? node = before.node? node :=
  node?_of_shape? (regrouped.shape node) (regrouped.other node different)

theorem linked_of_mem_anchoredNodes (sound : grove.Sound)
    (present : grove.document? id = some document) (member : node ∈ grove.anchoredNodes id) :
    grove.parentLink? node = some document.anchor := by
  rw [anchoredNodes_eq present] at member
  exact sound.listed member

/-- A node was put into the list of an anchor. -/
def placed (grove : Grove) (anchor : NodeId) (position : Nat) (node : NodeId) : Grove :=
  (grove.setParent node (some anchor)).setChildren anchor
    ((grove.children anchor).insertIdx position node)

theorem regrouped_placed (listed : (grove.childList? anchor).isSome = true) (position : Nat)
    (node : NodeId) : Regrouped grove anchor ((grove.children anchor).insertIdx position node)
      (grove.placed anchor position node) where
  shape other := by rw [placed, shape?_setChildren, shape?_setParent]
  documents := rfl
  own := by
    rcases Option.isSome_iff_exists.1 listed with ⟨siblings, known⟩
    have kept : (grove.setParent node (some anchor)).childList? anchor = some siblings := by
      rw [childList?_eq_of_node? node?_setParent, known]
    rw [placed, children_setChildren_self kept]
  other other different := by
    rw [placed, children_setChildren_of_ne _ different, children_setParent]

theorem parentLink?_placed (has : grove.Has node) (child : NodeId) :
    (grove.placed anchor position node).parentLink? child =
      if child = node then some anchor else grove.parentLink? child := by
  rw [placed, parentLink?_setChildren, parentLink?_setParent_of_has has]

/-- What is put in front of the root gets into the prologue, and what is put behind it doesn't. -/
theorem rearranged_placed (sound : grove.Sound) (anchored : grove.Anchored)
    (present : grove.document? id = some document) (has : grove.Has node)
    (plain : grove.isTag node = false) (bounded : position ≤ (grove.anchoredNodes id).length) :
    Rearranged grove id document.anchor (grove.placed document.anchor position node) ∧
      (grove.placed document.anchor position node).prologue id =
        if position ≤ (grove.prologue id).length then (grove.prologue id).insertIdx position node
        else grove.prologue id := by
  have listed := childList?_of_anchored? (anchored id document present)
  have regrouped := regrouped_placed listed position node
  rw [← anchoredNodes_eq present] at regrouped
  rcases exists_divided grove id with ⟨behind, divided⟩
  have top : grove.documentRoot? id = behind.head? := divided.find?
  have tells : (grove.placed document.anchor position node).prologue id =
      (if position ≤ (grove.prologue id).length then (grove.prologue id).insertIdx position node
        else grove.prologue id) ∧
      (grove.placed document.anchor position node).documentRoot? id = grove.documentRoot? id := by
    rw [top]
    by_cases early : position ≤ (grove.prologue id).length
    · rw [if_pos early]
      exact regrouped.prologue_and_root present (divided.insertIdx plain early)
    · rw [if_neg early]
      rcases divided.exists_insertIdx node (Nat.not_le.1 early) bounded with
        ⟨rest, further, head⟩
      rw [← head]
      exact regrouped.prologue_and_root present further
  refine ⟨⟨tells.2, ?_, fun other => regrouped.node?, ?_, ?_, ?_⟩, tells.1⟩
  · intro other different
    exact prologue_and_root_of_anchoredNodes regrouped.isTag
      (regrouped.anchoredNodes_of_ne anchored present different)
  · intro child member
    have within := mem_anchoredNodes_of_mem_prologue member
    rw [regrouped.anchoredNodes present, List.mem_insertIdx bounded] at within
    rw [parentLink?_placed has]
    split
    · rfl
    · rename_i different
      exact linked_of_mem_anchoredNodes sound present (within.resolve_left different)
  · intro child member gone
    rw [tells.1] at gone
    split at gone
    · rename_i early
      exact absurd ((List.mem_insertIdx early).2 (.inr member)) gone
    · exact absurd member gone
  · intro child _ apart
    rw [regrouped.anchoredNodes present, List.mem_insertIdx bounded, not_or] at apart
    rw [parentLink?_placed has, if_neg apart.1]

theorem Pruned.regrouped {removed : List NodeId} (pruned : Pruned before after anchor removed) :
    Regrouped before anchor ((before.children anchor).filter (· ∉ removed)) after where
  shape := pruned.shape
  documents := pruned.documents
  own := pruned.own
  other := pruned.other

theorem Pruned.rearranged {removed : List NodeId}
    (pruned : Pruned before after document.anchor removed) (sound : before.Sound)
    (anchored : before.Anchored) (present : before.document? id = some document)
    (plain : ∀ node ∈ removed, before.isTag node = false) :
    Rearranged before id document.anchor after ∧
      after.prologue id = (before.prologue id).filter (· ∉ removed) := by
  have regrouped := pruned.regrouped
  rw [← anchoredNodes_eq present] at regrouped
  rcases exists_divided before id with ⟨behind, divided⟩
  have top : before.documentRoot? id = behind.head? := divided.find?
  have kept : ∀ node, before.isTag node = true → decide (node ∉ removed) = true := by
    intro node tag
    rw [decide_eq_true_iff]
    intro member
    rw [plain node member] at tag
    cases tag
  rcases divided.filter kept with ⟨further, head⟩
  have tells := regrouped.prologue_and_root present further
  rw [head, ← top] at tells
  refine ⟨⟨tells.2, ?_, fun other => regrouped.node?, ?_, ?_, ?_⟩, tells.1⟩
  · intro other different
    exact prologue_and_root_of_anchoredNodes regrouped.isTag
      (regrouped.anchoredNodes_of_ne anchored present different)
  · intro child member
    exact linked_of_mem_anchoredNodes (pruned.sound sound)
      (regrouped.document?.trans present) (mem_anchoredNodes_of_mem_prologue member)
  · intro child member gone
    rw [tells.1, List.mem_filter, not_and] at gone
    rw [pruned.link, if_pos (by simpa using gone member)]
  · intro child apart _
    rw [pruned.link, if_neg]
    intro member
    apply apart
    rw [anchoredNodes_eq present]
    exact pruned.subset child member

end Grove

end XmlGrove
