import XmlGrove.Proofs.Document.Creation
import XmlGrove.Proofs.Failure.Shown
import XmlGrove.Proofs.Grove.Reserve
import XmlGrove.Proofs.Grove.Walks

/-!
# Copies

A planted tree is shown by new nodes only, and so is a clone of a node. Neither changes anything
that was there, and a node can be cloned exactly if it can be viewed.
-/

namespace XmlGrove

namespace Grove

open Relation

variable {grove middle last start : Grove} {id other parent : NodeId} {high low : Nat}

/-! ## Nodes that show trees -/

theorem ShowsAll.exists_of_mem {ids : List NodeId} {trees : List Tree} :
    grove.ShowsAll high low ids trees → other ∈ ids → ∃ tree, grove.Shows high low other tree
  | .nil, member => by cases member
  | .cons first rest, member => by
      rcases List.mem_cons.1 member with rfl | further
      · exact ⟨_, first⟩
      · exact rest.exists_of_mem further

/-- What is listed by a node that shows a tree shows a tree below that. -/
theorem Shows.exists_of_lists {tree : Tree} (shows : grove.Shows high low id tree)
    (listed : grove.Lists id other) : ∃ below, grove.Shows high (id.index + 1) other below := by
  cases shows with
  | leaf _ _ present =>
      rw [Lists, children, childList?, present] at listed
      cases listed
  | tag _ _ present shown =>
      rw [Lists, children_of_node? present] at listed
      exact shown.exists_of_mem listed

/-- Nodes below one that shows a tree are within the same bounds. -/
theorem Shows.low_le {tree : Tree} (shows : grove.Shows high low id tree)
    (below : ReflTransGen grove.Lists id other) : low ≤ other.index := by
  induction below using ReflTransGen.head_induction_on generalizing low tree with
  | refl => exact shows.range.1
  | head listed further induction =>
      rcases shows.exists_of_lists listed with ⟨lower, deeper⟩
      have behind := shows.range.1
      have later := induction deeper
      omega

end Grove

open Grove

variable {grove middle last start : Grove} {id parent : NodeId}

/-! ## Planting -/

/-- A tree sprouts: new nodes show it, of which the topmost one has a given link. -/
structure Sprouts (grove : Grove) (link : Option NodeId) (id : NodeId) (tree : Tree)
    (last : Grove) : Prop where
  keeps : grove.Keeps grove.entries.size last
  shows : last.Shows last.entries.size grove.entries.size id tree
  link : last.parentLink? id = link
  documents : last.documents = grove.documents

/-- Several trees sprout. -/
structure AllSprout (grove : Grove) (ids : List NodeId) (trees : List Tree) (last : Grove) :
    Prop where
  keeps : grove.Keeps grove.entries.size last
  shows : last.ShowsAll last.entries.size grove.entries.size ids trees
  documents : last.documents = grove.documents

theorem keeps_add_entry (entry : Entry) :
    grove.Keeps grove.entries.size (grove.add entry) where
  size := by simp
  node? id older := by rw [node?_add, if_neg (ne_nextId_of_has older)]
  link id older := by rw [parentLink?_add, if_neg (ne_nextId_of_has older)]

theorem sprouts_leaf (link : Option NodeId) (content : Leaf) :
    Sprouts grove link grove.nextId (.leaf content) (grove.add ⟨.leaf content, link⟩) where
  keeps := keeps_add_entry _
  shows := by
    refine .leaf (Nat.le_refl _) ?_ ?_
    · rw [size_add]
      exact Nat.lt_succ_self _
    · exact node?_nextId_add
  link := by rw [parentLink?_add, if_pos rfl]
  documents := rfl

theorem AllSprout.cons {tree : Tree} {ids : List NodeId} {trees : List Tree}
    {link : Option NodeId} (former : Sprouts grove link id tree middle)
    (latter : AllSprout middle ids trees last) :
    AllSprout grove (id :: ids) (tree :: trees) last where
  keeps := former.keeps.trans (latter.keeps.mono former.keeps.size)
  shows := by
    apply ShowsAll.cons
    · exact former.shows.transfer (Nat.le_refl _) latter.keeps.size
        fun id _ older => latter.keeps.node? id older
    · exact latter.shows.transfer former.keeps.size (Nat.le_refl _) fun _ _ _ => rfl
  documents := latter.documents.trans former.documents

/-- A tag node sprouts with its children when it gets the list of these. -/
theorem AllSprout.fill {name : Name} {attributes : Attributes} {link : Option NodeId}
    {ids : List NodeId} {trees : List Tree}
    (others : AllSprout (grove.add ⟨.tag name attributes [], link⟩) ids trees last) :
    Sprouts grove link grove.nextId (.tag name attributes trees)
      (last.setChildren grove.nextId ids) := by
  have size : (last.setChildren grove.nextId ids).entries.size = last.entries.size :=
    size_modifyEntry _
  have older : ∀ {id : NodeId}, id.index < grove.entries.size →
      id.index < (grove.add ⟨.tag name attributes [], link⟩).entries.size := by
    intro id before
    rw [size_add]
    omega
  have own : grove.nextId.index < (grove.add ⟨.tag name attributes [], link⟩).entries.size := by
    rw [size_add]
    exact Nat.lt_succ_self _
  have added : grove.Keeps grove.entries.size (grove.add ⟨.tag name attributes [], link⟩) :=
    keeps_add_entry _
  have present : (last.setChildren grove.nextId ids).node? grove.nextId =
      some (.tag name attributes ids) := by
    rw [node?_setChildren, if_pos rfl, others.keeps.node? _ own, node?_nextId_add]
    rfl
  refine ⟨⟨?_, ?_, ?_⟩, .tag (Nat.le_refl _) ?_ present ?_, ?_, others.documents⟩
  · rw [size]
    exact Nat.le_trans added.size others.keeps.size
  · intro id before
    rw [node?_setChildren, if_neg (ne_nextId_of_has before), others.keeps.node? id (older before),
      added.node? id before]
  · intro id before
    rw [parentLink?_setChildren, others.keeps.link id (older before), added.link id before]
  · rw [size]
    exact Nat.lt_of_lt_of_le own others.keeps.size
  · apply others.shows.transfer
    · rw [size_add]
      exact Nat.le_refl _
    · exact Nat.le_of_eq size.symm
    · intro id behind _
      rw [node?_setChildren, if_neg]
      rintro rfl
      rw [size_add] at behind
      exact Nat.lt_irrefl _ behind
  · rw [parentLink?_setChildren, others.keeps.link _ own, parentLink?_add, if_pos rfl]

mutual

theorem sprouts_plantBelow (link : Option NodeId) (tree : Tree) (grove : Grove) :
    Sprouts grove link ((plantBelow link tree).run grove).1 tree
      ((plantBelow link tree).run grove).2 := by
  cases tree with
  | leaf content =>
      rw [plantBelow]
      exact sprouts_leaf link content
  | tag name attributes children =>
      rw [plantBelow]
      exact (allSprout_plantAllBelow grove.nextId children
        (grove.add ⟨.tag name attributes [], link⟩)).fill

theorem allSprout_plantAllBelow (parent : NodeId) (trees : List Tree) (grove : Grove) :
    AllSprout grove ((plantAllBelow parent trees).run grove).1 trees
      ((plantAllBelow parent trees).run grove).2 := by
  cases trees with
  | nil =>
      rw [plantAllBelow]
      exact ⟨.refl _ grove, .nil, rfl⟩
  | cons first rest =>
      rw [plantAllBelow]
      exact .cons (sprouts_plantBelow (some parent) first grove)
        (allSprout_plantAllBelow parent rest ((plantBelow (some parent) first).run grove).2)

end

theorem plant_yields (tree : Tree) (grove : Grove) :
    (plant tree).Yields grove fun id last => Sprouts grove none id tree last :=
  sprouts_plantBelow none tree grove

/-! ## What is there already -/

namespace Grove

open Relation

variable {held : List NodeId}

/-- All nodes are as they were, apart from their parents. -/
structure Retained (before after : Grove) : Prop where
  size : before.entries.size ≤ after.entries.size
  node? : ∀ {id}, before.Has id → after.node? id = before.node? id

/-- Every node and every document is as it was: names, attributes, contents and children, and
parents as well unless a node is held. -/
structure Preserved (held : List NodeId) (before after : Grove) : Prop
    extends Retained before after where
  link : ∀ {id}, before.Has id → id ∉ held → after.parentLink? id = before.parentLink? id
  document? : ∀ {id document}, before.document? id = some document →
    after.document? id = some document

namespace Retained

theorem refl (grove : Grove) : Retained grove grove := ⟨Nat.le_refl _, fun _ => rfl⟩

theorem trans (former : Retained grove middle) (latter : Retained middle last) :
    Retained grove last where
  size := Nat.le_trans former.size latter.size
  node? {id} present := by
    have later : middle.Has id := Nat.lt_of_lt_of_le present former.size
    rw [latter.node? later, former.node? present]

variable (retained : Retained grove last)

include retained

theorem has (present : grove.Has id) : last.Has id :=
  Nat.lt_of_lt_of_le present retained.size

/-- What is below an existing node stays the same. -/
theorem below (sound : grove.Sound) (has : grove.Has id)
    (way : ReflTransGen grove.Lists id other) : last.node? other = grove.node? other := by
  apply retained.node?
  induction way with
  | refl => exact has
  | tail _ listed _ => exact has_of_parentLink? (sound.listed listed)

theorem complete_of_view? (sound : grove.Sound) (has : grove.Has id)
    (visible : (last.view? id).isSome = true) (way : ReflTransGen grove.Lists id other) :
    grove.IsComplete other := by
  have shown : (last.view? other).isSome = true := by
    induction way with
    | refl => exact visible
    | tail way listed induction =>
        apply isSome_view?_of_lists induction
        rw [Lists, children_eq_of_node? (retained.below sound has way)]
        exact listed
  have complete := isComplete_of_view? shown
  have same := retained.below sound has way
  refine ⟨?_, ?_⟩
  · rw [kind?, ← same]
    exact complete.kind
  · rw [isUnfinished, ← same]
    exact complete.finished

theorem view? (sound : grove.Sound) {tree : Tree} (seen : grove.view? id = some tree) :
    last.view? id = some tree := by
  have has := (isComplete_of_view? (Option.isSome_of_eq_some seen)).has
  exact view?_of_kept retained.size (fun _ => retained.below sound has) seen

/-- What could not be viewed can't be viewed later either. -/
theorem view?_eq_none (sound : grove.Sound) (has : grove.Has id) (unwound : grove.Unwound id)
    (hidden : grove.view? id = none) : last.view? id = none := by
  rw [← Option.not_isSome_iff_eq_none] at hidden ⊢
  intro visible
  apply hidden
  rw [isSome_view?_iff sound unwound]
  intro other way
  exact retained.complete_of_view? sound has visible way

end Retained

namespace Preserved

theorem refl (grove : Grove) : Preserved held grove grove where
  toRetained := .refl grove
  link _ _ := rfl
  document? present := present

theorem trans (former : Preserved held grove middle) (latter : Preserved held middle last) :
    Preserved held grove last where
  toRetained := former.toRetained.trans latter.toRetained
  link present apart := by
    rw [latter.link (former.has present) apart, former.link present apart]
  document? present := latter.document? (former.document? present)

theorem widen {wider : List NodeId} (preserved : Preserved held grove last)
    (within : ∀ id ∈ held, id ∈ wider) : Preserved wider grove last where
  toRetained := preserved.toRetained
  link present apart := preserved.link present fun member => apart (within _ member)
  document? := preserved.document?

theorem hold (preserved : Preserved [] grove last) : Preserved held grove last :=
  preserved.widen fun _ member => by cases member

/-- Where new nodes are held, all that there was is as it was. -/
theorem of_later (preserved : Preserved held grove last)
    (later : ∀ id ∈ held, ¬ grove.Has id) : Preserved [] grove last where
  toRetained := preserved.toRetained
  link present _ := preserved.link present fun member => later _ member present
  document? := preserved.document?

end Preserved

theorem Keeps.preserved (keeps : grove.Keeps grove.entries.size last)
    (documents : last.documents = grove.documents) : Preserved held grove last where
  size := keeps.size
  node? present := keeps.node? _ present
  link present _ := keeps.link _ present
  document? present := by rwa [Grove.document?, documents]

end Grove

theorem Sprouts.preserved {held : List NodeId} {link : Option NodeId} {tree : Tree}
    (sprouts : Sprouts grove link id tree last) : Preserved held grove last :=
  sprouts.keeps.preserved sprouts.documents

/-! ## Clones of nodes -/

theorem Grove.Writable.tree (writable : grove.Writable) {bound : Nat} {tree : Tree}
    (seen : grove.viewWithin bound id = some tree) : tree.isWritable = true := by
  induction bound generalizing id tree with
  | zero =>
      rw [viewWithin] at seen
      cases seen
  | succ bound induction =>
      rcases viewWithin_cases seen with ⟨content, present, rfl⟩ |
        ⟨smaller, name, attributes, children, trees, equal, present, rfl, each⟩
      · rw [Tree.isWritable]
        exact writable id content (by rw [leaf?, present])
      · cases equal
        rw [Tree.isWritable]
        clear seen present
        induction each with
        | nil => rfl
        | cons first rest others =>
            rw [Tree.areWritable, induction first, others]
            rfl

/-- A clone is planted anew. -/
theorem outcome_cloneNode_of_writable {tree : Tree} (writable : tree.isWritable = true)
    (seen : grove.view? id = some tree) :
    (cloneNode true id).outcome grove = (plant tree).outcome grove := by
  have required : (requireView id).outcome grove = (.ok tree, grove) := by
    rw [requireView, Edit.outcome_bind_of_ok (Edit.outcome_get grove), seen]
    rfl
  have checked : tree.checked = .ok tree := Tree.checked_eq_ok_iff.2 ⟨rfl, writable⟩
  rw [cloneNode, if_pos rfl, Edit.outcome_bind_of_ok required, construct, checked]
  rfl

/-- What is viewed is cloned: new nodes show the same tree. -/
theorem cloneNode_yields {tree : Tree} (writable : grove.Writable)
    (seen : grove.view? id = some tree) :
    (cloneNode true id).Yields grove
      fun clone last => Sprouts grove none clone tree last ∧ last.Writable := by
  have sprouts : (cloneNode true id).Yields grove
      fun clone last => Sprouts grove none clone tree last := by
    rw [Edit.Yields, Edit.Ensures, outcome_cloneNode_of_writable (writable.tree seen) seen]
    exact sprouts_plantBelow none tree grove
  have respects : (cloneNode true id).Respects (Reserve.nothing grove) grove _ :=
    respects_cloneNode (Reserve.intact_start _ writable)
  apply (sprouts.and respects).mono
  · rintro clone last ⟨sprouts, _, intact⟩
    exact ⟨sprouts, intact.writable⟩
  · rintro last ⟨impossible, _⟩
    exact impossible

theorem outcome_cloneNode_of_hidden (hidden : grove.view? id = none) :
    (cloneNode true id).outcome grove = (.error .noMember, grove) := by
  have required : (requireView id).outcome grove = (.error .noMember, grove) := by
    rw [requireView, Edit.outcome_bind_of_ok (Edit.outcome_get grove), hidden]
    rfl
  rw [cloneNode, if_pos rfl]
  exact Edit.outcome_bind_of_error required

/-- Nodes are cloned one after the other, until there is one that can't be viewed. It does not
matter that there are further nodes meanwhile. -/
theorem cloneNodes_sprout {ids : List NodeId} (sound : start.Sound)
    (has : ∀ id ∈ ids, start.Has id) (unwound : ∀ id ∈ ids, start.Unwound id)
    (preserved : Preserved [] start grove) (writable : grove.Writable) :
    (cloneNodes ids).Ensures grove
      (fun clones last => ∃ trees,
        List.Forall₂ (fun id tree => start.view? id = some tree) ids trees ∧
          AllSprout grove clones trees last ∧ last.Writable)
      (fun last => Preserved [] start last ∧ ∃ id ∈ ids, start.view? id = none) := by
  induction ids generalizing grove with
  | nil => exact Edit.ensures_pure ⟨[], .nil, ⟨.refl _ grove, .nil, rfl⟩, writable⟩
  | cons first rest induction =>
      rw [cloneNodes]
      cases seen : start.view? first with
      | none =>
          have hidden := preserved.view?_eq_none sound (has first List.mem_cons_self)
            (unwound first List.mem_cons_self) seen
          rw [Edit.Ensures, Edit.outcome_bind_of_error (outcome_cloneNode_of_hidden hidden)]
          exact ⟨preserved, first, List.mem_cons_self, seen⟩
      | some tree =>
          apply Edit.Ensures.bind
          apply (cloneNode_yields writable (preserved.view? sound seen)).ensures
          rintro clone middle ⟨sprouts, writable⟩
          apply Edit.Ensures.bind
          apply (induction (fun id member => has id (List.mem_cons_of_mem first member))
            (fun id member => unwound id (List.mem_cons_of_mem first member))
            (preserved.trans sprouts.preserved) writable).mono
          · rintro others last ⟨trees, each, sprout, writable⟩
            exact Edit.ensures_pure ⟨tree :: trees, .cons seen each, .cons sprouts sprout, writable⟩
          · rintro last ⟨kept, id, member, hidden⟩
            exact ⟨kept, id, List.mem_cons_of_mem first member, hidden⟩

/-! ## Reproductions -/

namespace Grove

open Relation

/-- A node shows the tree that another one showed earlier, and all nodes below it are new. -/
structure Reproduced (before after : Grove) (id clone : NodeId) : Prop where
  alike : ShowsAlike before after id clone
  fresh : ∀ other, ReflTransGen after.Lists clone other → ¬ before.Has other

theorem Shows.reproduced {tree : Tree} {clone : NodeId}
    (shows : grove.Shows grove.entries.size low clone tree) (older : start.entries.size ≤ low)
    (seen : start.view? id = some tree) : Reproduced start grove id clone where
  alike := ⟨tree, seen, shows.viewWithin (by omega)⟩
  fresh other below present := by
    have newer := shows.low_le below
    rw [Has] at present
    omega

theorem ShowsAll.reproduced {ids clones : List NodeId} {trees : List Tree}
    (shown : grove.ShowsAll grove.entries.size low clones trees)
    (older : start.entries.size ≤ low)
    (each : List.Forall₂ (fun id tree => start.view? id = some tree) ids trees) :
    List.Forall₂ (Reproduced start grove) ids clones := by
  induction each generalizing clones with
  | nil =>
      cases shown
      exact .nil
  | cons seen others induction =>
      cases shown with
      | cons first rest => exact .cons (first.reproduced older seen) (induction rest)

/-- A copy stays a copy as long as its nodes stay the same. -/
theorem Reproduced.keep {clone : NodeId} (reproduced : Reproduced start grove id clone)
    (sound : grove.Sound) (retained : Retained grove last) : Reproduced start last id clone where
  alike := by
    rcases reproduced.alike with ⟨tree, seen, shown⟩
    exact ⟨tree, seen, retained.view? sound shown⟩
  fresh other below := by
    rcases reproduced.alike with ⟨tree, _, shown⟩
    have has := (isComplete_of_view? (Option.isSome_of_eq_some shown)).has
    apply reproduced.fresh
    induction below with
    | refl => exact .refl
    | tail _ listed induction =>
        rw [Lists, children_eq_of_node? (retained.below sound has induction)] at listed
        exact induction.tail listed

end Grove

end XmlGrove
