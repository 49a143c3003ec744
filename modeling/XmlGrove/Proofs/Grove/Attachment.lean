import XmlGrove.Proofs.Grove.Change

/-!
# Attaching sources

A source that is attached leaves no link loose. It closes a cycle in one case only: a template
holds the topmost node above the parent. That node is linked to the new nodes before these are
linked to the parent, when nothing looks for what they hold.
-/

namespace XmlGrove

open Grove Relation

variable {grove middle last : Grove} {id child parent : NodeId} {source : Source}
  {held : List NodeId}

/-! ## Placements -/

/-- Where a new child is placed among the present ones. -/
abbrev Placement := List NodeId → NodeId → List NodeId

namespace Placement

/-- Behind all others. -/
def atEnd : Placement := fun siblings child => siblings ++ [child]

/-- At the position that an index denotes. -/
def atIndex (index : Int) : Placement := fun siblings child =>
  siblings.insertIdx (insertionPosition siblings.length index) child

/-- A placement keeps all present children and adds the new one once. -/
def IsFair (placement : Placement) : Prop :=
  ∀ siblings child, (placement siblings child).Perm (child :: siblings)

theorem isFair_atEnd : atEnd.IsFair := by
  intro siblings child
  exact List.perm_append_singleton child siblings

theorem insertionPosition_le (length : Nat) (index : Int) :
    insertionPosition length index ≤ length := by
  rw [insertionPosition]
  split
  · omega
  · exact Nat.min_le_left _ _

theorem isFair_atIndex (index : Int) : (atIndex index).IsFair := by
  intro siblings child
  exact List.perm_insertIdx child siblings (insertionPosition_le siblings.length index)

end Placement

/-- Attach a source as a child at a place. -/
def attach (placement : Placement) (parent : NodeId) (source : Source) : Edit NodeId := do
  let _ ← requireChildren parent
  let child ← adopt parent source
  modify fun grove => grove.setChildren parent (placement (grove.children parent) child)
  return child

theorem appendChild_eq_attach (parent : NodeId) (source : Source) :
    appendChild parent source = attach Placement.atEnd parent source := rfl

theorem insertChild_eq_attach (parent : NodeId) (index : Int) (source : Source) :
    insertChild parent index source = attach (Placement.atIndex index) parent source := rfl

/-! ## Cycles -/

/-- A source is a template that holds the topmost node above a parent. -/
def Source.HoldsTop (source : Source) (grove : Grove) (parent : NodeId) : Prop :=
  ∃ definition, source = .template definition ∧ grove.top parent ∈ definition.nodes

theorem Constructed.way_of_added (constructed : Constructed grove held child last)
    (has : last.Has id) (added : ¬ grove.Has id) : ReflTransGen last.Link id child := by
  induction equal : id.index using Nat.strongRecOn generalizing id with
  | ind index induction =>
      by_cases topmost : id = child
      · rw [topmost]
      · rcases Option.isSome_iff_exists.1 (constructed.joined added has topmost) with ⟨owner, link⟩
        rcases constructed.grafted.link_cases link with before | ⟨_, recent, _, newer⟩
        · rw [parentLink?_of_not_has added] at before
          cases before
        · rw [Has] at added
          have before : owner.index < id.index := newer (Nat.le_of_not_lt added)
          have present : last.Has owner := Nat.lt_trans before has
          exact (induction owner.index (by omega) present (Nat.not_lt.2 recent) rfl).head link

/-- A new tree comes to be above an existing node exactly if it holds the topmost node above
that. -/
theorem Constructed.way_iff (constructed : Constructed grove held child last)
    (sound : grove.Sound) (acyclic : last.Acyclic) (has : grove.Has parent) :
    ReflTransGen last.Link parent child ↔ grove.top parent ∈ held := by
  have before : grove.Acyclic :=
    acyclic.of_link fun _ _ link => constructed.grafted.link_of_link link
  rcases top_spec sound before parent with ⟨up, free⟩
  have present := sound.has_of_way has up
  have kept : ReflTransGen last.Link parent (grove.top parent) :=
    ReflTransGen.mono (fun _ _ link => constructed.grafted.link_of_link link) _ _ up
  have distinct : grove.top parent ≠ child := by
    intro equal
    rw [equal] at present
    exact constructed.added present
  constructor
  · intro way
    rcases way_total kept way with below | above
    · rcases below.cases_head with equal | ⟨owner, link, _⟩
      · exact absurd equal distinct
      · rcases constructed.grafted.link_cases link with earlier | ⟨_, _, older, _⟩
        · rw [free] at earlier
          cases earlier
        · exact older present
    · rcases above.cases_head with equal | ⟨owner, link, _⟩
      · exact absurd equal.symm distinct
      · rw [Link, constructed.free] at link
        cases link
  · intro member
    rcases Option.isSome_iff_exists.1 (constructed.bound _ member) with ⟨owner, link⟩
    rcases constructed.grafted.link_cases link with earlier | ⟨_, recent, _⟩
    · rw [free] at earlier
      cases earlier
    · have owned := ((constructed.grafted.sound sound).target link).1
      exact kept.trans ((constructed.way_of_added owned (Nat.not_lt.2 recent)).head link)

theorem acyclic_found (sound : grove.Sound) (has : grove.Has child)
    (plain : grove.isAnchor child = false) (free : grove.parentLink? child = none)
    (bears : grove.Bears parent)
    (checked : grove.isTag child = true → grove.isAtOrAbove child parent = false)
    (acyclic : grove.Acyclic) : (grove.setParent child (some parent)).Acyclic := by
  apply (acyclic_setParent_iff acyclic has free).2
  intro above
  by_cases tag : grove.isTag child = true
  · have passed := checked tag
    rw [(isAtOrAbove_iff sound acyclic).2 above] at passed
    cases passed
  · have bearing : grove.Bears child := by
      rcases above.cases_tail with equal | ⟨other, _, link⟩
      · rw [equal]
        exact bears
      · exact sound.target link
    rcases bearing with ⟨present, leafless⟩
    rw [has_iff, ← Option.isSome_map (f := Entry.node)] at present
    rcases Option.isSome_iff_exists.1 present with ⟨node, found⟩
    change grove.node? child = some node at found
    rw [leaf?, found] at leafless
    rw [isTag, tag?, found] at tag
    rw [isAnchor, anchored?, found] at plain
    cases node with
    | leaf content => cases leafless
    | tag name attributes children => exact tag rfl
    | unfinished name attributes => exact tag rfl
    | anchor document children => cases plain

/-! ## One source -/

/-- A parent has another child, made of a source. -/
def Attached (placement : Placement) (grove : Grove) (parent : NodeId) (source : Source)
    (child : NodeId) (last : Grove) : Prop :=
  ∃ middle, (grove.childList? parent).isSome = true ∧ Adopted grove parent source child middle ∧
    last = middle.setChildren parent (placement (middle.children parent) child)

theorem outcome_requireChildren :
    (requireChildren id).outcome grove =
      (match grove.childList? id with
        | some children => .ok children
        | none => .error .noMember, grove) := by
  rw [requireChildren, Edit.outcome_bind_of_ok (Edit.outcome_get grove)]
  cases grove.childList? id with
  | none => rfl
  | some children => rfl

theorem outcome_requireChildren_of_listed {children : List NodeId}
    (listed : grove.childList? id = some children) :
    (requireChildren id).outcome grove = (.ok children, grove) := by
  rw [outcome_requireChildren, listed]

theorem requireChildren_tells (id : NodeId) (grove : Grove) :
    Edit.Ensures (requireChildren id) grove
      (fun children last => last = grove ∧ grove.childList? id = some children)
      (fun last => last = grove ∧ grove.childList? id = none) := by
  rw [Edit.Ensures, outcome_requireChildren]
  cases grove.childList? id with
  | none => exact ⟨rfl, rfl⟩
  | some children => exact ⟨rfl, rfl⟩

theorem requireChildren_ensures (id : NodeId) (grove : Grove) :
    Edit.Ensures (requireChildren id) grove
      (fun children last => last = grove ∧ grove.childList? id = some children)
      (fun last => last = grove) :=
  (requireChildren_tells id grove).mono (fun _ _ both => both) fun _ both => both.1

theorem attach_ensures (placement : Placement) (parent : NodeId) (source : Source)
    (sound : grove.Sound) (present : ∀ id ∈ source.nodes, grove.Has id) :
    Edit.Ensures (attach placement parent source) grove (Attached placement grove parent source)
      (Abandoned grove source.nodes) := by
  rw [attach]
  apply Edit.Ensures.bind
  apply (requireChildren_ensures parent grove).mono
  · rintro children _ ⟨rfl, listed⟩
    apply Edit.Ensures.bind
    apply (adopt_ensures parent source _ sound present).mono
    · intro child middle adopted
      apply Edit.Ensures.bind
      apply Edit.ensures_modify
      apply Edit.ensures_pure
      refine ⟨middle, ?_, adopted, rfl⟩
      rw [listed]
      rfl
    · intro last abandoned
      exact abandoned
  · rintro _ rfl
    exact ⟨.none, .refl _⟩

/-- A node that can't be attached stays as it is, like everything else. -/
theorem attach_node_ensures (placement : Placement) (parent node : NodeId) :
    Edit.Ensures (attach placement parent (.node node)) grove
      (Attached placement grove parent (.node node)) (fun last => last = grove) := by
  rw [attach]
  apply Edit.Ensures.bind
  apply (requireChildren_ensures parent grove).mono
  · rintro children _ ⟨rfl, listed⟩
    apply Edit.Ensures.bind
    rw [adopt]
    apply adoptNode_ensures.mono
    · intro child middle adopted
      apply Edit.Ensures.bind
      apply Edit.ensures_modify
      apply Edit.ensures_pure
      refine ⟨middle, ?_, adopted, rfl⟩
      rw [listed]
      rfl
    · intro last same
      exact same
  · intro last same
    exact same

theorem Attached.child_eq {placement : Placement} {node : NodeId}
    (attached : Attached placement grove parent (.node node) child last) : child = node := by
  rcases attached with ⟨middle, _, adopted, rfl⟩
  cases adopted with
  | made created constructed => exact absurd rfl (created node)
  | found same free acyclic =>
      cases same
      rfl

theorem Attached.eq_of_node {placement : Placement} {node : NodeId}
    (attached : Attached placement grove parent (.node node) child last) :
    grove.parentLink? node = none ∧ last = (grove.setParent node (some parent)).setChildren parent
      (placement (grove.children parent) node) := by
  rcases attached with ⟨middle, _, adopted, rfl⟩
  cases adopted with
  | made created constructed => exact absurd rfl (created node)
  | found same free acyclic =>
      cases same
      rw [children_setParent]
      exact ⟨free, rfl⟩

/-- A node without a parent can be attached to any node with a list of children that it is not
above. -/
theorem attach_node_yields {placement : Placement} {node : NodeId}
    (listed : (grove.childList? parent).isSome = true) (free : grove.parentLink? node = none)
    (apart : grove.isAtOrAbove node parent = false) :
    (attach placement parent (.node node)).Yields grove
      (Attached placement grove parent (.node node)) := by
  rcases Option.isSome_iff_exists.1 listed with ⟨siblings, known⟩
  rw [attach, adopt, adoptNode]
  apply Edit.Ensures.bind_of_ok (outcome_requireChildren_of_listed known)
  apply Edit.Ensures.bind
  apply Edit.Ensures.bind
  apply Edit.ensures_get
  rw [free, apart, Bool.and_false]
  apply Edit.Ensures.bind
  apply Edit.ensures_set
  apply Edit.ensures_pure
  apply Edit.Ensures.bind
  apply Edit.ensures_modify
  apply Edit.ensures_pure
  exact ⟨_, listed, .found rfl free fun _ => apart, rfl⟩

theorem Abandoned.changed {safe loose : Prop} (abandoned : Abandoned grove held last) :
    Changed safe loose grove last where
  moves := Moves.none.graft abandoned.grafted has_of_parentLink?
  tight _ := abandoned.tight

theorem Constructed.changed {safe loose : Prop} (constructed : Constructed grove held child last) :
    Changed safe loose grove last where
  moves := Moves.none.graft constructed.grafted has_of_parentLink?
  tight _ := constructed.tight

theorem Adopted.node? (adopted : Adopted grove parent source child last) (has : grove.Has id) :
    last.node? id = grove.node? id := by
  rcases adopted.exists_setParent with ⟨middle, rfl, _, grafted, _⟩
  rw [node?_setParent, grafted.node? has]

theorem Adopted.moves {safe : Prop} (adopted : Adopted grove parent source child last)
    (sound : grove.Sound) (bears : grove.Bears parent)
    (offered : ∀ id ∈ source.nodes, grove.Offers id)
    (avoids : safe → ¬ source.HoldsTop grove parent) : Moves safe grove last := by
  cases adopted with
  | made created constructed =>
      apply (Moves.none.graft constructed.grafted has_of_parentLink?).link constructed.has
        constructed.free (constructed.grafted.bears bears)
      intro holds acyclic
      apply (acyclic_setParent_iff acyclic constructed.has constructed.free).2
      rw [constructed.way_iff sound acyclic bears.1]
      intro member
      cases source with
      | template definition => exact avoids holds ⟨definition, rfl, member⟩
      | node id => exact created id rfl
      | text content => cases member
      | unfit => cases member
  | found same free checked =>
      rcases offered child (by rw [same, Source.nodes]; exact List.mem_singleton_self _) with
        ⟨has, plain⟩
      apply Moves.none.link has free bears
      intro _ acyclic
      exact acyclic_found sound has plain free bears checked acyclic

theorem Adopted.loose_setChildren {placement : Placement} (fair : placement.IsFair)
    (adopted : Adopted grove parent source child middle)
    (held : ∀ id ∈ source.nodes, grove.Has id) {children : List NodeId}
    (listed : grove.childList? parent = some children) :
    Tight grove (middle.setChildren parent (placement (middle.children parent) child)) := by
  have bears := bears_of_childList? listed
  have same := adopted.node? bears.1
  have present : middle.childList? parent = some children := by
    rw [childList?_eq_of_node? same, listed]
  intro other owner loose
  rcases (relisted_setChildren present).loose loose with
    ⟨different, before⟩ | ⟨equal, unlisted, link⟩
  · rcases adopted.loose held before with earlier | equal
    · exact earlier
    · exact absurd equal different
  · rw [(fair _ _).mem_iff, List.mem_cons] at unlisted
    rcases (adopted.link_iff held bears other).1 link with earlier | new
    · rw [equal]
      refine ⟨earlier, ?_, isUnfinished_of_childList? listed⟩
      rw [← children_eq_of_node? same]
      exact fun member => unlisted (.inr member)
    · exact absurd (.inl new) unlisted

theorem Attached.changed {placement : Placement} (fair : placement.IsFair) (sound : grove.Sound)
    (offered : ∀ id ∈ source.nodes, grove.Offers id)
    (attached : Attached placement grove parent source child last) :
    Changed (¬ source.HoldsTop grove parent) False grove last := by
  rcases attached with ⟨middle, listed, adopted, rfl⟩
  rcases Option.isSome_iff_exists.1 listed with ⟨children, list⟩
  have bears := bears_of_childList? list
  have same := adopted.node? bears.1
  have present : middle.childList? parent = some children := by
    rw [childList?_eq_of_node? same, list]
  have has : ∀ id ∈ source.nodes, grove.Has id := fun id member => (offered id member).1
  have moves : Moves (¬ source.HoldsTop grove parent) grove middle :=
    adopted.moves sound bears offered id
  constructor
  · apply moves.relist present
    · intro other member
      rw [(fair _ _).mem_iff, List.mem_cons, children_eq_of_node? same] at member
      apply (adopted.link_iff has bears other).2
      rcases member with equal | before
      · exact .inr equal
      · exact .inl (sound.listed before)
    · rw [(fair _ _).nodup_iff, List.nodup_cons, children_eq_of_node? same]
      exact ⟨sound.not_listed adopted.free, sound.nodup parent⟩
  · intro _
    exact adopted.loose_setChildren fair has list

theorem Attached.link_of_link {placement : Placement}
    (offered : ∀ id ∈ source.nodes, grove.Offers id)
    (attached : Attached placement grove parent source child last) {other owner : NodeId}
    (link : grove.Link other owner) :
    last.Link other owner := by
  rcases attached with ⟨middle, listed, adopted, rfl⟩
  have has := adopted.has_child fun id member => (offered id member).1
  rcases adopted.exists_setParent with ⟨between, rfl, free, grafted, _⟩
  rw [Link, parentLink?_setChildren]
  apply (link_setParent ((has_of_shape? shape?_setParent).1 has) free).2
  exact .inl (grafted.link_of_link link)

/-- A template that holds the topmost node above its parent closes a cycle. -/
theorem Attached.not_acyclic {placement : Placement} (sound : grove.Sound)
    (attached : Attached placement grove parent source child last)
    (holds : source.HoldsTop grove parent) : ¬ last.Acyclic := by
  rcases attached with ⟨middle, listed, adopted, rfl⟩
  rcases holds with ⟨definition, rfl, member⟩
  rcases Option.isSome_iff_exists.1 listed with ⟨children, list⟩
  intro acyclic
  cases adopted with
  | @made middle created constructed =>
      have closed : (middle.setParent child (some parent)).Acyclic := by
        apply acyclic.of_link
        intro other owner link
        rw [Link, parentLink?_setChildren]
        exact link
      have before : middle.Acyclic := closed.of_link fun other owner link =>
        (link_setParent constructed.has constructed.free).2 (.inl link)
      apply (acyclic_setParent_iff before constructed.has constructed.free).1 closed
      exact (constructed.way_iff sound before (has_of_childList? list)).2 member
  | found same free checked => cases same

end XmlGrove
