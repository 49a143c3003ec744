import XmlGrove.Proofs.Grove.Graft

/-!
# Constructions from templates

The construction of a node from a template is a graft, whether it succeeds or is given up. If
it succeeds, all that the template holds is linked to something in the new tree.
-/

namespace XmlGrove

mutual

/-- The existing nodes that a template holds. -/
def Template.nodes : Template → List NodeId
  | .define _ _ sources => Source.allNodes sources

/-- The existing nodes that a source holds. -/
def Source.nodes : Source → List NodeId
  | .node id => [id]
  | .template definition => definition.nodes
  | .text _ | .unfit => []

/-- The existing nodes that several sources hold. -/
def Source.allNodes : List Source → List NodeId
  | [] => []
  | first :: rest => first.nodes ++ Source.allNodes rest

end

open Grove

variable {grove middle last : Grove} {id child parent : NodeId} {source : Source}
  {sources : List Source} {base : Nat}

/-- A new node along with all that is below it, still without a parent. -/
structure Constructed (grove : Grove) (held : List NodeId) (child : NodeId) (last : Grove) :
    Prop where
  grafted : Grafted grove.entries.size held grove last
  tight : Tight grove last
  added : ¬ grove.Has child
  has : last.Has child
  free : last.parentLink? child = none
  bound : ∀ id ∈ held, (last.parentLink? id).isSome = true
  joined : ∀ {id}, ¬ grove.Has id → last.Has id → id ≠ child →
    (last.parentLink? id).isSome = true

/-- What became of a grove when a construction was given up. -/
structure Abandoned (grove : Grove) (held : List NodeId) (last : Grove) : Prop where
  grafted : Grafted grove.entries.size held grove last
  tight : Tight grove last

/-- A parent adopted a source: it is linked to the parent, which does not list it yet. -/
inductive Adopted (grove : Grove) (parent : NodeId) (source : Source) (child : NodeId) :
    Grove → Prop
  | made {middle : Grove} (created : ∀ id, source ≠ .node id)
      (constructed : Constructed grove source.nodes child middle) :
      Adopted grove parent source child (middle.setParent child (some parent))
  | found (same : source = .node child) (free : grove.parentLink? child = none)
      (acyclic : grove.isTag child = true → grove.isAtOrAbove child parent = false) :
      Adopted grove parent source child (grove.setParent child (some parent))

/-- A parent adopted several sources, beginning at the given grove. -/
structure AllAdopted (base : Nat) (grove : Grove) (parent : NodeId) (sources : List Source)
    (children : List NodeId) (last : Grove) : Prop where
  grafted : Grafted base (Source.allNodes sources) grove last
  loose : ∀ {child owner}, last.Loose child owner → grove.Loose child owner ∨ owner = parent
  linked : ∀ child, last.parentLink? child = some parent ↔
    grove.parentLink? child = some parent ∨ child ∈ children
  free : ∀ child ∈ children, grove.parentLink? child = none
  distinct : children.Nodup
  bound : ∀ id ∈ Source.allNodes sources, (last.parentLink? id).isSome = true
  joined : ∀ {id}, ¬ grove.Has id → last.Has id → (last.parentLink? id).isSome = true

/-- A parent adopted some of several sources before one of them was refused. -/
structure PartlyAdopted (base : Nat) (grove : Grove) (parent : NodeId) (sources : List Source)
    (last : Grove) : Prop where
  grafted : Grafted base (Source.allNodes sources) grove last
  loose : ∀ {child owner}, last.Loose child owner → grove.Loose child owner ∨ owner = parent

/-! ## Adoption of one source -/

theorem constructed_leaf (sound : grove.Sound) (content : Leaf) :
    Constructed grove [] grove.nextId (grove.add ⟨.leaf content, none⟩) where
  grafted := Grafted.none.add trivial rfl
  tight := tight_add (.leaf content) sound trivial
  added := not_has_nextId
  has := has_nextId_add
  free := free_nextId_add
  bound id held := by cases held
  joined := by
    intro id missing has different
    rcases has_add.1 has with equal | present
    · exact absurd equal different
    · exact absurd present missing

theorem adoptNode_ensures :
    Edit.Ensures (adoptNode parent id) grove (Adopted grove parent (.node id))
      (fun last => last = grove) := by
  rw [adoptNode]
  apply Edit.Ensures.bind
  apply Edit.ensures_get
  apply Edit.ensures_ite
  · intro attached
    exact Edit.Ensures.throw_bind rfl
  · intro free
    apply Edit.ensures_ite
    · intro cyclic
      exact Edit.Ensures.throw_bind rfl
    · intro acyclic
      apply Edit.Ensures.bind
      apply Edit.ensures_set
      apply Edit.ensures_pure
      apply Adopted.found rfl
      · simpa using free
      · simpa using acyclic

namespace Adopted

variable (adopted : Adopted grove parent source child last)

include adopted

theorem free : grove.parentLink? child = none := by
  cases adopted with
  | made created constructed => exact parentLink?_of_not_has constructed.added
  | found same free acyclic => exact free

theorem exists_setParent : ∃ middle, last = middle.setParent child (some parent) ∧
    middle.parentLink? child = none ∧
    Grafted grove.entries.size source.nodes grove middle ∧ Tight grove middle := by
  cases adopted with
  | @made middle created constructed =>
      exact ⟨middle, rfl, constructed.free, constructed.grafted, constructed.tight⟩
  | found same free acyclic => exact ⟨grove, rfl, free, .none, .refl grove⟩

theorem joined (missing : ¬ grove.Has id) (present : last.Has id) :
    (last.parentLink? id).isSome = true := by
  cases adopted with
  | made created constructed =>
      rw [parentLink?_setParent_of_has constructed.has]
      split
      · rfl
      · rename_i different
        exact constructed.joined missing ((has_of_shape? shape?_setParent).1 present) different
  | found same free acyclic =>
      exact absurd ((has_of_shape? shape?_setParent).1 present) missing

variable (held : ∀ id ∈ source.nodes, grove.Has id)

include held

theorem has_child : last.Has child := by
  cases adopted with
  | made created constructed => exact (has_of_shape? shape?_setParent).2 constructed.has
  | found same free acyclic =>
      apply (has_of_shape? shape?_setParent).2
      apply held
      rw [same, Source.nodes]
      exact List.mem_singleton_self child

theorem grafted (bears : grove.Bears parent) (recent : base ≤ parent.index)
    (older : ∀ id ∈ source.nodes, id.index < base) : Grafted base source.nodes grove last := by
  have before := bears.1
  rw [Has] at before
  cases adopted with
  | made created constructed =>
      have grafted : Grafted base source.nodes grove _ :=
        constructed.grafted.rebase (by omega) (fun id member => member) older
      have added := constructed.added
      rw [Has] at added
      apply grafted.link constructed.has constructed.free (grafted.bears bears) recent
      · intro behind
        omega
      · intro ahead
        omega
  | found same free acyclic =>
      have member : child ∈ source.nodes := by
        rw [same, Source.nodes]
        exact List.mem_singleton_self child
      apply Grafted.none.link (held child member) free bears recent
      · intro behind
        exact member
      · intro ahead
        have := older child member
        omega

theorem link_iff (bears : grove.Bears parent) (other : NodeId) :
    last.parentLink? other = some parent ↔
      grove.parentLink? other = some parent ∨ other = child := by
  have has := adopted.has_child held
  rcases adopted.exists_setParent with ⟨middle, rfl, free, grafted, tight⟩
  rw [parentLink?_setParent_of_has ((has_of_shape? shape?_setParent).1 has)]
  split
  · rename_i equal
    exact ⟨fun _ => .inr equal, fun _ => rfl⟩
  · rename_i different
    constructor
    · intro linked
      exact .inl (grafted.link_of_index_lt linked bears.1)
    · intro linked
      rcases linked with before | equal
      · exact grafted.link_of_link before
      · exact absurd equal different

theorem loose {other owner : NodeId} (loose : last.Loose other owner) :
    grove.Loose other owner ∨ owner = parent := by
  have has := adopted.has_child held
  rcases adopted.exists_setParent with ⟨middle, rfl, free, grafted, tight⟩
  rcases loose_link ((has_of_shape? shape?_setParent).1 has) loose with before | both
  · exact .inl (tight _ _ before)
  · exact .inr both.2

theorem bound (member : id ∈ source.nodes) : (last.parentLink? id).isSome = true := by
  have has := adopted.has_child held
  cases adopted with
  | made created constructed =>
      rw [parentLink?_setParent_of_has constructed.has]
      split
      · rfl
      · exact constructed.bound id member
  | found same free acyclic =>
      rw [same, Source.nodes, List.mem_singleton] at member
      rw [parentLink?_setParent_of_has ((has_of_shape? shape?_setParent).1 has), if_pos member]
      rfl

end Adopted

/-! ## Adoption of several sources -/

theorem has_of_older (has : grove.Has parent) (recent : base ≤ parent.index)
    (older : id.index < base) : grove.Has id := by
  rw [Has] at has ⊢
  omega

theorem allAdopted_nil : AllAdopted base grove parent [] [] grove where
  grafted := .none
  loose := .inl
  linked child := by simp
  free child member := by cases member
  distinct := .nil
  bound id member := by cases member
  joined missing present := absurd present missing

theorem AllAdopted.cons {children : List NodeId} (bears : grove.Bears parent)
    (recent : base ≤ parent.index)
    (older : ∀ id ∈ Source.allNodes (source :: sources), id.index < base)
    (adopted : Adopted grove parent source child middle)
    (others : AllAdopted base middle parent sources children last) :
    AllAdopted base grove parent (source :: sources) (child :: children) last := by
  have held : ∀ id ∈ source.nodes, grove.Has id := fun id member =>
    has_of_older bears.1 recent (older id (List.mem_append_left _ member))
  have grafted := adopted.grafted held bears recent fun id member =>
    older id (List.mem_append_left _ member)
  have linked := (adopted.link_iff held bears child).2 (.inr rfl)
  have kept : ∀ other ∈ children, other ≠ child := by
    intro other member equal
    have free := others.free other member
    rw [equal, linked] at free
    cases free
  refine ⟨?_, ?_, ?_, ?_, ?_, ?_, ?_⟩
  · have first : Grafted base (Source.allNodes (source :: sources)) grove middle :=
      grafted.rebase (Nat.le_refl base) (fun id => List.mem_append_left _) fun id member =>
        older id (List.mem_append_left _ member)
    have rest : Grafted base (Source.allNodes (source :: sources)) middle last :=
      others.grafted.rebase (Nat.le_refl base) (fun id => List.mem_append_right _)
        fun id member => older id (List.mem_append_right _ member)
    exact first.trans rest
  · intro other owner loose
    rcases others.loose loose with before | equal
    · exact adopted.loose held before
    · exact .inr equal
  · intro other
    rw [others.linked, adopted.link_iff held bears, List.mem_cons, or_assoc]
  · intro other member
    rcases List.mem_cons.1 member with equal | rest
    · rw [equal]
      exact adopted.free
    · cases before : grove.parentLink? other with
      | none => rfl
      | some owner =>
          have free := others.free other rest
          rw [grafted.link_of_link before] at free
          cases free
  · apply List.nodup_cons.2
    refine ⟨?_, others.distinct⟩
    intro again
    exact kept child again rfl
  · intro id member
    rcases List.mem_append.1 member with first | rest
    · exact others.grafted.isSome_link (adopted.bound held first)
    · exact others.bound id rest
  · intro id missing present
    by_cases between : middle.Has id
    · exact others.grafted.isSome_link (adopted.joined missing between)
    · exact others.joined between present

theorem PartlyAdopted.cons (bears : grove.Bears parent) (recent : base ≤ parent.index)
    (older : ∀ id ∈ Source.allNodes (source :: sources), id.index < base)
    (adopted : Adopted grove parent source child middle)
    (others : PartlyAdopted base middle parent sources last) :
    PartlyAdopted base grove parent (source :: sources) last := by
  have first : ∀ id ∈ source.nodes, id.index < base := fun id member =>
    older id (List.mem_append_left _ member)
  have rest : ∀ id ∈ Source.allNodes sources, id.index < base := fun id member =>
    older id (List.mem_append_right _ member)
  have held : ∀ id ∈ source.nodes, grove.Has id := fun id member =>
    has_of_older bears.1 recent (first id member)
  constructor
  · have former := (adopted.grafted held bears recent first).rebase (Nat.le_refl base)
      (fun id => List.mem_append_left (Source.allNodes sources)) first
    exact former.trans (others.grafted.rebase (Nat.le_refl base)
      (fun id => List.mem_append_right source.nodes) rest)
  · intro other owner loose
    rcases others.loose loose with before | equal
    · exact adopted.loose held before
    · exact .inr equal

/-! ## Construction of a tag node -/

section

variable {name : Name} {attributes : Attributes}

theorem grafted_unfinished {held : List NodeId} :
    Grafted base held grove (grove.add ⟨.unfinished name attributes, none⟩) :=
  Grafted.none.add trivial rfl

theorem bears_unfinished : (grove.add ⟨.unfinished name attributes, none⟩).Bears grove.nextId := by
  refine ⟨has_nextId_add, ?_⟩
  rw [leaf?, node?_nextId_add]

/-- Links to a node whose construction is under way can't be loose. -/
theorem not_loose_nextId
    (grafted : Grafted base (Source.allNodes sources)
      (grove.add ⟨.unfinished name attributes, none⟩) last) :
    ¬ last.Loose child grove.nextId := by
  intro loose
  have same := shape?_of_node? (grafted.node? has_nextId_add)
  have finished := loose.finished
  rw [isUnfinished_of_shape? same, isUnfinished, node?_nextId_add] at finished
  cases finished

theorem PartlyAdopted.abandoned (sound : grove.Sound)
    (adopted : PartlyAdopted grove.entries.size (grove.add ⟨.unfinished name attributes, none⟩)
      grove.nextId sources last) : Abandoned grove (Source.allNodes sources) last where
  grafted := grafted_unfinished.trans adopted.grafted
  tight := by
    intro child owner loose
    rcases adopted.loose loose with before | equal
    · exact tight_add (.unfinished name attributes) sound trivial _ _ before
    · rw [equal] at loose
      exact absurd loose (not_loose_nextId adopted.grafted)

theorem AllAdopted.constructed {children : List NodeId} (sound : grove.Sound)
    (adopted : AllAdopted grove.entries.size (grove.add ⟨.unfinished name attributes, none⟩)
      grove.nextId sources children last) :
    Constructed grove (Source.allNodes sources) grove.nextId
      (last.setNode grove.nextId (.tag name attributes children)) := by
  have present : last.Has grove.nextId := adopted.grafted.has has_nextId_add
  have relisted := relisted_setNode name attributes children present
  have linked : ∀ child ∈ children, last.parentLink? child = some grove.nextId :=
    fun child member => (adopted.linked child).2 (.inr member)
  have unlinked : ∀ child, (grove.add ⟨.unfinished name attributes, none⟩).parentLink? child ≠
      some grove.nextId := by
    intro child before
    rw [parentLink?_add_free] at before
    exact not_has_nextId (sound.target before).1
  refine ⟨?_, ?_, not_has_nextId, ?_, ?_, ?_, ?_⟩
  · have plain : (last.setNode grove.nextId (.tag name attributes children)).isAnchor
        grove.nextId = false := by
      rw [isAnchor_eq_any, node?_setNode, if_pos ⟨rfl, present⟩]
      rfl
    exact (grafted_unfinished.trans adopted.grafted).fill not_has_nextId relisted plain linked
      adopted.distinct
  · intro child owner loose
    rcases relisted.loose loose with ⟨different, before⟩ | ⟨_, unlisted, behind⟩
    · rcases adopted.loose before with earlier | equal
      · exact tight_add (.unfinished name attributes) sound trivial _ _ earlier
      · exact absurd equal different
    · rcases (adopted.linked child).1 behind with earlier | member
      · exact absurd earlier (unlinked child)
      · exact absurd member unlisted
  · rw [Has, relisted.size]
    exact present
  · rw [relisted.link]
    cases link : last.parentLink? grove.nextId with
    | none => rfl
    | some owner =>
        -- A link from the first new node would lead to an older one, and new links do not.
        rcases adopted.grafted.link_cases link with before | ⟨_, recent, _, newer⟩
        · rw [parentLink?_add_free, parentLink?_of_not_has not_has_nextId] at before
          cases before
        · have before : owner.index < grove.entries.size := newer (Nat.le_refl _)
          omega
  · intro id member
    rw [relisted.link]
    exact adopted.bound id member
  · intro id missing has different
    rw [relisted.link]
    rw [Has, relisted.size] at has
    apply adopted.joined _ has
    intro between
    rcases has_add.1 between with equal | before
    · exact different equal
    · exact missing before

end

/-- A tag node without children is there at once. -/
theorem createTag_yields {given : GivenName} {entries : List (GivenName × Option String)}
    {name : Name} {attributes : Attributes} (named : checkedTagName given = .ok name)
    (checked : checkedAttributes {} entries = .ok attributes) :
    (createTag given entries []).Yields grove fun id last =>
      id = grove.nextId ∧ last = grove.add ⟨.tag name attributes [], none⟩ := by
  rw [createTag, instantiate, named, checked]
  apply Edit.Ensures.bind
  apply Edit.ensures_pure
  apply Edit.Ensures.bind
  apply Edit.ensures_pure
  apply Edit.Ensures.bind
  apply Edit.ensures_create
  rw [adoptAll]
  apply Edit.Ensures.bind
  apply Edit.ensures_pure
  apply Edit.Ensures.bind
  apply Edit.ensures_modify
  apply Edit.ensures_pure
  rw [setNode, modifyEntry_nextId_add]
  exact ⟨rfl, rfl⟩

/-! ## Outcomes -/

mutual

theorem instantiate_ensures (definition : Template) (grove : Grove) (sound : grove.Sound)
    (held : ∀ id ∈ definition.nodes, grove.Has id) :
    Edit.Ensures (instantiate definition) grove (Constructed grove definition.nodes)
      (Abandoned grove definition.nodes) := by
  cases definition with
  | define givenName givenAttributes sources =>
      rw [Template.nodes] at held ⊢
      rw [instantiate]
      apply Edit.Ensures.bind
      apply Edit.ensures_ofExcept _ ⟨.none, .refl _⟩
      intro name _
      apply Edit.Ensures.bind
      apply Edit.ensures_ofExcept _ ⟨.none, .refl _⟩
      intro attributes _
      apply Edit.Ensures.bind
      apply Edit.ensures_create
      apply Edit.Ensures.bind
      -- While it adopts its sources, the new node is unfinished, and links to it are not loose.
      apply (adoptAll_ensures grove.nextId sources _
        (sound.add (.unfinished name attributes) trivial) bears_unfinished grove.entries.size
        (Nat.le_refl _) held).mono
      · intro children last adopted
        apply Edit.Ensures.bind
        apply Edit.ensures_modify
        apply Edit.ensures_pure
        exact adopted.constructed sound
      · intro last adopted
        exact adopted.abandoned sound

theorem adopt_ensures (parent : NodeId) (source : Source) (grove : Grove) (sound : grove.Sound)
    (held : ∀ id ∈ source.nodes, grove.Has id) :
    Edit.Ensures (adopt parent source) grove (Adopted grove parent source)
      (Abandoned grove source.nodes) := by
  cases source with
  | text content =>
      rw [adopt]
      apply Edit.Ensures.bind
      apply Edit.ensures_create
      apply Edit.Ensures.bind
      apply Edit.ensures_modify
      apply Edit.ensures_pure
      exact .made (fun _ => Source.noConfusion) (constructed_leaf sound (.text content))
  | node id =>
      rw [adopt]
      apply adoptNode_ensures.mono
      · intro child last adopted
        exact adopted
      · rintro last rfl
        exact ⟨.none, .refl _⟩
  | template definition =>
      rw [adopt]
      apply Edit.Ensures.bind
      rw [Source.nodes] at held ⊢
      apply (instantiate_ensures definition grove sound held).mono
      · intro child middle constructed
        apply Edit.Ensures.bind
        apply Edit.ensures_modify
        apply Edit.ensures_pure
        exact .made (fun _ => Source.noConfusion) constructed
      · intro last abandoned
        exact abandoned
  | unfit =>
      rw [adopt]
      exact Edit.ensures_throw ⟨.none, .refl _⟩

theorem adoptAll_ensures (parent : NodeId) (sources : List Source) (grove : Grove)
    (sound : grove.Sound) (bears : grove.Bears parent) (base : Nat)
    (recent : base ≤ parent.index) (older : ∀ id ∈ Source.allNodes sources, id.index < base) :
    Edit.Ensures (adoptAll parent sources) grove
      (AllAdopted base grove parent sources) (PartlyAdopted base grove parent sources) := by
  cases sources with
  | nil =>
      rw [adoptAll]
      exact Edit.ensures_pure allAdopted_nil
  | cons source rest =>
      have held : ∀ id ∈ source.nodes, grove.Has id := fun id member =>
        has_of_older bears.1 recent (older id (List.mem_append_left _ member))
      rw [adoptAll]
      apply Edit.Ensures.bind
      apply (adopt_ensures parent source grove sound held).mono
      · intro child middle adopted
        have grafted := adopted.grafted held bears recent fun id member =>
          older id (List.mem_append_left _ member)
        apply Edit.Ensures.bind
        -- The base stays that of the whole construction: what the other sources hold is older.
        apply (adoptAll_ensures parent rest middle (grafted.sound sound) (grafted.bears bears)
          base recent fun id member => older id (List.mem_append_right _ member)).mono
        · intro children last others
          apply Edit.ensures_pure
          exact others.cons bears recent older adopted
        · intro last others
          exact others.cons bears recent older adopted
      · intro last abandoned
        constructor
        · apply abandoned.grafted.rebase
          · have has := bears.1
            rw [Has] at has
            omega
          · intro id
            exact List.mem_append_left _
          · intro id member
            exact older id (List.mem_append_left _ member)
        · intro other owner loose
          exact .inl (abandoned.tight _ _ loose)

end

end XmlGrove
