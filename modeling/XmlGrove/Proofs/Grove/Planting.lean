import XmlGrove.Grove.View
import XmlGrove.Proofs.Grove.Construction

/-!
# Planting trees

A planted tree is a graft that holds no existing nodes, and so is a clone.
-/

namespace XmlGrove

open Grove

variable {grove middle last : Grove} {id child : NodeId} {node : Node} {base : Nat}

/-- A tree was planted below a parent, if there is one. -/
structure Planted (base : Nat) (grove : Grove) (parent : Option NodeId) (id : NodeId)
    (last : Grove) : Prop where
  grafted : Grafted base [] grove last
  loose : ∀ {child owner}, last.Loose child owner → grove.Loose child owner ∨ parent = some owner
  kept : ∀ {child}, grove.Has child → last.parentLink? child = grove.parentLink? child
  added : ¬ grove.Has id
  has : last.Has id
  linked : ∀ {child owner}, grove.Has owner → (last.parentLink? child = some owner ↔
    grove.parentLink? child = some owner ∨ child = id ∧ parent = some owner)
  own : last.parentLink? id = parent
  joined : ∀ {child}, ¬ grove.Has child → last.Has child → child ≠ id →
    (last.parentLink? child).isSome = true

/-- Several trees were planted below a parent, which does not list them yet. -/
structure AllPlanted (base : Nat) (grove : Grove) (parent : NodeId) (ids : List NodeId)
    (last : Grove) : Prop where
  grafted : Grafted base [] grove last
  loose : ∀ {child owner}, last.Loose child owner → grove.Loose child owner ∨ owner = parent
  kept : ∀ {child}, grove.Has child → last.parentLink? child = grove.parentLink? child
  linked : ∀ {child owner}, grove.Has owner → (last.parentLink? child = some owner ↔
    grove.parentLink? child = some owner ∨ child ∈ ids ∧ owner = parent)
  added : ∀ id ∈ ids, ¬ grove.Has id
  distinct : ids.Nodup
  joined : ∀ {child}, ¬ grove.Has child → last.Has child →
    (last.parentLink? child).isSome = true

/-! ## One node -/

theorem setParent_nextId_add {link : Option NodeId} :
    (grove.add ⟨node, none⟩).setParent grove.nextId link = grove.add ⟨node, link⟩ :=
  modifyEntry_nextId_add _ _

theorem planted_add (node : Node) (sound : grove.Sound) (barren : node.IsBarren)
    (plain : node.isAnchor = false) {parent : Option NodeId}
    (below : ∀ owner, parent = some owner → grove.Bears owner ∧ base ≤ owner.index) :
    Planted base grove parent grove.nextId (grove.add ⟨node, parent⟩) := by
  have added : Grafted base [] grove (grove.add ⟨node, none⟩) := Grafted.none.add barren plain
  have has : (grove.add ⟨node, none⟩).Has grove.nextId := has_nextId_add
  have free : (grove.add ⟨node, none⟩).parentLink? grove.nextId = none := free_nextId_add
  -- The node comes with its link, but that is the same as linking it afterwards.
  rw [← setParent_nextId_add]
  refine ⟨?_, ?_, ?_, not_has_nextId, ?_, ?_, ?_, ?_⟩
  · cases parent with
    | none =>
        rw [setParent_nextId_add]
        exact added
    | some owner =>
        rcases below owner rfl with ⟨bears, recent⟩
        have before := bears.1
        rw [Has] at before
        apply added.link has free (bears_add_of_bears bears) recent
        · intro older
          have behind : grove.entries.size < base := older
          omega
        · intro newer
          exact before
  · intro child owner loose
    cases parent with
    | none =>
        rw [setParent_nextId_add] at loose
        exact .inl (tight_add node sound barren _ _ loose)
    | some parent =>
        rcases loose_link has loose with before | both
        · exact .inl (tight_add node sound barren _ _ before)
        · rw [both.2]
          exact .inr rfl
  · intro child present
    rw [parentLink?_setParent_of_has has, if_neg (ne_nextId_of_has present), parentLink?_add_free]
  · exact (has_of_shape? shape?_setParent).2 has
  · intro child owner present
    rw [parentLink?_setParent_of_has has]
    split
    · rename_i equal
      rw [equal, parentLink?_of_not_has not_has_nextId]
      simp
    · rename_i different
      rw [parentLink?_add_free]
      simp [different]
  · rw [parentLink?_setParent_of_has has, if_pos rfl]
  · intro child missing present different
    rcases has_add.1 ((has_of_shape? shape?_setParent).1 present) with equal | before
    · exact absurd equal different
    · exact absurd before missing

/-! ## A node and what is below it -/

theorem Planted.fill {name : Name} {attributes : Attributes} {parent : Option NodeId}
    {ids : List NodeId} (sound : grove.Sound)
    (below : ∀ owner, parent = some owner → grove.Bears owner ∧ base ≤ owner.index)
    (planted : Planted base grove parent grove.nextId (grove.add ⟨.tag name attributes [], parent⟩))
    (others : AllPlanted base (grove.add ⟨.tag name attributes [], parent⟩) grove.nextId ids last) :
    Planted base grove parent grove.nextId (last.setChildren grove.nextId ids) := by
  have present : last.childList? grove.nextId = some [] := by
    rw [childList?, others.grafted.node? has_nextId_add, node?_nextId_add]
  have relisted : Relisted last (last.setChildren grove.nextId ids) grove.nextId ids :=
    relisted_setChildren present
  have linked : ∀ child ∈ ids, last.parentLink? child = some grove.nextId :=
    fun child member => (others.linked has_nextId_add).2 (.inr ⟨member, rfl⟩)
  have unlinked : ∀ child, (grove.add ⟨.tag name attributes [], parent⟩).parentLink? child ≠
      some grove.nextId := by
    intro child before
    rw [parentLink?_add] at before
    split at before
    · exact not_has_nextId (below _ before).1.1
    · exact not_has_nextId (sound.target before).1
  refine ⟨?_, ?_, ?_, not_has_nextId, ?_, ?_, ?_, ?_⟩
  · have plain : (last.setChildren grove.nextId ids).isAnchor grove.nextId = false := by
      rw [isAnchor_of_shape? (shape?_setChildren ids), isAnchor_eq_any,
        others.grafted.node? has_nextId_add, node?_nextId_add]
      rfl
    exact (planted.grafted.trans others.grafted).fill not_has_nextId relisted plain linked
      others.distinct
  · intro child owner loose
    rcases relisted.loose loose with ⟨different, before⟩ | ⟨_, unlisted, behind⟩
    · rcases others.loose before with earlier | equal
      · exact planted.loose earlier
      · exact absurd equal different
    · rcases (others.linked has_nextId_add).1 behind with earlier | ⟨member, _⟩
      · exact absurd earlier (unlinked child)
      · exact absurd member unlisted
  · intro child has
    rw [relisted.link, others.kept (planted.grafted.has has), planted.kept has]
  · rw [Has, relisted.size]
    exact others.grafted.has has_nextId_add
  · intro child owner has
    rw [relisted.link, others.linked (planted.grafted.has has), planted.linked has]
    constructor
    · intro either
      rcases either with before | ⟨_, equal⟩
      · exact before
      · exact absurd equal (ne_nextId_of_has has)
    · exact .inl
  · rw [relisted.link, others.kept has_nextId_add, planted.own]
  · intro child missing has different
    rw [relisted.link]
    rw [Has, relisted.size] at has
    apply others.joined _ has
    intro between
    rcases has_add.1 between with equal | before
    · exact different equal
    · exact missing before

theorem allPlanted_nil {parent : NodeId} : AllPlanted base grove parent [] grove where
  grafted := .none
  loose := .inl
  kept _ := rfl
  linked _ := by simp
  added id member := by cases member
  distinct := .nil
  joined missing present := absurd present missing

theorem AllPlanted.cons {parent : NodeId} {ids : List NodeId}
    (planted : Planted base grove (some parent) id middle)
    (others : AllPlanted base middle parent ids last) :
    AllPlanted base grove parent (id :: ids) last where
  grafted := planted.grafted.trans others.grafted
  loose := by
    intro child owner loose
    rcases others.loose loose with before | equal
    · rcases planted.loose before with earlier | equal
      · exact .inl earlier
      · exact .inr (Option.some.inj equal).symm
    · exact .inr equal
  kept := by
    intro child has
    rw [others.kept (planted.grafted.has has), planted.kept has]
  linked := by
    intro child owner has
    rw [others.linked (planted.grafted.has has), planted.linked has, List.mem_cons, or_and_right,
      or_assoc, Option.some.injEq, eq_comm (a := parent)]
  added := by
    intro other member
    rcases List.mem_cons.1 member with equal | rest
    · rw [equal]
      exact planted.added
    · intro before
      exact others.added other rest (planted.grafted.has before)
  distinct := by
    apply List.nodup_cons.2
    refine ⟨?_, others.distinct⟩
    intro again
    exact others.added id again planted.has
  joined := by
    intro child missing present
    by_cases between : middle.Has child
    · apply others.grafted.isSome_link
      by_cases equal : child = id
      · rw [equal, planted.own]
        rfl
      · exact planted.joined missing between equal
    · exact others.joined between present

mutual

theorem planted_plantBelow (parent : Option NodeId) (tree : Tree) (grove : Grove)
    (sound : grove.Sound) (behind : base ≤ grove.entries.size)
    (below : ∀ owner, parent = some owner → grove.Bears owner ∧ base ≤ owner.index) :
    Planted base grove parent ((plantBelow parent tree).run grove).1
      ((plantBelow parent tree).run grove).2 := by
  cases tree with
  | leaf content =>
      rw [plantBelow]
      exact planted_add (.leaf content) sound trivial rfl below
  | tag name attributes children =>
      have planted : Planted base grove parent grove.nextId
          (grove.add ⟨.tag name attributes [], parent⟩) :=
        planted_add (.tag name attributes []) sound rfl rfl below
      have bears : (grove.add ⟨.tag name attributes [], parent⟩).Bears grove.nextId := by
        refine ⟨has_nextId_add, ?_⟩
        rw [leaf?, node?_nextId_add]
      rw [plantBelow]
      exact planted.fill sound below (allPlanted_plantAllBelow grove.nextId children _
        (planted.grafted.sound sound) (Nat.le_trans behind planted.grafted.size_le) bears behind)

theorem allPlanted_plantAllBelow (parent : NodeId) (trees : List Tree) (grove : Grove)
    (sound : grove.Sound) (behind : base ≤ grove.entries.size) (bears : grove.Bears parent)
    (recent : base ≤ parent.index) :
    AllPlanted base grove parent ((plantAllBelow parent trees).run grove).1
      ((plantAllBelow parent trees).run grove).2 := by
  cases trees with
  | nil =>
      rw [plantAllBelow]
      exact allPlanted_nil
  | cons first rest =>
      have planted := planted_plantBelow (some parent) first grove sound behind (by
        intro owner equal
        cases equal
        exact ⟨bears, recent⟩)
      rw [plantAllBelow]
      exact .cons planted (allPlanted_plantAllBelow parent rest _ (planted.grafted.sound sound)
        (Nat.le_trans behind planted.grafted.size_le) (planted.grafted.bears bears) recent)

end

/-! ## Clones -/

theorem plant_ensures (tree : Tree) (grove : Grove) (sound : grove.Sound)
    (failure : Grove → Prop) :
    Edit.Ensures (plant tree) grove (Constructed grove []) failure := by
  have planted := planted_plantBelow none tree grove sound (Nat.le_refl _) (by
    intro owner equal
    cases equal)
  constructor
  · exact planted.grafted
  · intro child owner loose
    rcases planted.loose loose with before | equal
    · exact before
    · cases equal
  · exact planted.added
  · exact planted.has
  · exact planted.own
  · intro id held
    cases held
  · exact planted.joined

theorem requireView_ensures (id : NodeId) (grove : Grove) :
    Edit.Ensures (requireView id) grove (fun _ last => last = grove)
      (fun last => last = grove) := by
  rw [requireView]
  apply Edit.Ensures.bind
  apply Edit.ensures_get
  split
  · exact Edit.ensures_pure rfl
  · exact Edit.ensures_throw rfl

theorem construct_ensures (tree : Tree) (grove : Grove) (sound : grove.Sound) :
    Edit.Ensures (construct tree) grove (Constructed grove []) (fun last => last = grove) := by
  rw [construct]
  apply Edit.Ensures.bind
  refine Edit.ensures_ofExcept ?_ (Eq.refl grove)
  intro checked _
  exact plant_ensures checked grove sound _

theorem cloneNode_ensures (deep : Bool) (id : NodeId) (grove : Grove) (sound : grove.Sound) :
    Edit.Ensures (cloneNode deep id) grove (Constructed grove []) (fun last => last = grove) := by
  rw [cloneNode]
  apply Edit.ensures_ite
  · intro _
    apply Edit.Ensures.bind
    apply (requireView_ensures id grove).mono
    · rintro tree last rfl
      exact construct_ensures tree _ sound
    · intro last equal
      exact equal
  · intro _
    apply Edit.Ensures.bind
    apply Edit.ensures_get
    split
    · exact construct_ensures _ _ sound
    · exact construct_ensures _ _ sound
    · exact Edit.ensures_throw rfl

end XmlGrove
