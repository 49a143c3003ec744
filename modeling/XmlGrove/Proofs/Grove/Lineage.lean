import Mathlib.Data.List.Perm.Subperm
import Mathlib.Logic.Relation
import XmlGrove.Proofs.Grove.Graft

/-!
# Lineages without cycles

Where no node is above itself, the links from a node lead to all nodes above it within as many
steps as there are nodes, and they end at the topmost one.
-/

namespace XmlGrove.Grove

open Relation

variable {grove changed : Grove} {id other child parent : NodeId}

/-- One node is linked to another one as its parent. -/
def Link (grove : Grove) (child parent : NodeId) : Prop := grove.parentLink? child = some parent

/-- No node is above itself. -/
def Acyclic (grove : Grove) : Prop := ∀ id, ¬ TransGen grove.Link id id

/-! ## Changes of links -/

theorem Acyclic.of_link (acyclic : grove.Acyclic)
    (subset : ∀ child parent, changed.Link child parent → grove.Link child parent) :
    changed.Acyclic := by
  intro id cycle
  exact acyclic id (TransGen.mono subset _ _ cycle)

theorem link_setParent (has : grove.Has child) (free : grove.parentLink? child = none)
    {owner : NodeId} : (grove.setParent child (some parent)).Link other owner ↔
      grove.Link other owner ∨ other = child ∧ owner = parent := by
  rw [Link, Link, parentLink?_setParent_of_has has]
  split
  · rename_i equal
    rw [equal, free]
    simp [eq_comm]
  · rename_i different
    simp [different]

/-- A way along the links either avoids a new one, or it takes the last one of them. -/
theorem transGen_setParent (has : grove.Has child) (free : grove.parentLink? child = none)
    (way : TransGen (grove.setParent child (some parent)).Link id other) :
    TransGen grove.Link id other ∨
      ReflTransGen grove.Link id child ∧ ReflTransGen grove.Link parent other := by
  induction way with
  | single step =>
      rcases (link_setParent has free).1 step with before | ⟨rfl, rfl⟩
      · exact .inl (.single before)
      · exact .inr ⟨.refl, .refl⟩
  | tail way step induction =>
      rcases (link_setParent has free).1 step with before | ⟨rfl, rfl⟩
      · rcases induction with avoiding | ⟨former, latter⟩
        · exact .inl (avoiding.tail before)
        · exact .inr ⟨former, latter.tail before⟩
      · rcases induction with avoiding | ⟨former, _⟩
        · exact .inr ⟨avoiding.to_reflTransGen, .refl⟩
        · exact .inr ⟨former, .refl⟩

/-- A new link closes a cycle if and only if the parent is at or below the child. -/
theorem acyclic_setParent_iff (acyclic : grove.Acyclic) (has : grove.Has child)
    (free : grove.parentLink? child = none) :
    (grove.setParent child (some parent)).Acyclic ↔ ¬ ReflTransGen grove.Link parent child := by
  constructor
  · intro after above
    apply after child
    have step : (grove.setParent child (some parent)).Link child parent :=
      (link_setParent has free).2 (.inr ⟨rfl, rfl⟩)
    apply TransGen.head' step
    refine ReflTransGen.mono ?_ _ _ above
    intro other owner before
    exact (link_setParent has free).2 (.inl before)
  · intro uphill id cycle
    rcases transGen_setParent has free cycle with before | ⟨former, latter⟩
    · exact acyclic id before
    · exact uphill (latter.trans former)

/-! ## Constructions -/

section

variable {base : Nat} {held : List NodeId} {last : Grove}

theorem Grafted.index_lt (grafted : Grafted base held grove last)
    (older : ∀ {child parent}, grove.Link child parent → child.index < base)
    (way : TransGen last.Link id other) (recent : base ≤ id.index) :
    base ≤ other.index ∧ other.index < id.index := by
  -- A link that was there before starts below the base; a new one leads to an older node.
  induction way with
  | single step =>
      rcases grafted.link_cases step with before | ⟨_, recent', _, newer⟩
      · have := older before
        omega
      · exact ⟨recent', newer recent⟩
  | tail way step induction =>
      rcases grafted.link_cases step with before | ⟨_, recent', _, newer⟩
      · have := older before
        omega
      · have := newer induction.1
        omega

theorem Grafted.transGen_of_index_lt (grafted : Grafted base held grove last)
    (older : ∀ {child parent}, grove.Link child parent → child.index < base)
    (way : TransGen last.Link id other) (before : other.index < base) :
    TransGen grove.Link id other := by
  induction way with
  | single step => exact .single (grafted.link_of_index_lt step before)
  | @tail middle last way step induction =>
      have kept := grafted.link_of_index_lt step before
      exact (induction (older kept)).tail kept

theorem Grafted.acyclic (grafted : Grafted base held grove last)
    (older : ∀ {child parent}, grove.Link child parent → child.index < base)
    (acyclic : grove.Acyclic) : last.Acyclic := by
  intro id cycle
  by_cases recent : base ≤ id.index
  · have := grafted.index_lt older cycle recent
    omega
  · exact acyclic id (grafted.transGen_of_index_lt older cycle (Nat.lt_of_not_le recent))

end

/-! ## Following links -/

theorem mem_follow {bound : Nat} {start : Option NodeId}
    (member : other ∈ grove.follow bound start) :
    ∃ first, start = some first ∧ ReflTransGen grove.Link first other := by
  induction bound generalizing start with
  | zero =>
      rw [follow] at member
      cases member
  | succ bound induction =>
      cases start with
      | none =>
          rw [follow] at member
          cases member
      | some first =>
          rw [follow] at member
          refine ⟨first, rfl, ?_⟩
          rcases List.mem_cons.1 member with equal | rest
          · rw [equal]
          · rcases induction rest with ⟨next, link, way⟩
            exact way.head link

theorem way_of_isAtOrAbove (above : grove.isAtOrAbove id parent = true) :
    ReflTransGen grove.Link parent id := by
  have member : id ∈ grove.follow (grove.entries.size + 1) (some parent) := by
    rwa [isAtOrAbove, List.contains_iff_mem] at above
  rcases mem_follow member with ⟨first, same, way⟩
  cases same
  exact way

theorem nodup_follow (acyclic : grove.Acyclic) (bound : Nat) (start : Option NodeId) :
    (grove.follow bound start).Nodup := by
  induction bound generalizing start with
  | zero => exact .nil
  | succ bound induction =>
      cases start with
      | none => exact .nil
      | some first =>
          rw [follow]
          refine List.nodup_cons.2 ⟨?_, induction _⟩
          intro member
          rcases mem_follow member with ⟨next, link, way⟩
          exact acyclic first (.head' link way)

theorem Sound.has_of_way (sound : grove.Sound) (has : grove.Has id)
    (way : ReflTransGen grove.Link id other) : grove.Has other := by
  induction way with
  | refl => exact has
  | tail way step induction => exact (sound.target step).1

theorem length_le_of_has {ids : List NodeId} (distinct : ids.Nodup)
    (present : ∀ id ∈ ids, grove.Has id) : ids.length ≤ grove.entries.size := by
  have injective : (ids.map NodeId.index).Nodup := by
    apply List.Pairwise.map NodeId.index _ distinct
    intro first second different equal
    exact different (NodeId.eq_of_index equal)
  have subset : ids.map NodeId.index ⊆ List.range grove.entries.size := by
    intro index member
    rcases List.mem_map.1 member with ⟨id, listed, rfl⟩
    exact List.mem_range.2 (present id listed)
  have shorter := (List.subperm_of_subset injective subset).length_le
  rw [List.length_map, List.length_range] at shorter
  exact shorter

theorem follow_of_length_lt {bound longer : Nat} {start : Option NodeId}
    (ended : (grove.follow bound start).length < bound) (le : bound ≤ longer) :
    grove.follow longer start = grove.follow bound start := by
  induction bound generalizing longer start with
  | zero => cases ended
  | succ bound induction =>
      cases longer with
      | zero => cases le
      | succ longer =>
          cases start with
          | none => rfl
          | some first =>
              rw [follow] at ended ⊢
              rw [follow, induction (Nat.lt_of_succ_lt_succ ended) (Nat.le_of_succ_le_succ le)]

theorem follow_none (bound : Nat) : grove.follow bound none = [] := by
  cases bound with
  | zero => rfl
  | succ bound => rfl

theorem lineage_of_free (free : grove.parentLink? id = none) : grove.lineage id = [] := by
  rw [lineage, free, follow_none]

theorem isAtOrAbove_of_free (free : grove.parentLink? parent = none) (different : id ≠ parent) :
    grove.isAtOrAbove id parent = false := by
  rw [isAtOrAbove, lineage_of_free free]
  simpa using different

section

variable (sound : grove.Sound) (acyclic : grove.Acyclic)

include sound acyclic

theorem length_lineage_lt (has : grove.Has id) :
    (grove.lineage id).length < grove.entries.size := by
  -- With the node in front, the lineage has one more distinct node than it has links.
  have distinct := nodup_follow acyclic (grove.entries.size + 1) (some id)
  apply length_le_of_has distinct
  intro other member
  rcases mem_follow member with ⟨first, equal, way⟩
  cases equal
  exact sound.has_of_way has way

/-- No lineage goes on beyond as many links as there are nodes. -/
theorem follow_eq_lineage {bound : Nat} (enough : grove.entries.size ≤ bound) :
    grove.follow bound (grove.parentLink? id) = grove.lineage id := by
  by_cases has : grove.Has id
  · exact follow_of_length_lt (length_lineage_lt sound acyclic has) enough
  · rw [lineage, parentLink?_of_not_has has, follow_none, follow_none]

theorem lineage_of_link (linked : grove.parentLink? id = some parent) :
    grove.lineage id = parent :: grove.lineage parent := by
  rw [← follow_eq_lineage sound acyclic (Nat.le_succ _), linked, follow, lineage]

theorem mem_lineage_iff : other ∈ grove.lineage id ↔ TransGen grove.Link id other := by
  constructor
  · intro member
    rcases mem_follow member with ⟨first, link, way⟩
    exact .head' link way
  · intro way
    induction way using TransGen.head_induction_on with
    | single link =>
        rw [lineage_of_link sound acyclic link]
        exact List.mem_cons_self
    | head link way induction =>
        rw [lineage_of_link sound acyclic link]
        exact List.mem_cons_of_mem _ induction

theorem isAtOrAbove_iff :
    grove.isAtOrAbove id parent = true ↔ ReflTransGen grove.Link parent id := by
  rw [isAtOrAbove, List.contains_iff_mem, List.mem_cons, mem_lineage_iff sound acyclic,
    reflTransGen_iff_eq_or_transGen]

/-! ## The topmost node -/

theorem top_of_link (linked : grove.parentLink? id = some parent) :
    grove.top id = grove.top parent := by
  rw [top, lineage_of_link sound acyclic linked, top, List.getLast?_cons, Option.getD_some]

theorem top_spec (id : NodeId) : ReflTransGen grove.Link id (grove.top id) ∧
    grove.parentLink? (grove.top id) = none := by
  generalize size : (grove.lineage id).length = length
  induction length generalizing id with
  | zero =>
      cases link : grove.parentLink? id with
      | none =>
          rw [top, lineage_of_free link]
          exact ⟨.refl, link⟩
      | some parent =>
          rw [lineage_of_link sound acyclic link] at size
          cases size
  | succ length induction =>
      cases link : grove.parentLink? id with
      | none =>
          rw [lineage_of_free link] at size
          cases size
      | some parent =>
          rw [lineage_of_link sound acyclic link, List.length_cons] at size
          rcases induction parent (Nat.succ.inj size) with ⟨way, free⟩
          rw [top_of_link sound acyclic link]
          exact ⟨way.head link, free⟩

end

theorem way_total {first second : NodeId} (former : ReflTransGen grove.Link id first)
    (latter : ReflTransGen grove.Link id second) :
    ReflTransGen grove.Link first second ∨ ReflTransGen grove.Link second first := by
  apply ReflTransGen.total_of_right_unique _ former latter
  intro child left right toLeft toRight
  rw [Link] at toLeft toRight
  rw [toLeft] at toRight
  exact Option.some.inj toRight

end XmlGrove.Grove
