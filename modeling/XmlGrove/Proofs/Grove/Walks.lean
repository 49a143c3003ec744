import XmlGrove.Grove.Traverse
import XmlGrove.Proofs.Grove.View

/-!
# Walks come to an end

Walks through a grove are bounded by its number of nodes. Without cycles they end before that, so
any greater bound leads to the same.
-/

namespace XmlGrove.Grove

open Relation

variable {grove : Grove} {id other : NodeId}

/-- Walks upwards and downwards do not depend on a bound that is at least the number of nodes. -/
structure WalksEnd (grove : Grove) : Prop where
  upwards : ∀ id bound, grove.entries.size ≤ bound →
    grove.follow bound (grove.parentLink? id) = grove.lineage id
  path : ∀ id bound, grove.entries.size ≤ bound →
    grove.locationSteps bound id = grove.locationSteps grove.entries.size id
  downwards : ∀ id bound, grove.entries.size ≤ bound →
    grove.preorderFrom bound (grove.children id) = grove.descendants id

/-! ## Location paths -/

theorem parentLink?_of_parent? {parent : NodeId} (linked : grove.parent? id = some parent) :
    grove.parentLink? id = some parent :=
  (Option.filter_eq_some_iff.1 linked).1

section

variable (sound : grove.Sound) (acyclic : grove.Acyclic)

include sound acyclic

theorem locationSteps_of_length_lt {bound longer : Nat}
    (ended : (grove.lineage id).length < bound) (le : bound ≤ longer) :
    grove.locationSteps longer id = grove.locationSteps bound id := by
  induction bound generalizing longer id with
  | zero => cases ended
  | succ bound induction =>
      cases longer with
      | zero => cases le
      | succ longer =>
          rw [locationSteps, locationSteps]
          split
          · rename_i parent name attributes linked tag
            rw [lineage_of_link sound acyclic (parentLink?_of_parent? linked),
              List.length_cons] at ended
            rw [induction (Nat.lt_of_succ_lt_succ ended) (Nat.le_of_succ_le_succ le)]
          · rfl

theorem locationSteps_eq {bound : Nat} (enough : grove.entries.size ≤ bound) :
    grove.locationSteps bound id = grove.locationSteps grove.entries.size id := by
  by_cases has : grove.Has id
  · exact locationSteps_of_length_lt sound acyclic (length_lineage_lt sound acyclic has) enough
  · have top : ∀ bound, grove.locationSteps bound id = .ok [] := by
      intro bound
      cases bound with
      | zero => rfl
      | succ bound => rw [locationSteps, parent?, parentLink?_of_not_has has]; rfl
    rw [top, top]

end

/-! ## Descendants -/

/-- Nothing is below both of two nodes. -/
def Apart (grove : Grove) (first second : NodeId) : Prop :=
  ∀ id, ReflTransGen grove.Lists first id → ¬ ReflTransGen grove.Lists second id

/-- From a node on downwards, no node is below itself. -/
def Unwound (grove : Grove) (node : NodeId) : Prop :=
  ∀ id, ReflTransGen grove.Lists node id → ¬ TransGen grove.Lists id id

theorem Unwound.below {node : NodeId} (unwound : grove.Unwound node)
    (way : ReflTransGen grove.Lists node other) : grove.Unwound other :=
  fun id further => unwound id (way.trans further)

theorem unwound_of_acyclic (sound : grove.Sound) (acyclic : grove.Acyclic) (node : NodeId) :
    grove.Unwound node := by
  intro id _ round
  have upwards : TransGen (Function.swap grove.Lists) id id := transGen_swap.2 round
  exact acyclic id (upwards.lift (fun node => node) fun child parent listed => sound.listed listed)

theorem unwound_of_acc {node : NodeId} (ends : Acc (Function.swap grove.Lists) node) :
    grove.Unwound node := by
  induction ends with
  | intro node _ induction =>
      have irreflexive : ¬ TransGen grove.Lists node node := by
        intro round
        rcases TransGen.head'_iff.1 round with ⟨child, listed, back⟩
        exact induction child listed node back round
      intro id way
      rcases ReflTransGen.cases_head way with rfl | ⟨child, listed, further⟩
      · exact irreflexive
      · exact induction child listed id further

/-- Where no node is below itself, a view is not cut off by its bound, since the nodes above one
that is viewed are as many as the bound was lowered by. -/
theorem isSome_viewWithin_iff_of_unwound {bound : Nat} {node : NodeId} {above : List NodeId}
    (present : ∀ other, ReflTransGen grove.Lists node other → grove.Has other)
    (unwound : grove.Unwound node) (distinct : above.Nodup)
    (ancestors : ∀ ancestor ∈ above, grove.Has ancestor ∧ TransGen grove.Lists ancestor node)
    (enough : grove.entries.size < above.length + bound) :
    (grove.viewWithin bound node).isSome = true ↔
      ∀ other, ReflTransGen grove.Lists node other → grove.IsComplete other := by
  induction bound generalizing node above with
  | zero =>
      have fewer := length_le_of_has distinct fun ancestor member => (ancestors ancestor member).1
      omega
  | succ bound induction =>
      rw [isSome_viewWithin_succ_iff, forall_below_iff_and]
      apply and_congr_right
      intro _
      apply forall₂_congr
      intro child listed
      have distinct' : (node :: above).Nodup := by
        refine List.nodup_cons.2 ⟨?_, distinct⟩
        intro member
        exact unwound node .refl (ancestors node member).2
      have ancestors' : ∀ ancestor ∈ node :: above,
          grove.Has ancestor ∧ TransGen grove.Lists ancestor child := by
        intro ancestor member
        rcases List.mem_cons.1 member with rfl | higher
        · exact ⟨present ancestor .refl, .single listed⟩
        · exact ⟨(ancestors ancestor higher).1, (ancestors ancestor higher).2.tail listed⟩
      apply induction (fun other below => present other (.head listed below))
        (unwound.below (.single listed)) distinct' ancestors'
      rw [List.length_cons]
      omega

theorem isSome_view?_iff_of_present {node : NodeId}
    (present : ∀ other, ReflTransGen grove.Lists node other → grove.Has other)
    (unwound : grove.Unwound node) :
    (grove.view? node).isSome = true ↔
      ∀ other, ReflTransGen grove.Lists node other → grove.IsComplete other := by
  have none : ∀ ancestor ∈ ([] : List NodeId),
      grove.Has ancestor ∧ TransGen grove.Lists ancestor node := by
    intro ancestor member
    cases member
  apply isSome_viewWithin_iff_of_unwound present unwound .nil none
  rw [List.length_nil]
  omega

theorem isSome_view?_iff (sound : grove.Sound) {node : NodeId} (unwound : grove.Unwound node) :
    (grove.view? node).isSome = true ↔
      ∀ other, ReflTransGen grove.Lists node other → grove.IsComplete other := by
  by_cases has : grove.Has node
  · apply isSome_view?_iff_of_present _ unwound
    intro other below
    rcases below.cases_tail with same | ⟨parent, _, listed⟩
    · exact same ▸ has
    · exact has_of_parentLink? (sound.listed listed)
  · apply iff_of_false
    · intro visible
      exact has (isComplete_of_view? visible).has
    · intro complete
      exact has (complete node .refl).has

/-- A node that is viewed within any bound can be viewed: no more levels are below it than there
are nodes. -/
theorem isSome_view?_of_viewWithin {bound : Nat} {node : NodeId}
    (visible : (grove.viewWithin bound node).isSome = true) :
    (grove.view? node).isSome = true := by
  have unwound := unwound_of_acc (acc_of_viewWithin (Option.eq_some_of_isSome visible))
  have complete : ∀ other, ReflTransGen grove.Lists node other → grove.IsComplete other := by
    intro other below
    clear unwound
    induction bound generalizing node with
    | zero => simp [viewWithin] at visible
    | succ bound induction =>
        rcases isSome_viewWithin_succ_iff.1 visible with ⟨top, children⟩
        rcases ReflTransGen.cases_head below with rfl | ⟨child, listed, further⟩
        · exact top
        · exact induction (children child listed) further
  exact (isSome_view?_iff_of_present (fun other below => (complete other below).has) unwound).2
    complete

theorem view?_of_viewWithin {bound : Nat} {node : NodeId} {tree : Tree}
    (seen : grove.viewWithin bound node = some tree) : grove.view? node = some tree := by
  have visible := isSome_view?_of_viewWithin (Option.isSome_of_eq_some seen)
  rcases Option.isSome_iff_exists.1 visible with ⟨other, shown⟩
  have first := viewWithin_of_le (Nat.le_max_left bound (grove.entries.size + 1)) seen
  have second := viewWithin_of_le (Nat.le_max_right bound (grove.entries.size + 1)) shown
  rw [first, Option.some.injEq] at second
  rw [shown, second]

theorem view?_of_leaf {node : NodeId} {content : Leaf}
    (present : grove.node? node = some (.leaf content)) :
    grove.view? node = some (.leaf content) :=
  viewWithin_leaf present grove.entries.size

/-- A tag with children that can be viewed can be viewed as well. -/
theorem view?_of_tag {node : NodeId} {name : Name} {attributes : Attributes}
    {children : List NodeId} {trees : List Tree}
    (present : grove.node? node = some (.tag name attributes children))
    (each : List.Forall₂ (fun child tree => grove.view? child = some tree) children trees) :
    grove.view? node = some (.tag name attributes trees) :=
  view?_of_viewWithin (viewWithin_tag present each)

/-- Of two nodes with a common node below them, one is below the other. -/
theorem lists_total (sound : grove.Sound) {first second : NodeId}
    (former : ReflTransGen grove.Lists first id) (latter : ReflTransGen grove.Lists second id) :
    ReflTransGen grove.Lists second first ∨ ReflTransGen grove.Lists first second := by
  have unique : Relator.RightUnique (Function.swap grove.Lists) := by
    intro child left right leftListed rightListed
    exact Option.some.inj ((sound.listed leftListed).symm.trans (sound.listed rightListed))
  have upwards := ReflTransGen.total_of_right_unique unique (reflTransGen_swap.2 former)
    (reflTransGen_swap.2 latter)
  simpa only [reflTransGen_swap] using upwards

theorem apart_siblings (sound : grove.Sound) {first second parent : NodeId}
    (unwound : ¬ TransGen grove.Lists parent parent) (former : grove.Lists parent first)
    (latter : grove.Lists parent second) (different : first ≠ second) :
    grove.Apart first second := by
  have severed : ∀ {lower upper : NodeId}, grove.Lists parent lower → grove.Lists parent upper →
      ReflTransGen grove.Lists upper lower → lower = upper := by
    intro lower upper low high way
    rcases way.cases_tail with equal | ⟨next, rest, listed⟩
    · exact equal
    · have same : next = parent :=
        Option.some.inj ((sound.listed listed).symm.trans (sound.listed low))
      rw [same] at rest
      exact absurd (TransGen.head' high rest) unwound
  intro id below above
  rcases lists_total sound below above with way | way
  · exact different (severed former latter way)
  · exact different (severed latter former way).symm

theorem preorderFrom_nil (bound : Nat) : grove.preorderFrom bound [] = [] := by
  cases bound <;> rfl

theorem mem_preorderFrom {bound : Nat} {pending : List NodeId}
    (member : other ∈ grove.preorderFrom bound pending) :
    ∃ id ∈ pending, ReflTransGen grove.Lists id other := by
  induction bound generalizing pending with
  | zero =>
      rw [preorderFrom] at member
      cases member
  | succ bound induction =>
      cases pending with
      | nil =>
          rw [preorderFrom_nil] at member
          cases member
      | cons first rest =>
          rw [preorderFrom] at member
          rcases List.mem_cons.1 member with equal | behind
          · exact ⟨first, List.mem_cons_self, by rw [equal]⟩
          · rcases induction behind with ⟨id, listed, way⟩
            rcases List.mem_append.1 listed with child | waiting
            · exact ⟨first, List.mem_cons_self, way.head child⟩
            · exact ⟨id, List.mem_cons_of_mem _ waiting, way⟩

theorem nodup_preorderFrom (sound : grove.Sound) (bound : Nat) {pending : List NodeId}
    (unwound : ∀ id ∈ pending, grove.Unwound id) (apart : pending.Pairwise grove.Apart) :
    (grove.preorderFrom bound pending).Nodup := by
  -- What is visited below one of the pending nodes is not below another one, and that stays so
  -- when the children of the first take its place.
  induction bound generalizing pending with
  | zero => exact .nil
  | succ bound induction =>
      cases pending with
      | nil => exact .nil
      | cons first rest =>
          rcases List.pairwise_cons.1 apart with ⟨others, waiting⟩
          have firstUnwound := unwound first List.mem_cons_self
          rw [preorderFrom]
          apply List.nodup_cons.2
          constructor
          · intro member
            rcases mem_preorderFrom member with ⟨id, listed, way⟩
            rcases List.mem_append.1 listed with child | behind
            · exact firstUnwound first .refl (TransGen.head' child way)
            · exact others id behind first .refl way
          · apply induction
            · intro id listed
              rcases List.mem_append.1 listed with child | behind
              · exact firstUnwound.below (.single child)
              · exact unwound id (List.mem_cons_of_mem _ behind)
            · apply List.pairwise_append.2
              refine ⟨?_, waiting, ?_⟩
              · apply (sound.nodup first).imp_of_mem
                intro left right leftListed rightListed different
                exact apart_siblings sound (firstUnwound first .refl) leftListed rightListed
                  different
              · intro child listed id behind descendant below
                exact others id behind descendant (below.head listed)

/-- There are no more nodes to visit than there are in all. -/
theorem length_preorderFrom_le (sound : grove.Sound) (unwound : grove.Unwound id)
    (has : grove.Has id) (bound : Nat) :
    (grove.preorderFrom bound [id]).length ≤ grove.entries.size := by
  have distinct : (grove.preorderFrom bound [id]).Nodup := by
    apply nodup_preorderFrom sound bound _ (List.pairwise_singleton _ _)
    intro other member
    rw [List.mem_singleton] at member
    rw [member]
    exact unwound
  apply length_le_of_has distinct
  intro other member
  rcases mem_preorderFrom member with ⟨first, listed, way⟩
  rw [List.mem_singleton] at listed
  rw [listed] at way
  rcases way.cases_tail with equal | ⟨next, _, listed⟩
  · rw [equal]
    exact has
  · exact has_of_parentLink? (sound.listed listed)

theorem preorderFrom_of_length_lt {bound longer : Nat} {pending : List NodeId}
    (ended : (grove.preorderFrom bound pending).length < bound) (le : bound ≤ longer) :
    grove.preorderFrom longer pending = grove.preorderFrom bound pending := by
  induction bound generalizing longer pending with
  | zero => cases ended
  | succ bound induction =>
      cases longer with
      | zero => cases le
      | succ longer =>
          cases pending with
          | nil => rfl
          | cons first rest =>
              rw [preorderFrom] at ended ⊢
              rw [preorderFrom, induction (Nat.lt_of_succ_lt_succ ended)
                (Nat.le_of_succ_le_succ le)]

theorem length_descendants_lt (sound : grove.Sound) (acyclic : grove.Acyclic)
    (has : grove.Has id) : (grove.descendants id).length < grove.entries.size := by
  have shorter := length_preorderFrom_le sound (unwound_of_acyclic sound acyclic id) has
    (grove.entries.size + 1)
  rw [preorderFrom, List.append_nil] at shorter
  exact shorter

theorem walksEnd (sound : grove.Sound) (acyclic : grove.Acyclic) : grove.WalksEnd where
  upwards _ _ enough := follow_eq_lineage sound acyclic enough
  path _ _ enough := locationSteps_eq sound acyclic enough
  downwards id bound enough := by
    by_cases has : grove.Has id
    · exact preorderFrom_of_length_lt (length_descendants_lt sound acyclic has) enough
    · rw [descendants, children_of_not_has has, preorderFrom_nil, preorderFrom_nil]

end XmlGrove.Grove
