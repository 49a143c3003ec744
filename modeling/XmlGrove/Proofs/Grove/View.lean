import XmlGrove.Grove.View
import XmlGrove.Proofs.Grove.Lineage

/-!
# Which nodes can be viewed

A node that lies below one without a parent has fewer nodes above it than there are in all, hence
the bound that views are subject to is never reached there. Such a node can be viewed exactly if no
tag node below it lacks its list of children.
-/

namespace XmlGrove.Grove

open Relation

variable {grove : Grove} {node other parent child : NodeId} {rank higher bound : Nat}

/-! ## Ranks -/

/-- The number of nodes above a node, up to one without a parent. -/
inductive Rank (grove : Grove) : Nat → NodeId → Prop
  | top {node : NodeId} (has : grove.Has node) (free : grove.parentLink? node = none) :
      Rank grove 0 node
  | deeper {rank : Nat} {node parent : NodeId} (linked : grove.parentLink? node = some parent)
      (above : Rank grove rank parent) : Rank grove (rank + 1) node

theorem Rank.has (ranked : grove.Rank rank node) : grove.Has node := by
  cases ranked with
  | top has free => exact has
  | deeper linked above => exact has_of_parentLink? linked

theorem Rank.unique (first : grove.Rank rank node) (second : grove.Rank higher node) :
    rank = higher := by
  induction first generalizing higher with
  | top has free =>
      cases second with
      | top => rfl
      | deeper linked above =>
          rw [free] at linked
          cases linked
  | deeper linked above induction =>
      cases second with
      | top has free =>
          rw [free] at linked
          cases linked
      | deeper others further =>
          rw [linked] at others
          cases others
          rw [induction further]

/-- The nodes above a node have lower ranks, so that none of them occurs twice. -/
theorem Rank.exists_way (ranked : grove.Rank rank node) :
    ∃ ids : List NodeId, ids.length = rank + 1 ∧ ids.Nodup ∧
      ∀ id ∈ ids, ∃ lower, lower ≤ rank ∧ grove.Rank lower id := by
  induction ranked with
  | @top node has free =>
      refine ⟨[node], rfl, List.pairwise_singleton _ node, ?_⟩
      intro id member
      rw [List.mem_singleton] at member
      rw [member]
      exact ⟨0, Nat.le_refl _, .top has free⟩
  | @deeper rank node parent linked above induction =>
      rcases induction with ⟨ids, length, distinct, ranks⟩
      refine ⟨node :: ids, by rw [List.length_cons, length], ?_, ?_⟩
      · refine List.nodup_cons.2 ⟨?_, distinct⟩
        intro member
        rcases ranks node member with ⟨lower, low, ranked⟩
        have same := ranked.unique (.deeper linked above)
        omega
      · intro id member
        rcases List.mem_cons.1 member with rfl | later
        · exact ⟨rank + 1, Nat.le_refl _, .deeper linked above⟩
        · rcases ranks id later with ⟨lower, low, ranked⟩
          exact ⟨lower, Nat.le_succ_of_le low, ranked⟩

theorem Rank.lt_size (ranked : grove.Rank rank node) : rank < grove.entries.size := by
  rcases ranked.exists_way with ⟨ids, length, distinct, ranks⟩
  have fewer := length_le_of_has distinct fun id member => by
    rcases ranks id member with ⟨lower, _, ranked⟩
    exact ranked.has
  omega

/-! ## Views -/

/-- A node lists another one as its child. -/
def Lists (grove : Grove) (parent child : NodeId) : Prop := child ∈ grove.children parent

/-- A node with all that it needs to be viewed: a leaf, or a tag with its list of children. -/
structure IsComplete (grove : Grove) (node : NodeId) : Prop where
  kind : (grove.kind? node).isSome = true
  finished : grove.isUnfinished node = false

instance : Decidable (grove.IsComplete node) :=
  decidable_of_iff (_ ∧ _) ⟨fun held => ⟨held.1, held.2⟩, fun held => ⟨held.kind, held.finished⟩⟩

theorem IsComplete.has (complete : grove.IsComplete node) : grove.Has node := by
  by_contra missing
  have kind := complete.kind
  rw [kind?, node?_of_not_has missing] at kind
  cases kind

theorem isSome_viewAllWithin_iff {nodes : List NodeId} :
    (grove.viewAllWithin bound nodes).isSome = true ↔
      ∀ node ∈ nodes, (grove.viewWithin bound node).isSome = true := by
  induction nodes with
  | nil => simp [viewAllWithin]
  | cons first rest induction =>
      rw [List.forall_mem_cons, ← induction, viewAllWithin]
      cases grove.viewWithin bound first with
      | none => simp
      | some tree =>
          cases grove.viewAllWithin bound rest with
          | none => simp
          | some trees => simp

theorem isComplete_of_node? {content : Node} (present : grove.node? node = some content)
    (plain : content.isAnchor = false) (finished : grove.isUnfinished node = false) :
    grove.IsComplete node := by
  refine ⟨?_, finished⟩
  rw [kind?, present]
  cases content with
  | leaf leaf => rfl
  | tag name attributes children => rfl
  | unfinished name attributes => rfl
  | anchor document children => cases plain

theorem IsComplete.leaf_or_tag (complete : grove.IsComplete node) :
    (∃ content, grove.node? node = some (.leaf content)) ∨
      ∃ name attributes children, grove.node? node = some (.tag name attributes children) := by
  have kind := complete.kind
  have finished := complete.finished
  rw [kind?] at kind
  rw [isUnfinished] at finished
  cases present : grove.node? node with
  | none => simp [present] at kind
  | some content => cases content <;> simp_all

/-- All is complete from a node on if the node is, and if it is from each of its children on. -/
theorem forall_below_iff_and :
    (∀ other, ReflTransGen grove.Lists node other → grove.IsComplete other) ↔
      grove.IsComplete node ∧ ∀ child ∈ grove.children node, ∀ other,
        ReflTransGen grove.Lists child other → grove.IsComplete other := by
  constructor
  · intro each
    exact ⟨each node .refl, fun child member other below => each other (.head member below)⟩
  · rintro ⟨complete, each⟩ other below
    rcases ReflTransGen.cases_head below with same | ⟨child, member, further⟩
    · rw [← same]
      exact complete
    · exact each child member other further

/-- All is complete from a complete node on if it is from each of its children on. -/
theorem forall_below_iff (complete : grove.IsComplete node) :
    (∀ other, ReflTransGen grove.Lists node other → grove.IsComplete other) ↔
      ∀ child ∈ grove.children node, ∀ other, ReflTransGen grove.Lists child other →
        grove.IsComplete other :=
  forall_below_iff_and.trans (and_iff_right complete)

/-- A node can be viewed if it has all that it needs, and each of its children can be viewed. -/
theorem isSome_viewWithin_succ_iff :
    (grove.viewWithin (bound + 1) node).isSome = true ↔ grove.IsComplete node ∧
      ∀ child ∈ grove.children node, (grove.viewWithin bound child).isSome = true := by
  rw [viewWithin]
  cases present : grove.node? node with
  | none =>
      apply iff_of_false Bool.false_ne_true
      rintro ⟨complete, _⟩
      have kind := complete.kind
      rw [kind?, present] at kind
      cases kind
  | some content =>
      cases content with
      | leaf leaf =>
          have barren : grove.children node = [] := by
            rw [children, childList?, present]
            rfl
          rw [barren]
          refine iff_of_true rfl ⟨?_, fun child member => by cases member⟩
          exact isComplete_of_node? present rfl (by rw [isUnfinished, present])
      | tag name attributes children =>
          have listed : grove.children node = children := children_of_node? present
          have complete : grove.IsComplete node :=
            isComplete_of_node? present rfl (by rw [isUnfinished, present])
          rw [listed, Option.isSome_map, isSome_viewAllWithin_iff]
          exact (and_iff_right complete).symm
      | unfinished name attributes =>
          apply iff_of_false Bool.false_ne_true
          rintro ⟨complete, _⟩
          have finished := complete.finished
          rw [isUnfinished, present] at finished
          cases finished
      | anchor document children =>
          apply iff_of_false Bool.false_ne_true
          rintro ⟨complete, _⟩
          have kind := complete.kind
          rw [kind?, present] at kind
          cases kind

theorem isSome_viewWithin_iff (sound : grove.Sound) (ranked : grove.Rank rank node)
    (enough : grove.entries.size < rank + bound) :
    (grove.viewWithin bound node).isSome = true ↔
      ∀ other, ReflTransGen grove.Lists node other → grove.IsComplete other := by
  induction bound generalizing rank node with
  | zero =>
      have lower := ranked.lt_size
      omega
  | succ bound induction =>
      rw [isSome_viewWithin_succ_iff, forall_below_iff_and]
      apply and_congr_right
      intro _
      exact forall₂_congr fun child member =>
        induction (.deeper (sound.listed member) ranked) (by omega)

/-- Where each node has all that it needs, one without a parent can be viewed. -/
theorem isSome_view?_of_complete (sound : grove.Sound) (has : grove.Has node)
    (free : grove.parentLink? node = none)
    (complete : ∀ index < grove.entries.size, grove.IsComplete ⟨index⟩) :
    (grove.view? node).isSome = true := by
  apply (isSome_viewWithin_iff sound (.top has free) (by omega)).2
  intro other below
  rcases ReflTransGen.cases_tail below with same | ⟨parent, _, listed⟩
  · rw [same]
    exact complete _ has
  · exact complete _ (has_of_parentLink? (sound.listed listed))

/-! ## What views show -/

theorem viewAllWithin_eq_some_iff {nodes : List NodeId} {trees : List Tree} :
    grove.viewAllWithin bound nodes = some trees ↔
      List.Forall₂ (fun node tree => grove.viewWithin bound node = some tree) nodes trees := by
  induction nodes generalizing trees with
  | nil =>
      rw [viewAllWithin, List.forall₂_nil_left_iff, Option.some.injEq]
      exact eq_comm
  | cons first rest induction =>
      rw [viewAllWithin, List.forall₂_cons_left_iff]
      cases grove.viewWithin bound first with
      | none => simp
      | some tree =>
          cases seen : grove.viewAllWithin bound rest with
          | none => simp [← induction, seen]
          | some others =>
              simp only [← induction, seen, Option.some.injEq, eq_comm (a := trees)]
              simp

/-- What a view of a node shows: a leaf, or a tag and the views of its children. -/
theorem viewWithin_cases {tree : Tree} (seen : grove.viewWithin bound node = some tree) :
    (∃ content : Leaf, grove.node? node = some (.leaf content) ∧ tree = .leaf content) ∨
      ∃ (smaller : Nat) (name : Name) (attributes : Attributes) (children : List NodeId)
        (trees : List Tree), bound = smaller + 1 ∧
        grove.node? node = some (.tag name attributes children) ∧
        tree = .tag name attributes trees ∧
        List.Forall₂ (fun child tree => grove.viewWithin smaller child = some tree)
          children trees := by
  cases bound with
  | zero =>
      rw [viewWithin] at seen
      cases seen
  | succ bound =>
      rw [viewWithin] at seen
      split at seen
      · rename_i content present
        exact .inl ⟨content, present, (Option.some.inj seen).symm⟩
      · rename_i name attributes children present
        rcases Option.map_eq_some_iff.1 seen with ⟨trees, each, rfl⟩
        exact .inr ⟨bound, name, attributes, children, trees, rfl, present, rfl,
          viewAllWithin_eq_some_iff.1 each⟩
      · cases seen

theorem viewWithin_leaf {content : Leaf} (present : grove.node? node = some (.leaf content))
    (bound : Nat) : grove.viewWithin (bound + 1) node = some (.leaf content) := by
  rw [viewWithin, present]

theorem viewWithin_tag {name : Name} {attributes : Attributes} {children : List NodeId}
    {trees : List Tree} (present : grove.node? node = some (.tag name attributes children))
    (each : List.Forall₂ (fun child tree => grove.viewWithin bound child = some tree)
      children trees) :
    grove.viewWithin (bound + 1) node = some (.tag name attributes trees) := by
  rw [viewWithin, present]
  dsimp only
  rw [viewAllWithin_eq_some_iff.2 each]
  rfl

theorem viewWithin_of_le {longer : Nat} {tree : Tree} (le : bound ≤ longer)
    (seen : grove.viewWithin bound node = some tree) :
    grove.viewWithin longer node = some tree := by
  induction bound generalizing node longer tree with
  | zero =>
      rw [viewWithin] at seen
      cases seen
  | succ bound induction =>
      cases longer with
      | zero => omega
      | succ longer =>
          rcases viewWithin_cases seen with ⟨content, present, rfl⟩ |
            ⟨smaller, name, attributes, children, trees, equal, present, rfl, each⟩
          · exact viewWithin_leaf present longer
          · cases equal
            exact viewWithin_tag present (each.imp fun child tree => induction (by omega))

theorem view?_leaf {content : Leaf} (seen : grove.view? node = some (.leaf content)) :
    grove.node? node = some (.leaf content) := by
  rcases viewWithin_cases seen with ⟨other, present, equal⟩ | ⟨_, _, _, _, _, _, _, equal, _⟩
  · cases equal
    exact present
  · cases equal

theorem view?_tag {name : Name} {attributes : Attributes} {trees : List Tree}
    (seen : grove.view? node = some (.tag name attributes trees)) :
    ∃ children : List NodeId, grove.node? node = some (.tag name attributes children) ∧
      List.Forall₂ (fun child tree => grove.view? child = some tree) children trees := by
  rcases viewWithin_cases seen with ⟨_, _, equal⟩ |
    ⟨smaller, other, others, children, views, bounded, present, equal, each⟩
  · cases equal
  · cases equal
    exact ⟨children, present, each.imp fun child tree => viewWithin_of_le (by omega)⟩

/-- What is below a node that can be viewed can be viewed as well. -/
theorem isSome_view?_of_lists (visible : (grove.view? parent).isSome = true)
    (listed : grove.Lists parent child) : (grove.view? child).isSome = true := by
  rcases Option.isSome_iff_exists.1 visible with ⟨tree, seen⟩
  cases tree with
  | leaf content =>
      rw [Lists, children, childList?, view?_leaf seen] at listed
      cases listed
  | tag name attributes trees =>
      rcases view?_tag seen with ⟨children, present, each⟩
      rw [Lists, children_of_node? present] at listed
      rcases List.mem_iff_getElem.1 listed with ⟨index, bounded, rfl⟩
      have viewed := each.get bounded (each.length_eq ▸ bounded)
      rw [List.get_eq_getElem] at viewed
      exact Option.isSome_of_eq_some viewed

theorem isComplete_of_view? (visible : (grove.view? node).isSome = true) :
    grove.IsComplete node := by
  rcases Option.isSome_iff_exists.1 visible with ⟨tree, seen⟩
  cases tree with
  | leaf content =>
      have present := view?_leaf seen
      exact isComplete_of_node? present rfl (by rw [isUnfinished, present])
  | tag name attributes trees =>
      rcases view?_tag seen with ⟨children, present, -⟩
      exact isComplete_of_node? present rfl (by rw [isUnfinished, present])

/-- Going down from a node that can be viewed comes to an end. -/
theorem acc_of_viewWithin {tree : Tree} (seen : grove.viewWithin bound node = some tree) :
    Acc (Function.swap grove.Lists) node := by
  induction bound generalizing node tree with
  | zero =>
      rw [viewWithin] at seen
      cases seen
  | succ bound induction =>
      constructor
      intro child listed
      rcases viewWithin_cases seen with ⟨content, present, rfl⟩ |
        ⟨smaller, name, attributes, children, trees, equal, present, rfl, each⟩
      · change child ∈ grove.children node at listed
        rw [children, childList?, present] at listed
        cases listed
      · cases equal
        change child ∈ grove.children node at listed
        rw [children_of_node? present] at listed
        have visible : (grove.viewAllWithin bound children).isSome = true := by
          rw [viewAllWithin_eq_some_iff.2 each]
          rfl
        have seen := isSome_viewAllWithin_iff.1 visible child listed
        exact induction (Option.eq_some_of_isSome seen)

/-- A view stays the same where the nodes below stay the same, whatever becomes of their
parents. -/
theorem viewWithin_of_kept {last : Grove} {tree : Tree}
    (kept : ∀ other, ReflTransGen grove.Lists node other → last.node? other = grove.node? other)
    (seen : grove.viewWithin bound node = some tree) : last.viewWithin bound node = some tree := by
  induction bound generalizing node tree with
  | zero =>
      rw [viewWithin] at seen
      cases seen
  | succ bound induction =>
      rcases viewWithin_cases seen with ⟨content, present, rfl⟩ |
        ⟨smaller, name, attributes, children, trees, equal, present, rfl, each⟩
      · exact viewWithin_leaf ((kept node .refl).trans present) bound
      · cases equal
        apply viewWithin_tag ((kept node .refl).trans present)
        have listed : grove.children node = children := children_of_node? present
        apply List.Forall₂.imp _ ((List.forall₂_and_left _ _).2 ⟨fun _ => id, each⟩)
        rintro child tree ⟨member, seen⟩
        apply induction _ seen
        intro other below
        exact kept other (.head (by rw [Lists, listed]; exact member) below)

theorem view?_of_kept {last : Grove} {tree : Tree}
    (size : grove.entries.size ≤ last.entries.size)
    (kept : ∀ other, ReflTransGen grove.Lists node other → last.node? other = grove.node? other)
    (seen : grove.view? node = some tree) : last.view? node = some tree :=
  viewWithin_of_le (Nat.succ_le_succ size) (viewWithin_of_kept kept seen)

/-- A node shows the tree that a node showed earlier. -/
def ShowsAlike (before after : Grove) (id clone : NodeId) : Prop :=
  ∃ tree, before.view? id = some tree ∧ after.view? clone = some tree

end XmlGrove.Grove
