import XmlGrove.Proofs.Grove.Agreement
import XmlGrove.Proofs.Grove.Walks
import XmlGrove.Proofs.Path.Reading

/-!
# Location paths

Every turn of a location path singles out one child, so that from anywhere in a tree the location
path of a tag node selects that node and no other.
-/

namespace XmlGrove.Grove

open XmlGrove.Path

variable {grove : Grove} {root id parent : NodeId} {level : Nat}

/-! ## Trees in a grove -/

/-- A node is in the tree below a root, at a level that is counted from the root. -/
inductive Level (grove : Grove) (root : NodeId) : Nat → NodeId → Prop
  | root : grove.Level root 0 root
  | child {level : Nat} {id parent : NodeId} (linked : grove.parent? id = some parent)
      (above : grove.Level root level parent) : grove.Level root (level + 1) id

/-- A node is in the tree below a root. -/
def InTree (grove : Grove) (root id : NodeId) : Prop := ∃ level, grove.Level root level id

/-- A tree whose root is alone or right below a document's anchor, and in which links and lists
agree. No node of it is above itself, since the links from each of them lead to the root. -/
structure Rooted (grove : Grove) (root : NodeId) : Prop where
  topmost : ∀ above, grove.parentLink? root = some above →
    grove.isAnchor above = true ∧ grove.parentLink? above = none
  agreement : ∀ parent, grove.InTree root parent → ∀ child,
    (grove.children parent).count child = if grove.parentLink? child = some parent then 1 else 0

theorem Rooted.parent?_root (rooted : grove.Rooted root) : grove.parent? root = none := by
  rw [parent?]
  cases link : grove.parentLink? root with
  | none => rfl
  | some above => simp [(rooted.topmost above link).1]

/-- All that the link from the root leads to is the anchor of a document. -/
theorem Rooted.filter_follow_root (rooted : grove.Rooted root) (bound : Nat) :
    (grove.follow bound (grove.parentLink? root)).filter (fun node => !grove.isAnchor node) =
      [] := by
  cases link : grove.parentLink? root with
  | none => rw [follow_none]; rfl
  | some above =>
      rcases rooted.topmost above link with ⟨anchor, free⟩
      cases bound <;> simp [follow, free, follow_none, anchor]

theorem not_isAnchor_of_parent? (linked : grove.parent? id = some parent) :
    grove.isAnchor parent = false := by
  simpa using (Option.filter_eq_some_iff.1 linked).2

theorem isTag_of_childList? {children : List NodeId}
    (listed : grove.childList? id = some children) (free : grove.isAnchor id = false) :
    grove.isTag id = true := by
  rw [childList?] at listed
  rw [isAnchor, anchored?] at free
  rw [isTag, tag?]
  split at listed
  · rename_i name attributes children node
    rw [node]
    rfl
  · rename_i document children node
    rw [node] at free
    cases free
  · cases listed

section

variable (rooted : grove.Rooted root)

include rooted

theorem Level.unique {other : Nat} (first : grove.Level root level id)
    (second : grove.Level root other id) : level = other := by
  induction first generalizing other with
  | root =>
      cases second with
      | root => rfl
      | child linked above =>
          rw [rooted.parent?_root] at linked
          cases linked
  | child linked above induction =>
      cases second with
      | root =>
          rw [rooted.parent?_root] at linked
          cases linked
      | child linked' above' =>
          rw [linked] at linked'
          cases linked'
          rw [induction above']

/-- The nodes on the way up to the root, which is left out, are as many as there are levels. -/
theorem Level.exists_way (leveled : grove.Level root level id) :
    ∃ way : List NodeId, way.length = level ∧ way.Nodup ∧
      ∀ other ∈ way, grove.Has other ∧ ∃ height ≤ level, grove.Level root height other := by
  induction leveled with
  | root => exact ⟨[], rfl, .nil, by simp⟩
  | @child level id parent linked above induction =>
      rcases induction with ⟨way, length, distinct, passed⟩
      have leveled := above.child linked
      refine ⟨id :: way, by rw [List.length_cons, length], List.nodup_cons.2 ⟨?_, distinct⟩, ?_⟩
      · intro member
        rcases (passed id member).2 with ⟨height, le, former⟩
        have := former.unique rooted leveled
        omega
      · intro other member
        rcases List.mem_cons.1 member with rfl | member
        · exact ⟨has_of_parentLink? (parentLink?_of_parent? linked), _, Nat.le_refl _, leveled⟩
        · rcases passed other member with ⟨has, height, le, former⟩
          exact ⟨has, height, by omega, former⟩

theorem Level.le_size (leveled : grove.Level root level id) : level ≤ grove.entries.size := by
  rcases leveled.exists_way rooted with ⟨way, rfl, distinct, passed⟩
  exact length_le_of_has distinct fun other member => (passed other member).1

/-- The links from a node lead to the root of its tree. -/
theorem Level.getLast?_follow (leveled : grove.Level root level id) {bound : Nat}
    (enough : level ≤ bound) :
    ((grove.follow bound (grove.parentLink? id)).filter
      fun ancestor => !grove.isAnchor ancestor).getLast?.getD id = root := by
  induction leveled generalizing bound with
  | root =>
      rw [rooted.filter_follow_root]
      rfl
  | @child level id parent linked above induction =>
      cases bound with
      | zero => cases enough
      | succ bound =>
          have inner := not_isAnchor_of_parent? linked
          rw [parentLink?_of_parent? linked, follow, List.filter_cons_of_pos (by simp [inner]),
            List.getLast?_cons, Option.getD_some]
          exact induction (Nat.le_of_succ_le_succ enough)

theorem root_eq_of_inTree (inTree : grove.InTree root id) : grove.root id = root := by
  rcases inTree with ⟨level, leveled⟩
  exact leveled.getLast?_follow rooted (leveled.le_size rooted)

theorem mem_children_of_parent? (inTree : grove.InTree root parent)
    (linked : grove.parent? id = some parent) :
    grove.childList? parent = some (grove.children parent) ∧ id ∈ grove.children parent := by
  have count := rooted.agreement parent inTree id
  rw [if_pos (parentLink?_of_parent? linked)] at count
  have member : id ∈ grove.children parent := List.count_pos_iff.1 (by omega)
  refine ⟨?_, member⟩
  cases listed : grove.childList? parent with
  | none =>
      rw [children, listed] at member
      cases member
  | some children => rw [children_of_childList? listed]

end

/-! ## Turns -/

theorem getElem?_filter_takeWhile [DecidableEq α] {test : α → Bool} {item : α} {items : List α}
    (member : item ∈ items) (passes : test item = true) :
    (items.filter test)[((items.takeWhile (· ≠ item)).filter test).length]? = some item := by
  induction items with
  | nil => cases member
  | cons first rest induction =>
      by_cases equal : first = item
      · simp [equal, passes]
      · have later := induction (List.mem_of_ne_of_mem (Ne.symm equal) member)
        by_cases counted : test first = true
        · simpa [equal, counted] using later
        · simpa [equal, counted] using later

/-- Tell whether a node is a tag node of a name. -/
def isNamed (grove : Grove) (name : Name) (id : NodeId) : Bool :=
  (grove.tag? id).any fun (present, _) => present = name

theorem namedPosition_eq (grove : Grove) (id : NodeId) (name : Name) (siblings : List NodeId) :
    grove.namedPosition id name siblings =
      ((siblings.takeWhile (· ≠ id)).filter (grove.isNamed name)).length + 1 :=
  Nat.add_comm _ _

theorem testedChildren_named (name : Name) :
    grove.testedChildren (.named name.text) id = (grove.children id).filter (grove.isNamed name) := by
  rw [testedChildren, childTags, List.filter_filter]
  apply List.filter_congr
  intro child _
  rw [hasName, isTag, isNamed]
  cases grove.tag? child with
  | none => rfl
  | some label =>
      have same : label.1.text = name.text ↔ label.1 = name := ⟨Name.ext, congrArg Name.text⟩
      simp [← same, beq_eq_decide]

/-- The turn that a location path takes to get from a node to its child. -/
def turnTo (grove : Grove) (parent child : NodeId) (name : Name) : Turn :=
  ⟨name, grove.namedPosition child name (grove.children parent)⟩

theorem takeStep_turnTo {name : Name} {attributes : Attributes}
    (listed : id ∈ grove.children parent) (tag : grove.tag? id = some (name, attributes)) :
    grove.takeStep [parent] (grove.turnTo parent id name).step = [id] := by
  have named : grove.isNamed name id = true := by simp [isNamed, tag]
  have position := grove.namedPosition_eq id name (grove.children parent)
  have found := getElem?_filter_takeWhile listed named
  simp only [Turn.step, turnTo, takeStep, selectBy, List.flatMap_singleton, testedChildren_named,
    position]
  rw [if_pos (by omega), Int.toNat_natCast, Nat.add_sub_cancel, found, Option.toList_some]

/-! ## Ways down -/

/-- Turns that lead from the root to a single node, each from a node with children. -/
structure Leads (grove : Grove) (root : NodeId) (turns : List Turn) (id : NodeId) : Prop where
  selects : (turns.map Turn.step).foldl grove.takeStep [root] = [id]
  provided : grove.needsChildren [root] (turns.map Turn.step) = false

theorem leads_root : grove.Leads root [] root := ⟨rfl, rfl⟩

theorem needsChildren_append (ids : List NodeId) (former latter : List Step) :
    grove.needsChildren ids (former ++ latter) =
      (grove.needsChildren ids former ||
        grove.needsChildren (former.foldl grove.takeStep ids) latter) := by
  induction former generalizing ids with
  | nil => rfl
  | cons step former induction =>
      rw [List.cons_append, needsChildren, needsChildren, induction, List.foldl_cons, Bool.or_assoc]

theorem Leads.turn {turns : List Turn} {name : Name} {attributes : Attributes}
    (leads : grove.Leads root turns parent)
    (listed : grove.childList? parent = some (grove.children parent))
    (member : id ∈ grove.children parent) (tag : grove.tag? id = some (name, attributes)) :
    grove.Leads root (turns ++ [grove.turnTo parent id name]) id where
  selects := by
    rw [List.map_append, List.foldl_append, leads.selects]
    exact takeStep_turnTo member tag
  provided := by
    rw [List.map_append, needsChildren_append, leads.provided, leads.selects]
    simp [needsChildren, listedBy, Turn.step, listed]

section

variable (rooted : grove.Rooted root)

include rooted

theorem Level.exists_turns (leveled : grove.Level root level id) (tag : grove.isTag id = true)
    {bound : Nat} (enough : level ≤ bound) :
    ∃ turns, grove.locationSteps bound id = .ok (turns.map Turn.text).reverse ∧
      grove.Leads root turns id := by
  induction leveled generalizing bound with
  | root =>
      refine ⟨[], ?_, leads_root⟩
      cases bound with
      | zero => rfl
      | succ bound => simp [locationSteps, rooted.parent?_root]
  | @child level id parent linked above induction =>
      rcases mem_children_of_parent? rooted ⟨_, above⟩ linked with ⟨listed, member⟩
      have inner := isTag_of_childList? listed (not_isAnchor_of_parent? linked)
      rcases Option.isSome_iff_exists.1 tag with ⟨⟨name, attributes⟩, labelled⟩
      cases bound with
      | zero => cases enough
      | succ bound =>
          rcases induction inner (Nat.le_of_succ_le_succ enough) with ⟨turns, steps, leads⟩
          refine ⟨_, ?_, leads.turn listed member labelled⟩
          simp only [locationSteps, linked, labelled, listed, steps]
          simp [Except.map, turnTo, Turn.text]

/-- The location path of a tag node is made up of turns that lead to it. -/
theorem exists_pathOf_eq_locationPath (inTree : grove.InTree root id)
    (tag : grove.isTag id = true) :
    ∃ turns, grove.locationPath id = .ok (pathOf turns) ∧ grove.Leads root turns id := by
  rcases inTree with ⟨level, leveled⟩
  rcases leveled.exists_turns rooted tag (leveled.le_size rooted) with ⟨turns, steps, leads⟩
  refine ⟨turns, ?_, leads⟩
  rw [locationPath, steps]
  simp [Except.map, pathOf]

end

theorem Leads.stepsOf {turns : List Turn} (leads : grove.Leads root turns id) :
    (stepsOf turns).foldl grove.takeStep [root] = [id] ∧
      grove.needsChildren [root] (stepsOf turns) = false := by
  cases turns with
  | nil => exact ⟨leads.selects, rfl⟩
  | cons turn rest => exact ⟨leads.selects, leads.provided⟩

theorem Leads.query_pathOf {turns : List Turn} {context : NodeId}
    (leads : grove.Leads root turns id) (same : grove.root context = root) :
    grove.needsChildren [grove.origin (.read (pathOf turns).toList) context]
        (Expression.read (pathOf turns).toList).steps = false ∧
      grove.query context (pathOf turns) = [id] := by
  have nonempty : (Path.stepsOf turns).isEmpty = false := by
    cases turns with
    | nil => rfl
    | cons turn rest => rfl
  rw [query, read_pathOf, origin, if_pos rfl, same]
  refine ⟨leads.stepsOf.2, ?_⟩
  simp only [select, nonempty, origin, if_true, same, leads.stepsOf.1]
  rfl

/-- The location path of a tag node selects that node and nothing else, from any node of its tree.
So no other tag node of the tree has the same location path. -/
theorem query_locationPath {context : NodeId} (rooted : grove.Rooted root)
    (inTree : grove.InTree root id) (tag : grove.isTag id = true)
    (contextInTree : grove.InTree root context) :
    ∃ path, grove.locationPath id = .ok path ∧
      grove.needsChildren [grove.origin (.read path.toList) context]
        (Expression.read path.toList).steps = false ∧
      grove.query context path = [id] ∧
      ∀ other, grove.InTree root other → grove.isTag other = true →
        grove.locationPath other = .ok path → other = id := by
  have same := root_eq_of_inTree rooted contextInTree
  rcases exists_pathOf_eq_locationPath rooted inTree tag with ⟨turns, path, leads⟩
  rcases leads.query_pathOf same with ⟨provided, selected⟩
  refine ⟨_, path, provided, selected, ?_⟩
  intro other otherInTree otherTag samePath
  rcases exists_pathOf_eq_locationPath rooted otherInTree otherTag with
    ⟨otherTurns, otherPath, otherLeads⟩
  rw [otherPath, Except.ok.injEq] at samePath
  have otherSelected := (otherLeads.query_pathOf same).2
  rw [samePath, selected] at otherSelected
  exact (List.singleton_inj.1 otherSelected).symm

/-! ## The trees of reachable groves -/

/-- Where links and lists agree throughout, they do so in each tree with finished tag nodes. -/
theorem Agreement.rooted (agreement : grove.Agreement)
    (topmost : ∀ above, grove.parentLink? root = some above →
      grove.isAnchor above = true ∧ grove.parentLink? above = none)
    (finished : ∀ id, grove.InTree root id → grove.isUnfinished id = false) :
    grove.Rooted root where
  topmost := topmost
  agreement parent inTree child := by
    rw [agreement child parent, finished parent inTree]
    simp

/-- A document with two parts of the same name, a node of another kind before each of the inner
tag nodes. -/
def bookGrove : Grove :=
  (Operation.createDocument { sources := [.node ⟨0⟩] }).apply
    ((Operation.plant (.tag ⟨"book", by decide⟩ {} [
      .tag ⟨"part.a", by decide⟩ {} [],
      .text "between",
      .tag ⟨"part.a", by decide⟩ {} [
        .leaf (.comment "note"),
        .tag ⟨"x-y:z", by decide⟩ {} []]])).apply {})

theorem reachable_bookGrove :
    Reachable (fun operation grove => ¬ operation.GivenUp grove) bookGrove := by
  apply Reachable.step
  · apply Reachable.start.step
    · intro id member
      cases member
    · intro given
      exact given
  · unfold Operation.Available Offers
    decide
  · rintro ⟨id, anchor, ready, first, rest, child, middle, fault, last, _, equal, _, refused⟩
    cases equal
    rw [adoptAll] at refused
    cases refused

theorem rooted_bookGrove : bookGrove.Rooted ⟨0⟩ := by
  apply reachable_bookGrove.agreement.rooted
  · intro above linked
    have link : bookGrove.parentLink? ⟨0⟩ = some ⟨7⟩ := by decide
    rw [link] at linked
    cases linked
    decide
  · intro id _
    by_cases has : bookGrove.Has id
    · have finished : ∀ index < bookGrove.entries.size,
          bookGrove.isUnfinished ⟨index⟩ = false := by
        decide
      exact finished id.index has
    · rw [isUnfinished, node?_of_not_has has]

theorem query_locationPath_bookGrove :
    bookGrove.Rooted ⟨0⟩ ∧ bookGrove.InTree ⟨0⟩ ⟨5⟩ ∧ bookGrove.isTag ⟨5⟩ = true ∧
      bookGrove.InTree ⟨0⟩ ⟨1⟩ ∧ bookGrove.locationPath ⟨5⟩ = .ok "/part.a[2]/x-y:z[1]" ∧
      bookGrove.query ⟨1⟩ "/part.a[2]/x-y:z[1]" = [⟨5⟩] := by
  have tag : bookGrove.isTag ⟨5⟩ = true := by decide
  have linked : bookGrove.parent? ⟨5⟩ = some ⟨3⟩ := by decide
  have inTree : bookGrove.InTree ⟨0⟩ ⟨5⟩ := ⟨2, .child linked (.child (by decide) .root)⟩
  have contextInTree : bookGrove.InTree ⟨0⟩ ⟨1⟩ := ⟨1, .child (by decide) .root⟩
  have path : bookGrove.locationPath ⟨5⟩ = .ok "/part.a[2]/x-y:z[1]" := by rfl
  refine ⟨rooted_bookGrove, inTree, tag, contextInTree, path, ?_⟩
  rcases query_locationPath rooted_bookGrove inTree tag contextInTree with
    ⟨selecting, equal, _, selected, _⟩
  rw [path, Except.ok.injEq] at equal
  rw [equal]
  exact selected

end XmlGrove.Grove
