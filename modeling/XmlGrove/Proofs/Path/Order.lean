import Mathlib.Data.List.Flatten
import XmlGrove.Proofs.Grove.Levels
import XmlGrove.Proofs.Path.Composition

/-!
# Paths that lead down

The nodes that a number of levels are below a node make up a generation, in document order. Steps
that do not lead to parents stay among the nodes of one generation: each of them drops nodes, or
goes on to the next generation. So what they select needs neither sorting nor deduplication.
-/

namespace XmlGrove.Grove

open XmlGrove.Path Relation

variable {grove : Grove} {root id context start : NodeId} {ids tops : List NodeId}
  {level count : Nat}

/-! ## Generations -/

/-- The nodes that are a number of levels below given ones. -/
def generation (grove : Grove) : Nat → List NodeId → List NodeId
  | 0, ids => ids
  | count + 1, ids => grove.generation count (ids.flatMap grove.children)

theorem flatMap_children_generation (count : Nat) (tops : List NodeId) :
    (grove.generation count tops).flatMap grove.children = grove.generation (count + 1) tops := by
  induction count generalizing tops with
  | zero => rfl
  | succ count induction => exact induction (tops.flatMap grove.children)

section

variable (consistent : grove.Consistent root)

include consistent

theorem Consistent.atDepth_eq_nil (leveled : ∀ id ∈ ids, grove.Level root level id) {depth : Nat}
    (different : level ≠ depth) : grove.atDepth depth ids = [] := by
  apply List.filter_eq_nil_iff.2
  intro id member
  simpa [(leveled id member).depth_eq consistent] using different

/-- A generation holds what is at one depth, in document order. -/
theorem Consistent.generation_eq_atDepth (leveled : ∀ id ∈ ids, grove.Level root level id)
    (count : Nat) : grove.generation count ids =
      grove.atDepth (level + count) (ids.flatMap grove.preorder) := by
  induction count generalizing level ids with
  | zero =>
      rw [generation, Nat.add_zero, atDepth, List.filter_flatMap]
      symm
      exact (List.flatMap_congr fun id member =>
        consistent.atDepth_preorder (leveled id member)).trans (List.flatMap_singleton' ids)
  | succ count induction =>
      have deeper := consistent.leveled_flatMap_children leveled
      rw [generation, induction deeper, consistent.atDepth_flatMap_preorder leveled,
        consistent.atDepth_eq_nil leveled (by omega), List.nil_append]
      congr 1
      omega

/-- The nodes of a tree within another one stand together in document order. -/
theorem Consistent.preorder_sublist (inTree : grove.InTree root id) :
    (grove.preorder id).Sublist (grove.preorder root) := by
  rcases inTree with ⟨level, leveled⟩
  induction leveled with
  | root => exact .refl _
  | @child level id parent linked above induction =>
      have listed := (consistent.lists_iff ⟨level, above⟩).2 linked
      have within : (grove.preorder id).Sublist (grove.descendants parent) := by
        rw [consistent.descendants_eq ⟨level, above⟩, List.flatMap]
        exact List.sublist_flatten_of_mem (List.mem_map_of_mem listed)
      exact (within.trans (List.sublist_cons_self parent _)).trans induction

end

/-! ## Steps -/

theorem testedChildren_sublist (test : ChildTest) (id : NodeId) :
    (grove.testedChildren test id).Sublist (grove.children id) := by
  cases test with
  | any => exact List.filter_sublist
  | named name => exact List.filter_sublist.trans List.filter_sublist

theorem selectBy_sublist (predicate : Predicate) (candidates : List NodeId) :
    (grove.selectBy predicate candidates).Sublist candidates := by
  cases predicate with
  | attributeEquals name value => exact List.filter_sublist
  | hasAttribute name => exact List.filter_sublist
  | textEquals value => exact List.filter_sublist
  | unsupported expression => exact List.nil_sublist _
  | position number =>
      rw [selectBy]
      split
      · cases picked : candidates[number.toNat - 1]? with
        | none => exact List.nil_sublist _
        | some id => exact List.singleton_sublist.2 (List.mem_of_getElem? picked)
      · exact List.nil_sublist _

/-- A step that does not lead up stays in a generation, or it goes on to the next one. -/
theorem takeStep_sublist {step : Step} (downward : step ≠ .parent)
    (within : ids.Sublist (grove.generation count tops)) :
    ∃ further, (grove.takeStep ids step).Sublist (grove.generation further tops) := by
  have tested : ∀ test, (ids.flatMap (grove.testedChildren test)).Sublist
      (grove.generation (count + 1) tops) := by
    intro test
    rw [← flatMap_children_generation]
    exact (List.Sublist.flatMap_right ids fun id _ => testedChildren_sublist test id).trans
      (within.flatMap grove.children)
  cases step with
  | children test => exact ⟨_, tested test⟩
  | filtered test predicate => exact ⟨_, (selectBy_sublist predicate _).trans (tested test)⟩
  | self => exact ⟨_, within⟩
  | parent => exact absurd rfl downward
  | nowhere => exact ⟨count, List.nil_sublist _⟩

theorem foldl_takeStep_sublist {steps : List Step} (downward : Step.parent ∉ steps)
    (within : ids.Sublist (grove.generation count tops)) :
    ∃ further, (steps.foldl grove.takeStep ids).Sublist (grove.generation further tops) := by
  induction steps generalizing ids count with
  | nil => exact ⟨count, within⟩
  | cons step rest induction =>
      rw [List.mem_cons, not_or] at downward
      rcases takeStep_sublist (Ne.symm downward.1) within with ⟨further, stepped⟩
      exact induction downward.2 stepped

theorem select_sublist {expression : Expression} (downward : Step.parent ∉ expression.steps) :
    ∃ count, (grove.select expression context).Sublist
      (grove.generation count [grove.origin expression context]) := by
  rw [select]
  split
  · exact ⟨0, List.nil_sublist _⟩
  · have start : [grove.origin expression context].Sublist
        (grove.generation 0 [grove.origin expression context]) := .refl _
    exact foldl_takeStep_sublist downward start

/-! ## Queries -/

/-- Where a path without steps to parents starts, it selects nodes of one depth from the tree
there. They are in document order, each of them once. -/
theorem selects_in_order {text : String} (consistent : grove.Consistent root)
    (inTree : grove.InTree root context) (tag : grove.isTag context = true)
    (downward : Step.parent ∉ (Expression.read text.toList).steps) :
    ∃ found start depth, grove.Selects context text found ∧
      start = (if (Expression.read text.toList).absolute then root else context) ∧
      found.Nodup ∧ found.Sublist (grove.preorder root) ∧
      ∀ id ∈ found, grove.depth id = depth ∧ (id = start ∨ start ∈ grove.ancestors id) := by
  have top : grove.origin (.read text.toList) context =
      if (Expression.read text.toList).absolute then root else context := by
    rw [Grove.origin, root_eq_of_inTree consistent.toRooted inTree]
  have starts : grove.InTree root (grove.origin (.read text.toList) context) := by
    rw [top]
    split
    · exact ⟨0, .root⟩
    · exact inTree
  rcases starts with ⟨level, leveled⟩
  have single : ∀ id ∈ [grove.origin (.read text.toList) context],
      grove.Level root level id := by
    simpa using leveled
  have selected : ∃ count, (grove.select (.read text.toList) context).Sublist
      (grove.generation count [grove.origin (.read text.toList) context]) := select_sublist downward
  rcases selected with ⟨count, within⟩
  rw [consistent.generation_eq_atDepth single, List.flatMap_singleton] at within
  have below := within.trans List.filter_sublist
  refine ⟨_, _, level + count, (consistent.selects_query ⟨inTree, tag⟩ text).1, top,
    below.nodup (consistent.nodup_preorder ⟨level, leveled⟩),
    below.trans (consistent.preorder_sublist ⟨level, leveled⟩), ?_⟩
  intro id member
  rw [← consistent.mem_descendants_iff ⟨level, leveled⟩]
  constructor
  · simpa using (List.mem_filter.1 (within.subset member)).2
  · exact List.mem_cons.1 (below.subset member)

/-- The second part is selected from itself, by way of the root. -/
theorem selects_in_order_bookGrove :
    bookGrove.Consistent ⟨0⟩ ∧ bookGrove.InTree ⟨0⟩ ⟨3⟩ ∧
      bookGrove.Selects ⟨3⟩ "/./*[2]/." [⟨3⟩] ∧ [(⟨3⟩ : NodeId)].Sublist (bookGrove.preorder ⟨0⟩) := by
  have inTree : bookGrove.InTree ⟨0⟩ ⟨3⟩ := ⟨1, .child (by decide) .root⟩
  have downward : Step.parent ∉ (Expression.read "/./*[2]/.".toList).steps := by decide
  rcases selects_in_order consistent_bookGrove inTree (by decide) downward with
    ⟨found, start, depth, selected, _, _, ordered, _⟩
  have equal : found = [⟨3⟩] := selected.2.symm.trans (by decide)
  rw [equal] at selected ordered
  exact ⟨consistent_bookGrove, inTree, selected, ordered⟩

end XmlGrove.Grove
