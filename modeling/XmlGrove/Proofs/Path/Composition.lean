import XmlGrove.Proofs.Grove.Comparison
import XmlGrove.Proofs.Grove.Kinship

/-!
# Paths compose

A path that is followed by a slash and a relative path is read as the steps of the one, followed by
those of the other. Other than steps with a position, a step from many nodes leads to what it leads
to from each of them.
-/

namespace XmlGrove

open Grammar

/-! ## Texts -/

namespace Text

theorem splitAtEach_append (separator : Char) (former latter : List Char) :
    splitAtEach separator (former ++ separator :: latter) =
      splitAtEach separator former ++ splitAtEach separator latter := by
  simp only [splitAtEach_eq_splitOn, List.splitOn_append_cons_self]

theorem length_trimStart_le (text : List Char) : (trimStart text).length ≤ text.length :=
  (List.dropWhile_suffix isBlank).length_le

theorem startsSolid_of_trimStart {text : List Char} (same : text.length ≤ (trimStart text).length) :
    trimStart text = text ∧ StartsSolid text := by
  have equal : trimStart text = text := (List.dropWhile_suffix isBlank).eq_of_length_le same
  refine ⟨equal, ?_⟩
  rw [← equal]
  exact startsSolid_dropWhile text

/-- A text that trimming leaves alone has no blank character at either end. -/
theorem solid_of_trim {text : List Char} (trimmed : trim text = text) :
    StartsSolid text ∧ StartsSolid text.reverse := by
  have inner := length_trimStart_le text
  have outer := length_trimStart_le (trimStart text).reverse
  have length := congrArg List.length trimmed
  rw [trim, List.length_reverse] at length
  rw [List.length_reverse] at outer
  rcases startsSolid_of_trimStart (show text.length ≤ _ by omega) with ⟨equal, starts⟩
  rw [equal] at length
  rcases startsSolid_of_trimStart (show text.reverse.length ≤ _ by rw [List.length_reverse]; omega)
    with ⟨_, ends⟩
  exact ⟨starts, ends⟩

theorem trim_append {former latter : List Char} (trimmed : trim former = former)
    (trimmedToo : trim latter = latter) (filled : former ≠ []) (filledToo : latter ≠ [])
    (between : List Char) : trim (former ++ (between ++ latter)) = former ++ (between ++ latter) := by
  rcases List.exists_cons_of_ne_nil filled with ⟨first, rest, rfl⟩
  rcases List.exists_cons_of_ne_nil (List.reverse_ne_nil_iff.2 filledToo) with ⟨last, others, ends⟩
  have starts := (solid_of_trim trimmed).1
  have stops := (solid_of_trim trimmedToo).2
  rw [ends] at stops
  apply trim_of_solid
  · exact startsOutside_cons_iff.2 (startsOutside_cons_iff.1 starts)
  · rw [List.reverse_append, List.reverse_append, ends]
    exact startsOutside_cons_iff.2 (startsOutside_cons_iff.1 stops)

end Text

/-! ## Expressions -/

namespace Path

variable {text former latter : List Char}

/-- A path that another one can follow: the root alone, or one with a segment that is not empty. -/
def Continuable (text : List Char) : Prop :=
  text = ['/'] ∨ ∃ segment ∈ Text.splitAtEach '/' text, segment ≠ []

instance : Decidable (Continuable text) :=
  inferInstanceAs (Decidable (_ ∨ ∃ segment ∈ _, segment ≠ []))

/-- The steps that the segments of a path are read as. For the root alone there is none. -/
def segmentSteps (text : List Char) : List Step :=
  ((Text.splitAtEach '/' text).filter (!·.isEmpty)).map readStep

theorem segmentSteps_append (former latter : List Char) :
    segmentSteps (former ++ '/' :: latter) = segmentSteps former ++ segmentSteps latter := by
  simp [segmentSteps, Text.splitAtEach_append]

theorem Continuable.ne_nil (continuable : Continuable text) : text ≠ [] := by
  intro equal
  subst equal
  rcases continuable with root | ⟨segment, member, filled⟩
  · cases root
  · rw [Text.splitAtEach, List.mem_singleton] at member
    exact filled member

theorem Continuable.append (continuable : Continuable latter)
    (relative : latter.head? ≠ some '/') : Continuable (former ++ '/' :: latter) := by
  rcases continuable with root | ⟨segment, member, filled⟩
  · rw [root] at relative
    exact absurd rfl relative
  · refine .inr ⟨segment, ?_, filled⟩
    rw [Text.splitAtEach_append]
    exact List.mem_append_right _ member

theorem continuable_of_relative (filled : text ≠ []) (relative : text.head? ≠ some '/') :
    Continuable text := by
  cases text with
  | nil => exact absurd rfl filled
  | cons first rest =>
      have different : first ≠ '/' := by
        simpa using relative
      right
      rw [Text.splitAtEach, if_neg different]
      cases Text.splitAtEach '/' rest <;> simp

theorem read_of_continuable (continuable : Continuable text) (trimmed : Text.trim text = text) :
    (Expression.read text).absolute = (text.head? == some '/') ∧
      (Expression.read text).steps ≠ [] ∧
      ((Expression.read text).steps = segmentSteps text ∨
        (Expression.read text).steps = .self :: segmentSteps text) := by
  rcases continuable with root | ⟨segment, member, filled⟩
  · subst root
    refine ⟨by decide, by decide, .inr (by decide)⟩
  · have longer : text ≠ ['/'] := by
      intro root
      subst root
      simp [Text.splitAtEach] at member
      exact filled member
    have listed : segment ∈ (Text.splitAtEach '/' text).filter (!·.isEmpty) := by
      simp [member, filled]
    simp only [Expression.read, trimmed, if_neg longer, segmentSteps, ne_eq, List.map_eq_nil_iff]
    exact ⟨trivial, List.ne_nil_of_mem listed, .inl trivial⟩

/-- Tell whether a step picks a node by its position. -/
def Step.hasPosition : Step → Bool
  | .filtered _ (.position _) => true
  | _ => false

end Path

/-! ## Evaluation -/

namespace Grove

open XmlGrove.Path

variable {grove : Grove} {root context id : NodeId} {ids : List NodeId} {text : List Char}

theorem takeStep_flatMap {step : Step} (free : step.hasPosition = false) (ids : List NodeId) :
    grove.takeStep ids step = ids.flatMap fun id => grove.takeStep [id] step := by
  cases step with
  | children test => simp [takeStep]
  | filtered test predicate =>
      cases predicate with
      | position number => cases free
      | attributeEquals name value => simp [takeStep, selectBy, List.filter_flatMap]
      | hasAttribute name => simp [takeStep, selectBy, List.filter_flatMap]
      | textEquals value => simp [takeStep, selectBy, List.filter_flatMap]
      | unsupported expression => simp [takeStep, selectBy]
  | self => simp [takeStep]
  | parent =>
      simp only [takeStep]
      rw [← List.filterMap_flatMap, List.flatMap_singleton']
  | nowhere => simp [takeStep]

/-- Where no step counts nodes, steps from many nodes lead to what they lead to from each of them. -/
theorem foldl_takeStep_flatMap {steps : List Step}
    (free : ∀ step ∈ steps, step.hasPosition = false) (ids : List NodeId) :
    steps.foldl grove.takeStep ids =
      ids.flatMap fun id => steps.foldl grove.takeStep [id] := by
  induction steps generalizing ids with
  | nil => simp
  | cons step rest induction =>
      have others : ∀ later ∈ rest, later.hasPosition = false :=
        fun later member => free later (List.mem_cons_of_mem step member)
      rw [List.foldl_cons, induction others, takeStep_flatMap (free step List.mem_cons_self),
        List.flatMap_assoc]
      apply List.flatMap_congr
      intro id _
      rw [List.foldl_cons, ← induction others]

/-- Where a path starts: at the root if it begins with a slash, at the context node otherwise. -/
def start (grove : Grove) (text : List Char) (context : NodeId) : NodeId :=
  if text.head? = some '/' then grove.root context else context

theorem select_of_continuable (continuable : Continuable text) (trimmed : Text.trim text = text) :
    grove.select (.read text) context =
      (segmentSteps text).foldl grove.takeStep [grove.start text context] := by
  rcases read_of_continuable continuable trimmed with ⟨absolute, filled, steps⟩
  have origin : grove.origin (.read text) context = grove.start text context := by
    simp [Grove.origin, absolute, start]
  rw [select, if_neg (by simpa using filled), origin]
  rcases steps with equal | equal
  · rw [equal]
  · rw [equal, List.foldl_cons, takeStep]

/-- What a relative path selects from the nodes that another path selects is what both together
select. -/
theorem query_append {former latter : String} (continuable : Continuable former.toList)
    (trimmed : Text.trim former.toList = former.toList)
    (trimmedToo : Text.trim latter.toList = latter.toList) (filled : latter ≠ "")
    (relative : latter.toList.head? ≠ some '/')
    (free : ∀ step ∈ (Expression.read latter.toList).steps, step.hasPosition = false) :
    grove.query context (former ++ "/" ++ latter) =
      (grove.query context former).flatMap fun id => grove.query id latter := by
  have present : latter.toList ≠ [] := by
    simpa using filled
  have follows := continuable_of_relative present relative
  have freeSegments : ∀ step ∈ segmentSteps latter.toList, step.hasPosition = false := by
    intro step member
    apply free step
    rcases (read_of_continuable follows trimmedToo).2.2 with equal | equal
    · rw [equal]
      exact member
    · rw [equal]
      exact List.mem_cons_of_mem _ member
  have joined : (former ++ "/" ++ latter).toList = former.toList ++ '/' :: latter.toList := by
    simp [String.toList_append]
  have trimmedBoth := Text.trim_append trimmed trimmedToo continuable.ne_nil present ['/']
  rw [List.singleton_append] at trimmedBoth
  have sameStart : grove.start (former.toList ++ '/' :: latter.toList) context =
      grove.start former.toList context := by
    rcases List.exists_cons_of_ne_nil continuable.ne_nil with ⟨first, rest, equal⟩
    simp [start, equal]
  have each : ∀ id, grove.query id latter =
      (segmentSteps latter.toList).foldl grove.takeStep [id] := by
    intro id
    rw [query, select_of_continuable follows trimmedToo, start, if_neg relative]
  rw [query, joined, select_of_continuable (follows.append relative) trimmedBoth, sameStart,
    segmentSteps_append, List.foldl_append, foldl_takeStep_flatMap freeSegments,
    query, select_of_continuable continuable trimmed]
  simp only [each]

/-! ## Trees -/

/-- A query of a path succeeds and selects nodes. -/
def Selects (grove : Grove) (context : NodeId) (text : String) (selected : List NodeId) : Prop :=
  grove.needsChildren [grove.origin (.read text.toList) context]
    (Expression.read text.toList).steps = false ∧ grove.query context text = selected

/-- A tag node in the tree below a root. -/
def TagIn (grove : Grove) (root id : NodeId) : Prop := grove.InTree root id ∧ grove.isTag id = true

section

variable (consistent : grove.Consistent root)

include consistent

theorem Consistent.tagIn_parent (inTree : grove.InTree root id) {parent : NodeId}
    (linked : grove.parent? id = some parent) : grove.TagIn root parent := by
  have above := consistent.inTree_parent inTree linked
  rcases mem_children_of_parent? consistent.toRooted above linked with ⟨listed, _⟩
  exact ⟨above, isTag_of_childList? listed (not_isAnchor_of_parent? linked)⟩

theorem Level.tagIn_root {level : Nat} (leveled : grove.Level root level id)
    (tag : grove.isTag id = true) : grove.TagIn root root := by
  induction leveled with
  | root => exact ⟨⟨0, .root⟩, tag⟩
  | child linked above induction =>
      exact induction (consistent.tagIn_parent ⟨_, above.child linked⟩ linked).2

theorem Consistent.tagIn_testedChildren (tags : ∀ id ∈ ids, grove.TagIn root id)
    (test : ChildTest) : ∀ id ∈ ids.flatMap (grove.testedChildren test), grove.TagIn root id := by
  intro id member
  rcases List.mem_flatMap.1 member with ⟨parent, listed, child⟩
  have among : id ∈ grove.childTags parent := by
    cases test with
    | any => exact child
    | named name => exact List.mem_of_mem_filter child
  rcases List.mem_filter.1 among with ⟨below, tag⟩
  exact ⟨consistent.inTree_of_lists (tags parent listed).1 below, tag⟩

theorem Consistent.tagIn_takeStep (tags : ∀ id ∈ ids, grove.TagIn root id) (step : Step) :
    ∀ id ∈ grove.takeStep ids step, grove.TagIn root id := by
  intro id member
  cases step with
  | children test => exact consistent.tagIn_testedChildren tags test id member
  | filtered test predicate =>
      apply consistent.tagIn_testedChildren tags test id
      cases predicate with
      | attributeEquals name value => exact List.mem_of_mem_filter member
      | hasAttribute name => exact List.mem_of_mem_filter member
      | textEquals value => exact List.mem_of_mem_filter member
      | unsupported expression => cases member
      | position number =>
          simp only [takeStep, selectBy] at member
          split at member
          · exact List.mem_of_getElem? (Option.mem_toList.1 member)
          · cases member
  | self => exact tags id member
  | parent =>
      rcases List.mem_filterMap.1 member with ⟨child, listed, linked⟩
      exact consistent.tagIn_parent (tags child listed).1 linked
  | nowhere => cases member

theorem Consistent.tagIn_listedBy (tags : ∀ id ∈ ids, grove.TagIn root id) (step : Step) :
    ∀ id ∈ grove.listedBy ids step, grove.TagIn root id := by
  intro id member
  cases step with
  | children test => exact tags id member
  | filtered test predicate =>
      cases predicate with
      | textEquals value =>
          rcases List.mem_append.1 member with present | tested
          · exact tags id present
          · exact consistent.tagIn_testedChildren tags test id tested
      | _ => exact tags id member
  | self | parent | nowhere => cases member

theorem Consistent.needsChildren_eq_false (tags : ∀ id ∈ ids, grove.TagIn root id)
    (steps : List Step) : grove.needsChildren ids steps = false := by
  induction steps generalizing ids with
  | nil => rfl
  | cons step rest induction =>
      have listed : ((grove.listedBy ids step).any fun id => (grove.childList? id).isNone) =
          false := by
        apply List.any_eq_false.2
        intro id member
        rcases consistent.tagIn_listedBy tags step id member with ⟨inTree, tag⟩
        rcases Option.isSome_iff_exists.1 tag with ⟨label, labelled⟩
        rcases (consistent.complete id inTree).exists_childList? labelled with ⟨children, present⟩
        simp [present]
      rw [needsChildren, listed, Bool.false_or]
      exact induction (consistent.tagIn_takeStep tags step)

theorem Consistent.tagIn_foldl (tags : ∀ id ∈ ids, grove.TagIn root id) (steps : List Step) :
    ∀ id ∈ steps.foldl grove.takeStep ids, grove.TagIn root id := by
  induction steps generalizing ids with
  | nil => exact tags
  | cons step rest induction => exact induction (consistent.tagIn_takeStep tags step)

/-- From a tag node of a tree every query succeeds, and what it selects are tag nodes of the tree. -/
theorem Consistent.selects_query (context : grove.TagIn root id) (text : String) :
    grove.Selects id text (grove.query id text) ∧
      ∀ found ∈ grove.query id text, grove.TagIn root found := by
  rcases context.1 with ⟨level, leveled⟩
  have origin : ∀ other ∈ [grove.origin (.read text.toList) id], grove.TagIn root other := by
    intro other member
    rw [List.mem_singleton.1 member, Grove.origin]
    split
    · rw [root_eq_of_inTree consistent.toRooted context.1]
      exact leveled.tagIn_root consistent context.2
    · exact context
  refine ⟨⟨consistent.needsChildren_eq_false origin _, rfl⟩, ?_⟩
  intro found member
  rw [query, select] at member
  split at member
  · cases member
  · exact consistent.tagIn_foldl origin _ found member

end

/-- In a tree whose links and lists agree, queries compose: a path that goes on selects, in order
and repeatedly, what the rest of it selects from each node that its beginning selects. -/
theorem selects_append {former latter : String} (consistent : grove.Consistent root)
    (inTree : grove.InTree root context) (tag : grove.isTag context = true)
    (continuable : Continuable former.toList)
    (trimmed : Text.trim former.toList = former.toList)
    (trimmedToo : Text.trim latter.toList = latter.toList) (filled : latter ≠ "")
    (relative : latter.toList.head? ≠ some '/')
    (free : ∀ step ∈ (Expression.read latter.toList).steps, step.hasPosition = false) :
    ∃ found, grove.Selects context former found ∧
      (∀ id ∈ found, grove.Selects id latter (grove.query id latter)) ∧
      grove.Selects context (former ++ "/" ++ latter)
        (found.flatMap fun id => grove.query id latter) := by
  have tagIn : grove.TagIn root context := ⟨inTree, tag⟩
  rcases consistent.selects_query tagIn former with ⟨selected, tags⟩
  refine ⟨_, selected, ?_, ?_⟩
  · intro id member
    exact (consistent.selects_query (tags id member) latter).1
  · rw [← query_append continuable trimmed trimmedToo filled relative free]
    exact (consistent.selects_query tagIn _).1

theorem selects_append_bookGrove :
    bookGrove.Selects ⟨0⟩ "part.a" [⟨1⟩, ⟨3⟩] ∧
      bookGrove.Selects ⟨0⟩ "part.a/x-y:z/.." [⟨3⟩] := by
  have inTree : bookGrove.InTree ⟨0⟩ ⟨0⟩ := ⟨0, .root⟩
  rcases @selects_append bookGrove ⟨0⟩ ⟨0⟩ "part.a" "x-y:z/.." consistent_bookGrove inTree
    (by decide) (by decide) (by decide) (by decide) (by decide) (by decide) (by decide) with
    ⟨found, former, _, both⟩
  have first : bookGrove.query ⟨0⟩ "part.a" = [⟨1⟩, ⟨3⟩] := by decide
  have equal : found = [⟨1⟩, ⟨3⟩] := former.2.symm.trans first
  have further : found.flatMap (fun id => bookGrove.query id "x-y:z/..") = [⟨3⟩] := by
    rw [equal]
    decide
  rw [further] at both
  exact ⟨equal ▸ former, both⟩

end Grove

end XmlGrove
