import XmlGrove.Proofs.Css.Chain
import XmlGrove.Proofs.Grove.Traversal

/-!
# What selectors select

A chain selects a node if there is a node for each of its compounds, from top to bottom and as its
combinators say, with the selected node at the end. Matching a chain from its end finds such nodes
wherever there are some.
-/

namespace XmlGrove

/-! ## Words -/

namespace Text

/-- A word of a text is a run of other than blank characters that does not go on. -/
def IsWord (word text : List Char) : Prop :=
  word ≠ [] ∧ (∀ character ∈ word, isBlank character = false) ∧
    ∃ before after, text = before ++ (word ++ after) ∧
      (∀ character ∈ before.getLast?, isBlank character = true) ∧
      ∀ character ∈ after.head?, isBlank character = true

variable {word former rest : List Char} {blank : Char}

theorem eq_nil_of_blank_last (solid : ∀ character ∈ former, isBlank character = false)
    (ends : ∀ character ∈ former.getLast?, isBlank character = true) : former = [] := by
  rcases List.eq_nil_or_concat former with rfl | ⟨others, last, rfl⟩
  · rfl
  · have blank := ends last (by simp)
    rw [solid last (by simp)] at blank
    cases blank

theorem eq_nil_of_blank_first (rest : List Char)
    (solid : ∀ character ∈ former, isBlank character = false)
    (starts : ∀ character ∈ (former ++ rest).head?, isBlank character = true) : former = [] := by
  cases former with
  | nil => rfl
  | cons first others =>
      have blank := starts first (by simp)
      rw [solid first List.mem_cons_self] at blank
      cases blank

theorem isWord_of_solid (solid : ∀ character ∈ former, isBlank character = false) :
    IsWord word former ↔ former ≠ [] ∧ word = former := by
  constructor
  · intro found
    rcases found with ⟨filled, plain, before, after, rfl, ends, starts⟩
    have front : before = [] := eq_nil_of_blank_last (fun character member =>
      solid character (List.mem_append_left _ member)) ends
    have back : after = [] := by
      apply eq_nil_of_blank_first []
      · intro character member
        exact solid character (List.mem_append_right _ (List.mem_append_right _ member))
      · simpa using starts
    simp [front, back, filled]
  · intro same
    rcases same with ⟨filled, rfl⟩
    exact ⟨filled, solid, [], [], by simp, by simp, by simp⟩

theorem isWord_append_blank (solid : ∀ character ∈ former, isBlank character = false)
    (separates : isBlank blank = true) :
    IsWord word (former ++ blank :: rest) ↔ former ≠ [] ∧ word = former ∨ IsWord word rest := by
  constructor
  · intro found
    rcases found with ⟨filled, plain, before, after, equal, ends, starts⟩
    rcases List.append_eq_append_iff.1 equal with ⟨gap, rfl, behind⟩ | ⟨gap, rfl, inside⟩
    · -- The word begins behind the blank character.
      cases gap with
      | nil =>
          rcases List.exists_cons_of_ne_nil filled with ⟨first, others, rfl⟩
          rw [List.nil_append, List.cons_append, List.cons.injEq] at behind
          have visible := plain first List.mem_cons_self
          rw [← behind.1, separates] at visible
          cases visible
      | cons first others =>
          rw [List.cons_append, List.cons.injEq] at behind
          refine .inr ⟨filled, plain, others, after, behind.2, ?_, starts⟩
          intro last member
          apply ends last
          simp_all [List.getLast?_append, List.getLast?_cons]
    · -- The word begins in front of the blank character, hence at the very front.
      have front : before = [] := eq_nil_of_blank_last (fun character member =>
        solid character (List.mem_append_left _ member)) ends
      subst front
      rw [List.nil_append] at solid
      rw [List.nil_append]
      left
      rcases List.append_eq_append_iff.1 inside with ⟨more, same, others⟩ | ⟨more, same, others⟩
      · subst same others
        have last : more = [] := eq_nil_of_blank_first (blank :: rest) (fun character member =>
          solid character (List.mem_append_right _ member)) starts
        simp [last, filled]
      · cases more with
        | nil => simp_all
        | cons first further =>
            rw [List.cons_append, List.cons.injEq] at others
            have visible := plain first (by simp [same])
            rw [← others.1, separates] at visible
            cases visible
  · intro found
    rcases found with ⟨filled, rfl⟩ | ⟨filled, plain, before, after, rfl, ends, starts⟩
    · exact ⟨filled, solid, [], blank :: rest, by simp, by simp, by simpa using separates⟩
    · refine ⟨filled, plain, former ++ blank :: before, after, by simp, ?_, starts⟩
      intro last member
      rcases List.eq_nil_or_concat before with rfl | ⟨others, final, rfl⟩
      · simp_all
      · have moved : former ++ blank :: others.concat final =
            (former ++ blank :: others) ++ [final] := by
          simp
        rw [moved, List.getLast?_concat] at member
        apply ends last
        simpa using member

theorem mem_collectFields_iff {current text : List Char}
    (solid : ∀ character ∈ current, isBlank character = false) :
    word ∈ collectFields current text ↔ IsWord word (current.reverse ++ text) := by
  induction text generalizing current with
  | nil =>
      have plain : ∀ character ∈ current.reverse, isBlank character = false := by
        simpa using solid
      rw [List.append_nil, isWord_of_solid plain, collectFields]
      split <;> simp_all
  | cons first rest induction =>
      rw [collectFields]
      split
      · rename_i separates
        have plain : ∀ character ∈ current.reverse, isBlank character = false := by
          simpa using solid
        rw [isWord_append_blank plain separates]
        have later := @induction [] (by simp)
        split <;> simp_all
      · rename_i solidFirst
        rw [induction (by simpa [solidFirst] using solid)]
        simp

theorem mem_fields_iff {text : List Char} : word ∈ fields text ↔ IsWord word text :=
  mem_collectFields_iff (by simp)

end Text

/-! ## Compounds -/

namespace Grove

open Css

variable {grove : Grove} {root context id : NodeId}

/-- An attribute of a node has a word in its value. -/
def HasWord (grove : Grove) (id : NodeId) (name word : String) : Prop :=
  ∃ value, grove.attribute? id name = some value ∧ Text.IsWord word.toList value.toList

def Fulfils (grove : Grove) (id : NodeId) : Condition → Prop
  | .hash value => grove.attribute? id "id" = some value
  | .className name => grove.HasWord id "class" name
  | .present name => ∃ value, grove.attribute? id name = some value
  | .equals name value => grove.attribute? id name = some value
  | .includes name value => grove.HasWord id name value

/-- A node is of the type that a compound names, and it fulfils all its conditions. -/
def Meets (grove : Grove) (id : NodeId) : Compound → Prop
  | .type none => grove.isTag id = true
  | .type (some name) => ∃ label attributes, grove.tag? id = some (label, attributes) ∧
      (name = "*" ∨ label.text = name)
  | .narrowed base condition => grove.Meets id base ∧ grove.Fulfils id condition

theorem mem_attributeWords_iff {name word : String} :
    word ∈ grove.attributeWords id name ↔ grove.HasWord id name word := by
  have written : word ∈ grove.attributeWords id name ↔
      word.toList ∈ Text.fields ((grove.attribute? id name).getD "").toList := by
    rw [attributeWords, List.mem_map]
    constructor
    · intro found
      rcases found with ⟨field, listed, rfl⟩
      simpa using listed
    · intro listed
      exact ⟨_, listed, String.ofList_toList⟩
  rw [written, HasWord]
  cases present : grove.attribute? id name with
  | none => simp [Text.fields, Text.collectFields]
  | some value => simp [Text.mem_fields_iff]

theorem isMatchedBy_compound_iff (compound : Compound) :
    grove.isMatchedBy compound.selector id = true ↔ grove.Meets id compound := by
  induction compound with
  | type name =>
      cases name with
      | none => rfl
      | some name =>
          rw [Compound.selector, isMatchedBy, hasName, isTag, Meets]
          by_cases universal : name = "*"
          · simp [universal, Option.isSome_iff_exists]
          · cases grove.tag? id <;> simp [universal, Prod.ext_iff]
  | narrowed base condition induction =>
      cases condition with
      | hash value =>
          simp [Compound.selector, Condition.narrow, isMatchedBy, Meets, Fulfils, induction]
      | className name =>
          simp [Compound.selector, Condition.narrow, isMatchedBy, Meets, Fulfils, induction,
            ← mem_attributeWords_iff]
      | present name =>
          simp [Compound.selector, Condition.narrow, isMatchedBy, Meets, Fulfils, induction,
            passesComparison, Option.isSome_iff_exists]
      | equals name value =>
          simp [Compound.selector, Condition.narrow, isMatchedBy, Meets, Fulfils, induction,
            passesComparison]
      | includes name value =>
          simp [Compound.selector, Condition.narrow, isMatchedBy, Meets, Fulfils, induction,
            passesComparison, ← mem_attributeWords_iff]

theorem Meets.isTag {compound : Compound} (meets : grove.Meets id compound) :
    grove.isTag id = true := by
  induction compound with
  | type name =>
      cases name with
      | none => exact meets
      | some name =>
          rcases meets with ⟨label, attributes, tag, _⟩
          rw [Grove.isTag, tag]
          rfl
  | narrowed base condition induction => exact induction meets.1

/-! ## Chains -/

/-- How a combinator relates a node to a lower one. -/
def Joins (grove : Grove) (upper lower : NodeId) : Combinator → Prop
  | .child => grove.parent? lower = some upper
  | .descendant => upper ∈ grove.ancestors lower

/-- Nodes from top to bottom, one for each compound of a chain, that are related as the chain's
combinators say. -/
structure Follows (grove : Grove) (nodes : List NodeId) (chain : Chain) : Prop where
  count : nodes.length = chain.compounds.length
  meets : ∀ (position : Nat) (id : NodeId) (compound : Compound), nodes[position]? = some id →
    chain.compounds[position]? = some compound → grove.Meets id compound
  joins : ∀ (position : Nat) (upper lower : NodeId) (combinator : Combinator),
    nodes[position]? = some upper → nodes[position + 1]? = some lower →
    chain.combinators[position]? = some combinator → grove.Joins upper lower combinator

/-- A chain ends at a node: nodes can be found for all its compounds, that one for the last. -/
def EndsAt (grove : Grove) (chain : Chain) (id : NodeId) : Prop :=
  ∃ nodes, grove.Follows nodes chain ∧ nodes.getLast? = some id

theorem endsAt_single_iff (compound : Compound) :
    grove.EndsAt (.single compound) id ↔ grove.Meets id compound := by
  constructor
  · intro found
    rcases found with ⟨nodes, follows, last⟩
    rcases List.length_eq_one_iff.1 follows.count with ⟨only, rfl⟩
    cases last
    exact follows.meets 0 only compound rfl rfl
  · intro meets
    refine ⟨[id], ⟨rfl, ?_, ?_⟩, rfl⟩
    · intro position other another found listed
      cases position with
      | zero =>
          cases found
          cases listed
          exact meets
      | succ position => cases found
    · intro position upper lower combinator found next listed
      cases listed

/-- Nodes that a chain can be found for go on with a node that the next compound matches, provided
that the last of them is related to it. -/
theorem follows_concat_iff {former : List NodeId} {left : Chain} {combinator : Combinator}
    {right : Compound} : grove.Follows (former ++ [id]) (.joined left combinator right) ↔
      grove.Follows former left ∧ grove.Meets id right ∧
        ∀ upper, former.getLast? = some upper → grove.Joins upper id combinator := by
  have chained := left.length_compounds
  constructor
  · intro follows
    have count : former.length = left.compounds.length := by
      simpa [Chain.compounds] using follows.count
    refine ⟨⟨count, ?_, ?_⟩, ?_, ?_⟩
    · intro position other compound found listed
      have before := (List.getElem?_eq_some_iff.1 found).1
      apply follows.meets position other compound
      · rw [List.getElem?_append_left before, found]
      · rw [Chain.compounds, List.getElem?_append_left (by omega), listed]
    · intro position upper lower relation found next listed
      have before := (List.getElem?_eq_some_iff.1 next).1
      apply follows.joins position upper lower relation
      · rw [List.getElem?_append_left (by omega), found]
      · rw [List.getElem?_append_left before, next]
      · rw [Chain.combinators, List.getElem?_append_left (by omega), listed]
    · apply follows.meets former.length id right
      · simp
      · simp [Chain.compounds, count]
    · intro upper last
      rw [List.getLast?_eq_getElem?] at last
      have before := (List.getElem?_eq_some_iff.1 last).1
      apply follows.joins (former.length - 1) upper id combinator
      · rw [List.getElem?_append_left before, last]
      · rw [Nat.sub_add_cancel (by omega)]
        simp
      · have position : former.length - 1 = left.combinators.length := by
          omega
        simp [Chain.combinators, position]
  · intro parts
    rcases parts with ⟨follows, meets, joins⟩
    have count := follows.count
    refine ⟨by simp [Chain.compounds, count], ?_, ?_⟩
    · intro position other compound found listed
      by_cases before : position < former.length
      · rw [List.getElem?_append_left before] at found
        rw [Chain.compounds, List.getElem?_append_left (by omega)] at listed
        exact follows.meets position other compound found listed
      · have within := (List.getElem?_eq_some_iff.1 found).1
        rw [List.length_append, List.length_singleton] at within
        have last : position = former.length := by
          omega
        subst last
        simp at found
        simp [Chain.compounds, count] at listed
        rw [← found, ← listed]
        exact meets
    · intro position upper lower relation found next listed
      by_cases before : position + 1 < former.length
      · rw [List.getElem?_append_left (by omega)] at found
        rw [List.getElem?_append_left before] at next
        rw [Chain.combinators, List.getElem?_append_left (by omega)] at listed
        exact follows.joins position upper lower relation found next listed
      · have within := (List.getElem?_eq_some_iff.1 next).1
        rw [List.length_append, List.length_singleton] at within
        have last : position + 1 = former.length := by
          omega
        have final : position = left.combinators.length := by
          omega
        rw [last] at next
        rw [List.getElem?_append_left (by omega)] at found
        simp at next
        simp [Chain.combinators, final] at listed
        rw [← next, ← listed]
        apply joins
        rw [List.getLast?_eq_getElem?, ← last, Nat.add_sub_cancel, found]

theorem endsAt_joined_iff (left : Chain) (combinator : Combinator) (right : Compound) :
    grove.EndsAt (.joined left combinator right) id ↔
      grove.Meets id right ∧ ∃ upper, grove.Joins upper id combinator ∧ grove.EndsAt left upper := by
  constructor
  · intro found
    rcases found with ⟨nodes, follows, last⟩
    rcases List.eq_nil_or_concat nodes with rfl | ⟨former, final, rfl⟩
    · cases last
    · rw [List.concat_eq_append] at follows last
      rw [List.getLast?_concat, Option.some.injEq] at last
      subst last
      rcases follows_concat_iff.1 follows with ⟨before, meets, joins⟩
      have filled : former ≠ [] := by
        intro none
        have count := before.count
        rw [none, left.length_compounds] at count
        cases count
      have present := List.getLast?_eq_some_getLast filled
      exact ⟨meets, _, joins _ present, former, before, present⟩
  · intro found
    rcases found with ⟨meets, upper, joined, former, before, last⟩
    refine ⟨former ++ [id], follows_concat_iff.2 ⟨before, meets, ?_⟩, List.getLast?_concat⟩
    intro other present
    rw [last, Option.some.injEq] at present
    rw [← present]
    exact joined

/-- Matching from the end, one combinator after the other, misses no nodes that a chain can be
found for. -/
theorem isMatchedBy_chain_iff (chain : Chain) :
    grove.isMatchedBy chain.selector id = true ↔ grove.EndsAt chain id := by
  induction chain generalizing id with
  | single compound =>
      rw [endsAt_single_iff]
      exact isMatchedBy_compound_iff compound
  | joined left combinator right induction =>
      rw [endsAt_joined_iff, Chain.selector, isMatchedBy, Bool.and_eq_true, isMatchedBy_compound_iff]
      cases combinator with
      | child =>
        cases above : grove.parent? id <;> simp [Combinator.symbol, Joins, induction, above]
      | descendant => simp [Combinator.symbol, Joins, induction]

/-! ## Groups of selectors -/

theorem isTag_of_endsAt {chain : Chain} (ends : grove.EndsAt chain id) :
    grove.isTag id = true := by
  cases chain with
  | single compound => exact ((endsAt_single_iff compound).1 ends).isTag
  | joined left combinator right =>
      exact ((endsAt_joined_iff left combinator right).1 ends).1.isTag

/-- Nothing is selected, and the reason is a construct that is not supported. -/
def Refuses (grove : Grove) (reader : GroupReader) (context : NodeId) (expression : String) :
    Prop :=
  ∃ feature,
    grove.cssSelect reader context expression = .error (.unsupportedSelector feature expression)

section

variable {reader : GroupReader} {expression : String} {members : List Member}

theorem compile_eq (read : reader expression = .ok members) :
    compile reader expression = match members.findSome? Member.unsupported? with
      | some feature => .error (.unsupportedSelector feature expression)
      | none => .ok (members.map (·.selector)) := by
  rw [compile, read]
  rfl

theorem refuses_iff (read : reader expression = .ok members) :
    grove.Refuses reader context expression ↔
      ∃ member ∈ members, member.Departs IsForeign := by
  have compiled : grove.Refuses reader context expression ↔
      (members.findSome? Member.unsupported?).isSome = true := by
    rw [Refuses, cssSelect, compile_eq read]
    cases members.findSome? Member.unsupported? with
    | none => simp [Except.map]
    | some feature => simp [Except.map]
  rw [compiled, List.findSome?_isSome_iff]
  simp only [Member.isSome_unsupported?_iff]

theorem cssSelect_chains {chains : List Chain}
    (read : reader expression = .ok (chains.map fun chain => ⟨chain.selector, false⟩)) :
    grove.cssSelect reader context expression =
      .ok ((grove.descendants context).filter fun id =>
        grove.isTag id && chains.any fun chain => grove.isMatchedBy chain.selector id) := by
  have supported : (chains.map fun chain => (⟨chain.selector, false⟩ : Member)).findSome?
      Member.unsupported? = none := by
    apply List.findSome?_eq_none_iff.2
    intro member listed
    rcases List.mem_map.1 listed with ⟨chain, _, rfl⟩
    exact chain.unsupported?_selector
  rw [cssSelect, compile_eq read, supported]
  simp [Except.map, List.any_map, Function.comp_def]

end

theorem isMatchedBy_withoutFlags : ∀ (selector : Selector) (id : NodeId),
    grove.isMatchedBy selector.withoutFlags id = grove.isMatchedBy selector id
  | .hash base _, id | .className base _, id => by
      simp only [Selector.withoutFlags, isMatchedBy, isMatchedBy_withoutFlags base]
  | .attribute base space name comparison, id => by
      have same : grove.passesComparison id name comparison.withoutFlag =
          grove.passesComparison id name comparison := by
        rcases comparison with _ | ⟨symbol, value, flag⟩
        · rfl
        · rw [Comparison.withoutFlag]
          unfold passesComparison
          split <;> simp_all
      simp only [Selector.withoutFlags, isMatchedBy, isMatchedBy_withoutFlags base, same]
  | .combined left combinator right, id => by
      have above : grove.isMatchedBy left.withoutFlags = grove.isMatchedBy left := by
        funext upper
        exact isMatchedBy_withoutFlags left upper
      simp only [Selector.withoutFlags, isMatchedBy, isMatchedBy_withoutFlags right, above]
  | .element .., _ | .pseudo .., _ | .function .., _ | .negation .., _ | .matching .., _
  | .unweighted .., _ | .relation .., _ => rfl

/-- What a group selects is what it selects when its flags are left out. -/
theorem cssSelect_withoutFlags (reader : GroupReader) (expression : String) :
    grove.cssSelect (fun text => (reader text).map (List.map Member.withoutFlags)) context
        expression =
      grove.cssSelect reader context expression := by
  have checked : Member.unsupported? ∘ Member.withoutFlags = Member.unsupported? := by
    funext member
    simp [Member.unsupported?, Member.withoutFlags, Selector.unsupported?_withoutFlags]
  cases read : reader expression with
  | error fault =>
      rw [cssSelect, cssSelect, compile, compile, read]
      rfl
  | ok members =>
      have unflagged : (reader expression).map (List.map Member.withoutFlags) =
          .ok (members.map Member.withoutFlags) := by
        rw [read]
        rfl
      rw [cssSelect, cssSelect, compile_eq read, compile_eq unflagged, List.findSome?_map, checked]
      cases members.findSome? Member.unsupported? with
      | none =>
          simp [Except.map, Function.comp_def, Member.withoutFlags, isMatchedBy_withoutFlags]
      | some feature => rfl

/-- A group of chains selects those descendants at which one of the chains ends, each of them once
and in document order. A group that holds another construct anywhere is refused, flags of
comparisons excepted: what holds these is not refused for it. Where combinators nest to the left
there is nothing else that a group can hold. -/
theorem cssSelect_spec (consistent : grove.Consistent root) (inTree : grove.InTree root context)
    (reader : GroupReader) {expression : String} {members : List Member}
    (read : reader expression = .ok members) :
    (∀ member ∈ members, member.selector.isLeftNested = true →
      member.Departs IsForeign ∨ member.selector.Holds IsFlagged ∨
        ∃ chain : Chain, member = ⟨chain.selector, false⟩) ∧
    (grove.Refuses reader context expression ↔ ∃ member ∈ members, member.Departs IsForeign) ∧
    ∀ chains : List Chain, members = chains.map (fun chain => ⟨chain.selector, false⟩) →
      ∃ selected, grove.cssSelect reader context expression = .ok selected ∧ selected.Nodup ∧
        selected.Sublist (grove.descendants context) ∧
        ∀ id, id ∈ selected ↔
          context ∈ grove.ancestors id ∧ ∃ chain ∈ chains, grove.EndsAt chain id := by
  refine ⟨fun _ _ nested => Member.departs_or_chain nested, refuses_iff read, ?_⟩
  intro chains equal
  subst equal
  have distinct := (List.nodup_cons.1 (consistent.nodup_preorder inTree)).2
  refine ⟨_, cssSelect_chains read, distinct.filter _, List.filter_sublist, ?_⟩
  intro id
  rw [List.mem_filter, consistent.mem_descendants_iff inTree, Bool.and_eq_true, List.any_eq_true]
  apply and_congr_right
  intro _
  constructor
  · intro passed
    rcases passed.2 with ⟨chain, listed, matched⟩
    exact ⟨chain, listed, (isMatchedBy_chain_iff chain).1 matched⟩
  · intro selected
    rcases selected with ⟨chain, listed, ends⟩
    exact ⟨isTag_of_endsAt ends, chain, listed, (isMatchedBy_chain_iff chain).2 ends⟩

/-- `* > * *` -/
def nestedChain : Chain :=
  .joined (.joined (.single (.type none)) .child (.type none)) .descendant (.type none)

theorem cssSelect_spec_bookGrove :
    bookGrove.Consistent ⟨0⟩ ∧ bookGrove.InTree ⟨0⟩ ⟨0⟩ ∧
      ∃ selected, ⟨5⟩ ∈ selected ∧
        bookGrove.cssSelect (fun _ => .ok [⟨nestedChain.selector, false⟩]) ⟨0⟩ "* > * *" =
          .ok selected := by
  have inTree : bookGrove.InTree ⟨0⟩ ⟨0⟩ := ⟨0, .root⟩
  rcases (cssSelect_spec consistent_bookGrove inTree
      (fun _ => .ok [⟨nestedChain.selector, false⟩]) rfl).2.2 [nestedChain] rfl with
    ⟨selected, found, _, _, member⟩
  refine ⟨consistent_bookGrove, inTree, selected, ?_, found⟩
  refine (member ⟨5⟩).2 ⟨by decide, _, List.mem_singleton_self _, ?_⟩
  rw [← isMatchedBy_chain_iff]
  decide

/-- A flag of a comparison is none of the supported constructs, and yet it is not refused. -/
theorem not_refuses_of_flagged :
    ¬ ∀ (grove : Grove) (root context : NodeId) (reader : GroupReader) (expression : String)
      (members : List Member), grove.Consistent root → grove.InTree root context →
      reader expression = .ok members →
      (∃ member ∈ members, member.Departs IsForeign ∨ member.selector.Holds IsFlagged) →
      grove.Refuses reader context expression := by
  intro claimed
  have refused := claimed bookGrove ⟨0⟩ ⟨0⟩
    (fun _ => .ok [⟨.attribute (.element none (some "a")) none "n" (.operator "=" "X" (some "i")),
      false⟩])
    "a[n=X i]" _ consistent_bookGrove ⟨0, .root⟩ rfl
    ⟨_, List.mem_singleton_self _, .inr (.here (.test _ _ _ _ _ _))⟩
  rcases (refuses_iff rfl).1 refused with ⟨member, listed, departs⟩
  rw [List.mem_singleton.1 listed, ← Member.isSome_unsupported?_iff] at departs
  cases departs

end Grove

end XmlGrove
