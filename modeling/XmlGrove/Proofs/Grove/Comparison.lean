import XmlGrove.Grove.Comparison
import XmlGrove.Path.Evaluation
import XmlGrove.Proofs.Grove.Operation
import XmlGrove.Proofs.Grove.Walks
import XmlGrove.Proofs.RoundTrip.Comparison

/-!
# The first difference between two trees

Two trees are compared by a loop over the pairs of nodes that are pending. It finds out whether
the trees are equal, and otherwise the first pair of nodes in document order that differ: all
pairs that precede it agree. Its outcome is that of the comparison of the views.
-/

namespace XmlGrove

theorem Leaf.kind_ne_tag (content : Leaf) : content.kind ≠ .tag := by
  cases content <;> simp [Leaf.kind]

namespace Grove

open Relation

variable {grove : Grove} {left right : NodeId} {respect : DifferenceKind}

/-! ## Respects -/

/-- The respects in which nodes can differ, in the order in which they are considered. -/
def respects : List DifferenceKind := [.kind, .name, .attributes, .childCount, .content]

def DiffersIn (grove : Grove) (left right : NodeId) : DifferenceKind → Prop
  | .kind => grove.kind? left ≠ grove.kind? right
  | .name => (grove.tag? left).map Prod.fst ≠ (grove.tag? right).map Prod.fst
  | .attributes => ∃ name : String, grove.attribute? left name ≠ grove.attribute? right name
  | .childCount => (grove.children left).length ≠ (grove.children right).length
  | .content => grove.leaf? left ≠ grove.leaf? right

/-- Two nodes that differ in no respect, whatever their children are. -/
def Agree (grove : Grove) (left right : NodeId) : Prop :=
  ∀ respect, ¬ grove.DiffersIn left right respect

/-- The first respect in which two nodes differ. -/
def DiffersFirstIn (grove : Grove) (left right : NodeId) (respect : DifferenceKind) : Prop :=
  grove.DiffersIn left right respect ∧
    ∀ earlier ∈ respects.takeWhile (· ≠ respect), ¬ grove.DiffersIn left right earlier

/-- Two nodes that agree and whose children are pairwise the same. -/
inductive SameTree (grove : Grove) : NodeId → NodeId → Prop
  | intro {left right : NodeId} (agree : grove.Agree left right)
      (below : ∀ pair ∈ (grove.children left).zip (grove.children right),
        SameTree grove pair.1 pair.2) : SameTree grove left right

/-! ## Comparing two nodes -/

theorem accessors_of_label?_leaf {id : NodeId} {content : Leaf}
    (held : grove.label? id = some (.leaf content)) :
    grove.kind? id = some content.kind ∧ grove.leaf? id = some content ∧
      grove.tag? id = none ∧ grove.children id = [] := by
  rw [label?, leaf?, tag?] at held
  rw [kind?, leaf?, tag?, children, childList?]
  cases present : grove.node? id with
  | none => simp [present] at held
  | some node => cases node <;> simp_all

theorem accessors_of_label?_tag {id : NodeId} {name : Name} {attributes : Attributes}
    (held : grove.label? id = some (.tag name attributes)) :
    grove.kind? id = some .tag ∧ grove.leaf? id = none ∧
      grove.tag? id = some (name, attributes) := by
  rw [label?, leaf?, tag?] at held
  rw [kind?, leaf?, tag?]
  cases present : grove.node? id with
  | none => simp [present] at held
  | some node => cases node <;> simp_all

theorem IsComplete.exists_label? {id : NodeId} (complete : grove.IsComplete id) :
    ∃ label : Tree.Label, grove.label? id = some label := by
  rcases complete.leaf_or_tag with ⟨content, present⟩ | ⟨name, attributes, children, present⟩ <;>
    simp [label?, leaf?, tag?, present]

theorem not_isComplete {id : NodeId} (unlabelled : grove.label? id = none) :
    ¬ grove.IsComplete id := by
  intro complete
  rcases complete.exists_label? with ⟨label, held⟩
  rw [unlabelled] at held
  cases held

theorem IsComplete.exists_childList? {id : NodeId} {label : Name × Attributes}
    (complete : grove.IsComplete id) (tag : grove.tag? id = some label) :
    ∃ children : List NodeId, grove.childList? id = some children := by
  rcases complete.leaf_or_tag with ⟨content, present⟩ | ⟨name, attributes, children, present⟩
  · simp [tag?, present] at tag
  · simp [childList?, present]

/-- What the outcome of comparing two nodes tells about them. -/
def Settles (grove : Grove) (left right : NodeId) :
    Except Fault (Option DifferenceKind) → Prop
  | .ok none => grove.Agree left right
  | .ok (some respect) => grove.DiffersFirstIn left right respect
  | .error _ => ¬ (grove.IsComplete left ∧ grove.IsComplete right)

/-- Leaves are compared by their kinds and then by their contents. -/
theorem settles_leaves {leftContent rightContent : Leaf}
    (leftHeld : grove.label? left = some (.leaf leftContent))
    (rightHeld : grove.label? right = some (.leaf rightContent)) :
    grove.Settles left right (grove.contrastKind? left right) := by
  rcases accessors_of_label?_leaf leftHeld with ⟨leftKind, leftLeaf, leftTag, leftChildren⟩
  rcases accessors_of_label?_leaf rightHeld with ⟨rightKind, rightLeaf, rightTag, rightChildren⟩
  rw [contrastKind?, leftHeld, rightHeld]
  by_cases sameKind : leftContent.kind = rightContent.kind
  · by_cases same : leftContent = rightContent
    · simp only [same, ne_eq, not_true_eq_false, if_false, Settles]
      intro respect
      cases respect <;>
        simp [DiffersIn, attribute?, leftKind, rightKind, leftLeaf, rightLeaf, leftTag, rightTag,
          leftChildren, rightChildren, same]
    · simp [Settles, DiffersFirstIn, respects, DiffersIn, attribute?, leftKind, rightKind,
        leftLeaf, rightLeaf, leftTag, rightTag, leftChildren, rightChildren, same, sameKind]
  · simp [Settles, DiffersFirstIn, respects, DiffersIn, leftKind, rightKind, sameKind]

/-- Tags are compared by their names, attributes and numbers of children. -/
theorem settles_tags {leftName rightName : Name} {leftAttributes rightAttributes : Attributes}
    (leftHeld : grove.label? left = some (.tag leftName leftAttributes))
    (rightHeld : grove.label? right = some (.tag rightName rightAttributes)) :
    grove.Settles left right (grove.contrastKind? left right) := by
  rcases accessors_of_label?_tag leftHeld with ⟨leftKind, leftLeaf, leftTag⟩
  rcases accessors_of_label?_tag rightHeld with ⟨rightKind, rightLeaf, rightTag⟩
  rw [contrastKind?, leftHeld, rightHeld]
  by_cases named : leftName = rightName
  · by_cases alike : leftAttributes.sameAs rightAttributes = true
    · have equal := Attributes.sameAs_iff_get?.1 alike
      simp only [named, alike, ne_eq, not_true_eq_false, if_false, Bool.not_true,
        Bool.false_eq_true]
      split
      · rename_i leftChildren rightChildren leftListed rightListed
        have leftCount := children_of_childList? leftListed
        have rightCount := children_of_childList? rightListed
        by_cases counted : leftChildren.length = rightChildren.length
        · simp only [counted, not_true_eq_false, if_false, Settles]
          intro respect
          cases respect <;>
            simp [DiffersIn, attribute?, leftKind, rightKind, leftLeaf, rightLeaf, leftTag,
              rightTag, leftCount, rightCount, counted, named, equal]
        · simp [Settles, DiffersFirstIn, respects, DiffersIn, attribute?, leftKind, rightKind,
            leftTag, rightTag, leftCount, rightCount, counted, named, equal]
      · rename_i unlisted
        rintro ⟨leftComplete, rightComplete⟩
        rcases leftComplete.exists_childList? leftTag with ⟨leftChildren, leftListed⟩
        rcases rightComplete.exists_childList? rightTag with ⟨rightChildren, rightListed⟩
        exact unlisted _ _ leftListed rightListed
    · have differs : ∃ name : String, leftAttributes.get? name ≠ rightAttributes.get? name := by
        rwa [Attributes.sameAs_iff_get?, not_forall] at alike
      simpa [Settles, DiffersFirstIn, respects, DiffersIn, attribute?, leftKind, rightKind,
        leftTag, rightTag, alike, named] using differs
  · simp [Settles, DiffersFirstIn, respects, DiffersIn, leftKind, rightKind, leftTag, rightTag,
      named]

theorem differsFirstIn_kind (different : grove.kind? left ≠ grove.kind? right) :
    grove.DiffersFirstIn left right .kind := by
  simp [DiffersFirstIn, respects, DiffersIn, different]

/-- Nodes are compared in the order of the respects, unless one of them is incomplete. -/
theorem settles_contrastKind? (left right : NodeId) :
    grove.Settles left right (grove.contrastKind? left right) := by
  cases leftHeld : grove.label? left with
  | none =>
      rw [contrastKind?, leftHeld]
      exact fun complete => not_isComplete leftHeld complete.1
  | some leftLabel =>
      cases rightHeld : grove.label? right with
      | none =>
          rw [contrastKind?, leftHeld, rightHeld]
          cases leftLabel <;> exact fun complete => not_isComplete rightHeld complete.2
      | some rightLabel =>
          cases leftLabel with
          | leaf leftContent =>
              cases rightLabel with
              | leaf rightContent => exact settles_leaves leftHeld rightHeld
              | tag rightName rightAttributes =>
                  rw [contrastKind?, leftHeld, rightHeld]
                  apply differsFirstIn_kind
                  rw [(accessors_of_label?_leaf leftHeld).1, (accessors_of_label?_tag rightHeld).1]
                  simpa using leftContent.kind_ne_tag
          | tag leftName leftAttributes =>
              cases rightLabel with
              | leaf rightContent =>
                  rw [contrastKind?, leftHeld, rightHeld]
                  apply differsFirstIn_kind
                  rw [(accessors_of_label?_tag leftHeld).1, (accessors_of_label?_leaf rightHeld).1]
                  simpa using rightContent.kind_ne_tag.symm
              | tag rightName rightAttributes => exact settles_tags leftHeld rightHeld

/-! ## The first difference -/

/-- The first pair of nodes that differ below two nodes, at the end of a way of child indices.
Children ahead of those that lead there are the same. -/
inductive Contrasted (grove : Grove) : NodeId → NodeId → List Nat → Contrast → Prop
  | here {left right : NodeId} {respect : DifferenceKind}
      (differs : grove.DiffersFirstIn left right respect) :
      Contrasted grove left right [] ⟨respect, left, right⟩
  | deeper {left right leftChild rightChild : NodeId} {way : List Nat} {contrast : Contrast}
      {before after : List (NodeId × NodeId)} (agree : grove.Agree left right)
      (children : (grove.children left).zip (grove.children right) =
        before ++ (leftChild, rightChild) :: after)
      (same : ∀ pair ∈ before, grove.SameTree pair.1 pair.2)
      (inner : Contrasted grove leftChild rightChild way contrast) :
      Contrasted grove left right (before.length :: way) contrast

/-- What comparing pairs of nodes one after the other tells about them. -/
def Reports (grove : Grove) (pending : List (NodeId × NodeId)) : Option Contrast → Prop
  | none => ∀ pair ∈ pending, grove.SameTree pair.1 pair.2
  | some contrast => ∃ (before : List (NodeId × NodeId)) (left right : NodeId)
      (after : List (NodeId × NodeId)) (way : List Nat),
      pending = before ++ (left, right) :: after ∧
      (∀ pair ∈ before, grove.SameTree pair.1 pair.2) ∧
      grove.Contrasted left right way contrast

/-- Where the children of two nodes that agree come first, the report is about these nodes. -/
theorem Reports.of_children {pending : List (NodeId × NodeId)} {report : Option Contrast}
    (agree : grove.Agree left right)
    (reports : grove.Reports ((grove.children left).zip (grove.children right) ++ pending) report) :
    grove.Reports ((left, right) :: pending) report := by
  cases report with
  | none =>
      intro pair member
      rcases List.mem_cons.1 member with rfl | later
      · exact .intro agree fun pair listed => reports pair (List.mem_append_left _ listed)
      · exact reports pair (List.mem_append_right _ later)
  | some contrast =>
      rcases reports with ⟨before, leftNode, rightNode, after, way, split, same, contrasted⟩
      -- The children are the same if the report is about a pair that comes after them.
      have later : ∀ skipped : List (NodeId × NodeId),
          before = (grove.children left).zip (grove.children right) ++ skipped →
          pending = skipped ++ (leftNode, rightNode) :: after →
          grove.Reports ((left, right) :: pending) (some contrast) := by
        rintro skipped rfl rfl
        refine ⟨(left, right) :: skipped, leftNode, rightNode, after, way, rfl, ?_, contrasted⟩
        intro pair member
        rcases List.mem_cons.1 member with rfl | waiting
        · exact .intro agree fun pair listed => same pair (List.mem_append_left _ listed)
        · exact same pair (List.mem_append_right _ waiting)
      rcases List.append_eq_append_iff.1 split with
        ⟨skipped, skips, behind⟩ | ⟨reached, children, behind⟩
      · exact later skipped skips behind
      · cases reached with
        | nil => exact later [] (by simpa using children.symm) behind.symm
        | cons first reached =>
            rw [List.cons_append, List.cons.injEq] at behind
            rw [← behind.1] at children
            exact ⟨[], left, right, pending, before.length :: way, rfl, by simp,
              .deeper agree children same contrasted⟩

/-- What a loop over pending pairs that comes to its end reports is true. -/
theorem reports_contrastWithin {bound : Nat} {pending : List (NodeId × NodeId)}
    {report : Option Contrast} (ended : grove.contrastWithin bound pending = .ok report) :
    grove.Reports pending report := by
  induction bound generalizing pending with
  | zero =>
      cases pending with
      | nil =>
          cases ended
          simp [Reports]
      | cons first rest => cases ended
  | succ bound induction =>
      cases pending with
      | nil =>
          cases ended
          simp [Reports]
      | cons first rest =>
          rcases first with ⟨left, right⟩
          have settles : grove.Settles left right _ := settles_contrastKind? left right
          rw [contrastWithin] at ended
          cases compared : grove.contrastKind? left right with
          | error fault =>
              rw [compared] at ended
              cases ended
          | ok respect? =>
              rw [compared] at ended settles
              cases respect? with
              | none => exact (induction ended).of_children settles
              | some respect =>
                  cases ended
                  exact ⟨[], left, right, rest, [], rfl, by simp, .here settles⟩

/-! ## The end of the loop -/

theorem Agree.map_fst_zip (agree : grove.Agree left right) :
    ((grove.children left).zip (grove.children right)).map Prod.fst = grove.children left := by
  apply List.map_fst_zip
  have counted := not_not.1 (agree .childCount)
  omega

/-- The nodes on the left are visited in document order, and the loop ends with them. -/
theorem exists_contrastWithin {bound : Nat} {pending : List (NodeId × NodeId)}
    (visible : ∀ pair ∈ pending, (grove.view? pair.1).isSome = true ∧
      (grove.view? pair.2).isSome = true)
    (short : (grove.preorderFrom bound (pending.map Prod.fst)).length < bound) :
    ∃ report : Option Contrast, grove.contrastWithin bound pending = .ok report := by
  induction bound generalizing pending with
  | zero => cases short
  | succ bound induction =>
      cases pending with
      | nil => exact ⟨none, rfl⟩
      | cons first rest =>
          rcases first with ⟨left, right⟩
          rcases List.forall_mem_cons.1 visible with ⟨⟨leftVisible, rightVisible⟩, others⟩
          have settles : grove.Settles left right _ := settles_contrastKind? left right
          rw [contrastWithin]
          cases compared : grove.contrastKind? left right with
          | error fault =>
              rw [compared] at settles
              exact absurd ⟨isComplete_of_view? leftVisible, isComplete_of_view? rightVisible⟩
                settles
          | ok respect? =>
              rw [compared] at settles
              cases respect? with
              | some respect => exact ⟨some ⟨respect, left, right⟩, rfl⟩
              | none =>
                  apply induction
                  · intro pair member
                    rcases List.mem_append.1 member with below | waiting
                    · rcases List.of_mem_zip below with ⟨leftListed, rightListed⟩
                      exact ⟨isSome_view?_of_lists leftVisible leftListed,
                        isSome_view?_of_lists rightVisible rightListed⟩
                    · exact others pair waiting
                  · simp only [List.map_cons, preorderFrom, List.length_cons] at short
                    rw [List.map_append, settles.map_fst_zip]
                    omega

theorem exists_contrast? (sound : grove.Sound) (leftVisible : (grove.view? left).isSome = true)
    (rightVisible : (grove.view? right).isSome = true) :
    ∃ report : Option Contrast, grove.contrast? left right = .ok report := by
  rcases Option.isSome_iff_exists.1 leftVisible with ⟨tree, seen⟩
  have unwound := unwound_of_acc (acc_of_viewWithin seen)
  have has := (isComplete_of_view? leftVisible).has
  have few := length_preorderFrom_le sound unwound has
    (grove.entries.size * grove.entries.size + 1)
  have some : 0 < grove.entries.size := Nat.lt_of_le_of_lt (Nat.zero_le _) has
  have squared : grove.entries.size ≤ grove.entries.size * grove.entries.size :=
    Nat.le_mul_of_pos_left _ some
  apply exists_contrastWithin
  · simpa using ⟨leftVisible, rightVisible⟩
  · simp only [List.map_cons, List.map_nil]
    omega

/-! ## Places in a tree -/

theorem SameTree.agree (same : grove.SameTree left right) : grove.Agree left right := by
  cases same with
  | intro agree below => exact agree

/-- Two nodes at the same place below others, if there are any, that agree. -/
def AgreeAt (grove : Grove) (left right : NodeId) (way : List Nat) : Prop :=
  Option.Rel grove.Agree (grove.descend? left way) (grove.descend? right way)

theorem descend?_cons {id : NodeId} {index : Nat} {way : List Nat} :
    grove.descend? id (index :: way) =
      (grove.children id)[index]?.bind fun child => grove.descend? child way := rfl

/-- Where the children are as many on both sides, places below them are places below pairs. -/
theorem agreeAt_cons_iff (agree : grove.Agree left right) {index : Nat} {way : List Nat} :
    grove.AgreeAt left right (index :: way) ↔
      ∀ pair ∈ ((grove.children left).zip (grove.children right))[index]?,
        grove.AgreeAt pair.1 pair.2 way := by
  have counted := not_not.1 (agree .childCount)
  rw [AgreeAt, descend?_cons, descend?_cons]
  by_cases within : index < (grove.children left).length
  · have alsoWithin : index < (grove.children right).length := counted ▸ within
    simp [List.getElem?_zip_eq_some, List.getElem?_eq_getElem within,
      List.getElem?_eq_getElem alsoWithin, AgreeAt]
  · have beyond : ((grove.children left).zip (grove.children right)).length ≤ index := by
      rw [List.length_zip]
      omega
    simp [List.getElem?_eq_none beyond,
      List.getElem?_eq_none (by omega : (grove.children left).length ≤ index),
      List.getElem?_eq_none (by omega : (grove.children right).length ≤ index)]

theorem SameTree.agreeAt (same : grove.SameTree left right) (way : List Nat) :
    grove.AgreeAt left right way := by
  induction way generalizing left right with
  | nil => exact .some same.agree
  | cons index way induction =>
      cases same with
      | intro agree below =>
          rw [agreeAt_cons_iff agree]
          intro pair listed
          exact induction (below pair (List.mem_of_getElem? listed))

theorem Contrasted.descends {way : List Nat} {contrast : Contrast}
    (contrasted : grove.Contrasted left right way contrast) :
    grove.descend? left way = some contrast.left ∧
      grove.descend? right way = some contrast.right ∧
      grove.DiffersFirstIn contrast.left contrast.right contrast.kind := by
  induction contrasted with
  | here differs => exact ⟨rfl, rfl, differs⟩
  | @deeper left right leftChild rightChild way contrast before after agree children same inner
      induction =>
      have found : ((grove.children left).zip (grove.children right))[before.length]? =
          some (leftChild, rightChild) := by
        rw [children, List.getElem?_append_right (Nat.le_refl _)]
        simp
      rcases List.getElem?_zip_eq_some.1 found with ⟨leftFound, rightFound⟩
      simpa only [descend?_cons, leftFound, rightFound, Option.bind_some] using induction

/-- Document order is the lexicographic order of ways: what comes before the first difference
agrees. -/
theorem Contrasted.agreeAt {way earlier : List Nat} {contrast : Contrast}
    (contrasted : grove.Contrasted left right way contrast) (precedes : earlier < way) :
    grove.AgreeAt left right earlier := by
  induction contrasted generalizing earlier with
  | here differs => exact absurd precedes (List.not_lt_nil earlier)
  | @deeper left right leftChild rightChild way contrast before after agree children same inner
      induction =>
      cases earlier with
      | nil => exact .some agree
      | cons index earlier =>
          rw [agreeAt_cons_iff agree, children]
          intro pair listed
          rcases List.cons_lt_cons_iff.1 precedes with ahead | ⟨rfl, further⟩
          · rw [List.getElem?_append_left ahead] at listed
            exact (same pair (List.mem_of_getElem? listed)).agreeAt earlier
          · rw [List.getElem?_append_right (Nat.le_refl _), Nat.sub_self] at listed
            cases listed
            exact induction further

theorem Contrasted.not_sameTree {way : List Nat} {contrast : Contrast}
    (contrasted : grove.Contrasted left right way contrast) : ¬ grove.SameTree left right := by
  intro same
  rcases contrasted.descends with ⟨leftFound, rightFound, differs⟩
  have agrees := same.agreeAt way
  rw [AgreeAt, leftFound, rightFound] at agrees
  cases agrees with
  | some agree => exact agree _ differs.1

/-! ## The comparison of views -/

section Views

variable {leftTree rightTree : Tree}

/-- How views and nodes are related in the comparisons that follow. -/
def Views (grove : Grove) (nodes : List NodeId) (trees : List Tree) : Prop :=
  List.Forall₂ (fun node tree => grove.view? node = some tree) nodes trees

/-- The views of nodes that agree differ where those of their children do. -/
theorem difference?_of_agree (agree : grove.Agree left right)
    (leftSeen : grove.view? left = some leftTree)
    (rightSeen : grove.view? right = some rightTree) :
    ∃ leftTrees rightTrees : List Tree, grove.Views (grove.children left) leftTrees ∧
      grove.Views (grove.children right) rightTrees ∧
      leftTree.difference? rightTree = Tree.differenceAmong? 0 leftTrees rightTrees := by
  have kinds := not_not.1 (agree .kind)
  have names := not_not.1 (agree .name)
  have leaves := not_not.1 (agree .content)
  have counted := not_not.1 (agree .childCount)
  have values := not_exists.1 (agree .attributes)
  cases leftTree with
  | leaf leftContent =>
      have leftPresent := view?_leaf leftSeen
      cases rightTree with
      | leaf rightContent =>
          have rightPresent := view?_leaf rightSeen
          simp only [leaf?, leftPresent, rightPresent, Option.some.injEq] at leaves
          refine ⟨[], [], ?_, ?_, ?_⟩
          · simp [Views, children, childList?, leftPresent]
          · simp [Views, children, childList?, rightPresent]
          · simp [Tree.difference?, Tree.differenceAmong?, leaves]
      | tag rightName rightAttributes rightTrees =>
          rcases view?_tag rightSeen with ⟨rightChildren, rightPresent, -⟩
          simp [leaf?, leftPresent, rightPresent] at leaves
  | tag leftName leftAttributes leftTrees =>
      rcases view?_tag leftSeen with ⟨leftChildren, leftPresent, leftEach⟩
      cases rightTree with
      | leaf rightContent =>
          have rightPresent := view?_leaf rightSeen
          simp [leaf?, leftPresent, rightPresent] at leaves
      | tag rightName rightAttributes rightTrees =>
          rcases view?_tag rightSeen with ⟨rightChildren, rightPresent, rightEach⟩
          simp [tag?, leftPresent, rightPresent] at names
          simp [attribute?, tag?, leftPresent, rightPresent] at values
          simp [children, childList?, leftPresent, rightPresent] at counted
          have same := Attributes.sameAs_iff_get?.2 values
          refine ⟨leftTrees, rightTrees, ?_, ?_, ?_⟩
          · simpa [Views, children, childList?, leftPresent] using leftEach
          · simpa [Views, children, childList?, rightPresent] using rightEach
          · rw [leftEach.length_eq, rightEach.length_eq] at counted
            simp [Tree.difference?, names, same, counted]

theorem difference?_of_differsFirstIn (differs : grove.DiffersFirstIn left right respect)
    (leftSeen : grove.view? left = some leftTree)
    (rightSeen : grove.view? right = some rightTree) :
    leftTree.difference? rightTree = some ⟨[], respect⟩ := by
  cases leftTree with
  | leaf leftContent =>
      have leftPresent := view?_leaf leftSeen
      cases rightTree with
      | leaf rightContent =>
          have rightPresent := view?_leaf rightSeen
          cases respect <;>
            simp_all [DiffersFirstIn, respects, DiffersIn, Tree.difference?, kind?, leaf?, tag?,
              attribute?, children, childList?]
      | tag rightName rightAttributes rightTrees =>
          rcases view?_tag rightSeen with ⟨rightChildren, rightPresent, -⟩
          have kinds := leftContent.kind_ne_tag
          cases respect <;>
            simp_all [DiffersFirstIn, respects, DiffersIn, Tree.difference?, kind?]
  | tag leftName leftAttributes leftTrees =>
      rcases view?_tag leftSeen with ⟨leftChildren, leftPresent, leftEach⟩
      cases rightTree with
      | leaf rightContent =>
          have rightPresent := view?_leaf rightSeen
          have kinds := rightContent.kind_ne_tag
          cases respect <;>
            simp_all [DiffersFirstIn, respects, DiffersIn, Tree.difference?, kind?]
      | tag rightName rightAttributes rightTrees =>
          rcases view?_tag rightSeen with ⟨rightChildren, rightPresent, rightEach⟩
          have leftCount := leftEach.length_eq
          have rightCount := rightEach.length_eq
          cases respect <;>
            simp_all [DiffersFirstIn, respects, DiffersIn, Tree.difference?, kind?, leaf?, tag?,
              attribute?, children, childList?, Attributes.sameAs_iff_get?]

/-- Two nodes whose views, if there are any, do not differ. -/
def ViewedAlike (grove : Grove) (left right : NodeId) : Prop :=
  ∀ leftTree rightTree : Tree, grove.view? left = some leftTree →
    grove.view? right = some rightTree → leftTree.difference? rightTree = none

theorem differenceAmong?_of_viewedAlike {leftNodes rightNodes : List NodeId}
    {leftTrees rightTrees : List Tree} (leftSeen : grove.Views leftNodes leftTrees)
    (rightSeen : grove.Views rightNodes rightTrees)
    (alike : ∀ pair ∈ leftNodes.zip rightNodes, grove.ViewedAlike pair.1 pair.2) (index : Nat) :
    Tree.differenceAmong? index leftTrees rightTrees = none := by
  induction leftSeen generalizing rightNodes rightTrees index with
  | nil => rw [Tree.differenceAmong?]
  | @cons leftNode leftTree leftNodes leftTrees leftFirst leftOthers induction =>
      cases rightSeen with
      | nil => rw [Tree.differenceAmong?]
      | @cons rightNode rightTree rightNodes rightTrees rightFirst rightOthers =>
          rw [List.zip_cons_cons, List.forall_mem_cons] at alike
          rw [Tree.differenceAmong?, alike.1 _ _ leftFirst rightFirst]
          exact induction rightOthers alike.2 (index + 1)

theorem differenceAmong?_of_split {leftNodes rightNodes : List NodeId}
    {leftTrees rightTrees : List Tree} {before after : List (NodeId × NodeId)}
    {difference : Difference} (leftSeen : grove.Views leftNodes leftTrees)
    (rightSeen : grove.Views rightNodes rightTrees)
    (split : leftNodes.zip rightNodes = before ++ (left, right) :: after)
    (alike : ∀ pair ∈ before, grove.ViewedAlike pair.1 pair.2)
    (found : ∀ leftTree rightTree : Tree, grove.view? left = some leftTree →
      grove.view? right = some rightTree → leftTree.difference? rightTree = some difference)
    (index : Nat) :
    Tree.differenceAmong? index leftTrees rightTrees =
      some (difference.below (index + before.length)) := by
  induction leftSeen generalizing rightNodes rightTrees before index with
  | nil => simp at split
  | @cons leftNode leftTree leftNodes leftTrees leftFirst leftOthers induction =>
      cases rightSeen with
      | nil => simp at split
      | @cons rightNode rightTree rightNodes rightTrees rightFirst rightOthers =>
          rw [Tree.differenceAmong?]
          cases before with
          | nil =>
              simp only [List.zip_cons_cons, List.nil_append, List.cons.injEq,
                Prod.mk.injEq] at split
              rw [split.1.1] at leftFirst
              rw [split.1.2] at rightFirst
              rw [found _ _ leftFirst rightFirst]
              rfl
          | cons first before =>
              rw [List.zip_cons_cons, List.cons_append, List.cons.injEq] at split
              rw [List.forall_mem_cons, ← split.1] at alike
              rw [alike.1 _ _ leftFirst rightFirst]
              dsimp only
              rw [induction rightOthers split.2 alike.2 (index + 1), List.length_cons,
                Nat.add_right_comm, Nat.add_assoc]

theorem SameTree.viewedAlike (same : grove.SameTree left right) :
    grove.ViewedAlike left right := by
  induction same with
  | intro agree below induction =>
      intro leftTree rightTree leftSeen rightSeen
      rcases difference?_of_agree agree leftSeen rightSeen with
        ⟨leftTrees, rightTrees, leftEach, rightEach, equal⟩
      rw [equal]
      exact differenceAmong?_of_viewedAlike leftEach rightEach induction 0

theorem Contrasted.difference? {way : List Nat} {contrast : Contrast}
    (contrasted : grove.Contrasted left right way contrast)
    (leftSeen : grove.view? left = some leftTree)
    (rightSeen : grove.view? right = some rightTree) :
    leftTree.difference? rightTree = some ⟨way, contrast.kind⟩ := by
  induction contrasted generalizing leftTree rightTree with
  | here differs => exact difference?_of_differsFirstIn differs leftSeen rightSeen
  | @deeper left right leftChild rightChild way contrast before after agree children same inner
      induction =>
      rcases difference?_of_agree agree leftSeen rightSeen with
        ⟨leftTrees, rightTrees, leftEach, rightEach, equal⟩
      rw [equal, differenceAmong?_of_split leftEach rightEach children
        (fun pair member => (same pair member).viewedAlike)
        (fun _ _ leftSeen rightSeen => induction leftSeen rightSeen) 0, Nat.zero_add]
      rfl

end Views

/-- Whether two nodes are found to be the same, or which difference is found. -/
theorem contrast?_cases (sound : grove.Sound) (leftVisible : (grove.view? left).isSome = true)
    (rightVisible : (grove.view? right).isSome = true) :
    (grove.contrast? left right = .ok none ∧ grove.SameTree left right) ∨
      ∃ (way : List Nat) (contrast : Contrast),
        grove.contrast? left right = .ok (some contrast) ∧
        grove.Contrasted left right way contrast := by
  rcases exists_contrast? sound leftVisible rightVisible with ⟨report, compared⟩
  have reports := reports_contrastWithin compared
  cases report with
  | none => exact .inl ⟨compared, reports (left, right) List.mem_cons_self⟩
  | some contrast =>
      rcases reports with ⟨before, leftNode, rightNode, after, way, split, -, contrasted⟩
      right
      refine ⟨way, contrast, compared, ?_⟩
      cases before with
      | nil =>
          cases split
          exact contrasted
      | cons first before => simp at split

/-- Nodes are told apart exactly if the trees that they show are. -/
theorem contrast?_eq_ok_none_iff {leftTree rightTree : Tree} (sound : grove.Sound)
    (leftSeen : grove.view? left = some leftTree)
    (rightSeen : grove.view? right = some rightTree) :
    grove.contrast? left right = .ok none ↔ leftTree.difference? rightTree = none := by
  rcases contrast?_cases sound (Option.isSome_of_eq_some leftSeen)
      (Option.isSome_of_eq_some rightSeen) with
    ⟨equal, same⟩ | ⟨way, contrast, equal, contrasted⟩
  · exact iff_of_true equal (same.viewedAlike _ _ leftSeen rightSeen)
  · rw [equal, contrasted.difference? leftSeen rightSeen]
    simp

/-- Nodes that show the same tree are not told apart. -/
theorem contrast?_of_view? {tree : Tree} (sound : grove.Sound)
    (leftSeen : grove.view? left = some tree) (rightSeen : grove.view? right = some tree) :
    grove.contrast? left right = .ok none :=
  (contrast?_eq_ok_none_iff sound leftSeen rightSeen).2 tree.difference?_self

end Grove

open Grove

/-- The comparison finds no difference exactly between equal trees. Otherwise it finds two nodes
at the same place below both and the first respect in which they differ, and the nodes at every
place that precedes theirs in document order agree. -/
theorem contrast?_first_difference {grove : Grove} {left right : NodeId} (sound : grove.Sound)
    (leftVisible : (grove.view? left).isSome = true)
    (rightVisible : (grove.view? right).isSome = true) :
    (grove.contrast? left right = .ok none ↔ grove.SameTree left right) ∧
      (¬ grove.SameTree left right → ∃ (contrast : Contrast) (way : List Nat),
        grove.contrast? left right = .ok (some contrast) ∧
        grove.descend? left way = some contrast.left ∧
        grove.descend? right way = some contrast.right ∧
        grove.DiffersFirstIn contrast.left contrast.right contrast.kind ∧
        ∀ earlier < way, grove.AgreeAt left right earlier) := by
  rcases contrast?_cases sound leftVisible rightVisible with
    ⟨equal, same⟩ | ⟨way, contrast, equal, contrasted⟩
  · exact ⟨iff_of_true equal same, fun different => absurd same different⟩
  · constructor
    · apply iff_of_false _ contrasted.not_sameTree
      rw [equal]
      simp
    · intro _
      rcases contrasted.descends with ⟨leftFound, rightFound, differs⟩
      exact ⟨contrast, way, equal, leftFound, rightFound, differs,
        fun earlier precedes => contrasted.agreeAt precedes⟩

/-- A tree on either side of a comparison. They first differ in the attributes of the innermost
node, though the names of their last children differ as well. -/
def twinGrove : Grove :=
  (Operation.plant (.tag ⟨"a", by decide⟩ (.ofList [(⟨"y", by decide⟩, "2"), (⟨"x", by decide⟩, "1")])
    [.text "t", .tag ⟨"b", by decide⟩ {} [.tag ⟨"c", by decide⟩ (.ofList [(⟨"z", by decide⟩, "")]) []],
      .tag ⟨"e", by decide⟩ {} []])).apply
    ((Operation.plant (.tag ⟨"a", by decide⟩
      (.ofList [(⟨"x", by decide⟩, "1"), (⟨"y", by decide⟩, "2")])
      [.text "t", .tag ⟨"b", by decide⟩ {} [.tag ⟨"c", by decide⟩ {} []],
        .tag ⟨"d", by decide⟩ {} []])).apply {})

theorem sound_twinGrove : twinGrove.Sound := by
  have reachable : Reachable (fun _ _ => True) twinGrove := by
    apply Reachable.step
    · apply Reachable.start.step
      · intro id member
        cases member
      · trivial
    · intro id member
      cases member
    · trivial
  exact reachable.sound

theorem contrast?_first_difference_twinGrove :
    twinGrove.contrast? ⟨0⟩ ⟨5⟩ = .ok (some ⟨.attributes, ⟨3⟩, ⟨8⟩⟩) ∧
      ∃ way : List Nat, twinGrove.descend? ⟨0⟩ way = some ⟨3⟩ ∧
        twinGrove.descend? ⟨5⟩ way = some ⟨8⟩ ∧
        ∀ earlier < way, twinGrove.AgreeAt ⟨0⟩ ⟨5⟩ earlier := by
  have compared : twinGrove.contrast? ⟨0⟩ ⟨5⟩ = .ok (some ⟨.attributes, ⟨3⟩, ⟨8⟩⟩) := by
    rfl
  have complete : ∀ index < twinGrove.entries.size, twinGrove.IsComplete ⟨index⟩ := by decide
  have leftVisible : (twinGrove.view? ⟨0⟩).isSome = true :=
    isSome_view?_of_complete sound_twinGrove (by decide) rfl complete
  have rightVisible : (twinGrove.view? ⟨5⟩).isSome = true :=
    isSome_view?_of_complete sound_twinGrove (by decide) rfl complete
  rcases contrast?_first_difference sound_twinGrove leftVisible rightVisible with ⟨same, first⟩
  have different : ¬ twinGrove.SameTree ⟨0⟩ ⟨5⟩ := by
    rw [← same, compared]
    simp
  rcases first different with ⟨contrast, way, found, leftFound, rightFound, -, agree⟩
  rw [compared] at found
  cases found
  exact ⟨compared, way, leftFound, rightFound, agree⟩

end XmlGrove
