import Mathlib.Data.List.Chain
import XmlGrove.Proofs.Building.Construction
import XmlGrove.Proofs.Document.Foundation
import XmlGrove.Proofs.Grove.Ascent
import XmlGrove.Proofs.Grove.View
import XmlGrove.Script.Building

/-!
# What a builder stands on

The stack of a builder leads from the root of its document down to the current node. All that the
builder does keeps what is below the nodes on the stack; a new node is entered below the current
one, and leaving takes one node from the stack.
-/

namespace XmlGrove

namespace Grove

variable {grove before after last : Grove} {id : DocumentId} {document : Document}
  {node parent : NodeId} {attributes : Attributes}

/-! ## Roots that stay -/

theorem Spared.documentRoot? (spared : Spared [] before after) (sound : before.Sound)
    (present : before.document? id = some document)
    (anchor : before.isAnchor document.anchor = true) :
    after.documentRoot? id = before.documentRoot? id := by
  have same := spared.anchors id
  rw [present] at same
  rcases Option.map_eq_some_iff.1 same with ⟨latter, found, equal⟩
  change latter.anchor = document.anchor at equal
  rw [Grove.documentRoot?, Grove.documentRoot?, anchoredNodes_eq present, anchoredNodes_eq found,
    equal, spared.children anchor List.not_mem_nil]
  apply List.find?_congr
  intro node member
  have has : before.Has node := has_of_parentLink? (sound.listed member)
  rw [Bool.eq_iff_iff, isTag_iff_kind?, isTag_iff_kind?, spared.kind has]

/-- What is found first stays so if something else is inserted in front of it. -/
theorem find?_insertIdx {items : List α} {item : α} {sought : α → Bool}
    (other : sought item = false) :
    (items.insertIdx (items.takeWhile fun present => !sought present).length item).find? sought =
      items.find? sought := by
  induction items with
  | nil => simp [other]
  | cons first rest induction =>
      by_cases found : sought first = true
      · simp [found, other]
      · rw [Bool.not_eq_true] at found
        simp [found, induction]

theorem children_setAttributes :
    (grove.setAttributes parent attributes).children node = grove.children node := by
  change (grove.modifyNode parent fun present => present.withAttributes attributes).children node =
    grove.children node
  apply (alike_modifyNode _).children
  intro present _
  cases present with
  | leaf content => exact .leaf rfl
  | tag => exact .tag
  | unfinished => exact .unfinished
  | anchor => exact .anchor

end Grove

open Grove

variable {grove last : Grove} {child lower node parent upper : NodeId}

theorem Attached.lists {placement : Placement} (fair : placement.IsFair)
    (attached : Attached placement grove parent (.node child) node last)
    (listed : grove.Lists lower upper) : last.Lists lower upper := by
  rw [Grove.Lists] at listed ⊢
  by_cases equal : lower = parent
  · rw [equal] at listed ⊢
    rw [attached.own, (fair _ _).mem_iff]
    exact List.mem_cons_of_mem _ listed
  · rw [attached.eq_of_node.2, children_setChildren_of_ne _ equal, children_setParent]
    exact listed

theorem Attached.lists_child {placement : Placement} (fair : placement.IsFair)
    (attached : Attached placement grove parent (.node child) child last) :
    last.Lists parent child := by
  rw [Grove.Lists, attached.own, (fair _ _).mem_iff]
  exact List.mem_cons_self

namespace Script

open Activity

namespace Builder

variable {builder : Builder} {before after : Grove}

/-- The tag nodes that a builder works on, the current one first. -/
def stack (builder : Builder) : List NodeId := builder.current :: builder.outer

/-- A builder's document is there, and its stack leads from the root of the document down to the
current node. -/
structure Stands (builder : Builder) (grove : Grove) : Prop where
  sound : grove.Sound
  anchor : ∃ document, grove.document? builder.document = some document ∧
    grove.anchored? document.anchor = some builder.document ∧
      grove.parentLink? document.anchor = none
  bottom : grove.documentRoot? builder.document = builder.stack.getLast?
  tags : ∀ id ∈ builder.stack, grove.isTag id = true
  lists : builder.stack.IsChain fun upper lower => grove.Lists lower upper

namespace Stands

/-- A change that keeps the root of the document and all that nodes on the stack list. -/
theorem keep {touched : List NodeId} (stands : builder.Stands before)
    (spared : Spared touched before after)
    (root : after.documentRoot? builder.document = before.documentRoot? builder.document)
    (lists : ∀ {lower upper}, lower ∈ builder.stack → before.Lists lower upper →
      after.Lists lower upper) : builder.Stands after where
  sound := spared.sound stands.sound
  anchor := by
    rcases stands.anchor with ⟨document, present, anchored, free⟩
    have same := spared.anchors builder.document
    rw [present] at same
    rcases Option.map_eq_some_iff.1 same with ⟨latter, found, equal⟩
    change latter.anchor = document.anchor at equal
    refine ⟨latter, found, ?_, ?_⟩
    · rw [equal, spared.anchored (has_of_anchored? anchored), anchored]
    · rw [equal]
      exact spared.free (by rw [isAnchor, anchored]; rfl) free
  bottom := root.trans stands.bottom
  tags id member := by
    have tag := isTag_iff_kind?.1 (stands.tags id member)
    rw [isTag_iff_kind?, spared.kind (has_of_kind? tag), tag]
  lists := by
    apply stands.lists.imp_of_mem_imp
    intro upper lower _ member listed
    exact lists member listed

theorem spare (stands : builder.Stands before) (spared : Spared [] before after)
    (lists : ∀ {lower upper}, lower ∈ builder.stack → before.Lists lower upper →
      after.Lists lower upper) : builder.Stands after := by
  rcases stands.anchor with ⟨document, present, anchored, _⟩
  have anchor : before.isAnchor document.anchor = true := by
    rw [isAnchor, anchored]
    rfl
  exact stands.keep spared (spared.documentRoot? stands.sound present anchor) lists

theorem has (stands : builder.Stands grove) {id : NodeId} (member : id ∈ builder.stack) :
    grove.Has id :=
  has_of_kind? (isTag_iff_kind?.1 (stands.tags id member))

theorem plain (stands : builder.Stands grove) : grove.isAnchor builder.current = false :=
  not_isAnchor_of_kind? (isTag_iff_kind?.1 (stands.tags _ List.mem_cons_self))

theorem enlarge (stands : builder.Stands before) (enlarged : Enlarged before after) :
    builder.Stands after := by
  apply stands.spare enlarged.spared
  intro lower upper member listed
  rw [Grove.Lists, Grown.children enlarged (stands.has member) fun fills => fills]
  exact listed

theorem setAttributes (stands : builder.Stands grove) (id : NodeId) (attributes : Attributes) :
    builder.Stands (grove.setAttributes id attributes) := by
  apply stands.spare (.setAttributes attributes)
  intro lower upper _ listed
  rw [Grove.Lists, children_setAttributes]
  exact listed

theorem attach (stands : builder.Stands grove) (offered : grove.Offers child)
    (attached : Attached .atEnd grove builder.current (.node child) child last) :
    builder.Stands last := by
  have usable : ∀ id ∈ (Source.node child).nodes, grove.Offers id := by
    intro id member
    rw [Source.nodes, List.mem_singleton] at member
    rw [member]
    exact offered
  apply stands.spare ((attached.spared Placement.isFair_atEnd stands.sound usable).of_plain
    stands.plain)
  intro lower upper _ listed
  exact attached.lists Placement.isFair_atEnd listed

/-- A node that can precede the root is placed behind all others that do. -/
theorem precede (stands : builder.Stands grove) {document : Document}
    (present : grove.document? builder.document = some document) (precedes : grove.Precedes child)
    (attached : Attached (.atIndex (grove.prologue builder.document).length) grove
      document.anchor (.node child) child last) : builder.Stands last := by
  have usable : ∀ id ∈ (Source.node child).nodes, grove.Offers id := by
    intro id member
    rw [Source.nodes, List.mem_singleton] at member
    rw [member]
    exact precedes.offers
  have spared := attached.spared (Placement.isFair_atIndex _) stands.sound usable
  apply stands.keep spared
  · have same := spared.anchors builder.document
    rw [present] at same
    rcases Option.map_eq_some_iff.1 same with ⟨latter, found, equal⟩
    change latter.anchor = document.anchor at equal
    have kept : ∀ node ∈ last.children document.anchor, last.isTag node = grove.isTag node := by
      intro node member
      rw [attached.own, (Placement.isFair_atIndex _ _ _).mem_iff, List.mem_cons] at member
      have has : grove.Has node := by
        rcases member with rfl | listed
        · exact precedes.offers.1
        · exact has_of_parentLink? (stands.sound.listed listed)
      rw [Bool.eq_iff_iff, isTag_iff_kind?, isTag_iff_kind?, spared.kind has]
    rw [documentRoot?, documentRoot?, anchoredNodes_eq found, anchoredNodes_eq present, equal,
      List.find?_congr kept, attached.own]
    have position : insertionPosition (grove.children document.anchor).length
        (grove.prologue builder.document).length = (grove.prologue builder.document).length := by
      have short : (grove.prologue builder.document).length ≤
          (grove.children document.anchor).length := by
        rw [prologue, anchoredNodes_eq present]
        exact (List.takeWhile_sublist _).length_le
      rw [insertionPosition]
      split <;> omega
    rw [Placement.atIndex, position, prologue, anchoredNodes_eq present]
    exact find?_insertIdx precedes.isTag_eq_false
  · intro lower upper _ listed
    exact attached.lists (Placement.isFair_atIndex _) listed

/-! ## Entering and leaving -/

theorem enter (stands : builder.Stands grove) (tag : grove.isTag child = true)
    (listed : grove.Lists builder.current child) : (builder.enter child).Stands grove where
  sound := stands.sound
  anchor := stands.anchor
  bottom := stands.bottom
  tags id member := by
    rcases List.mem_cons.1 member with rfl | below
    · exact tag
    · exact stands.tags id below
  lists := List.isChain_cons_cons.2 ⟨listed, stands.lists⟩

theorem leave (stands : builder.Stands grove) : builder.leave.Stands grove := by
  rcases builder with ⟨document, current, outer⟩
  cases outer with
  | nil => exact stands
  | cons parent rest =>
      exact {
        sound := stands.sound
        anchor := stands.anchor
        bottom := stands.bottom
        tags := fun id member => stands.tags id (List.mem_cons_of_mem _ member)
        lists := (List.isChain_cons_cons.1 stands.lists).2 }

end Stands

end Builder

end Script

end XmlGrove
