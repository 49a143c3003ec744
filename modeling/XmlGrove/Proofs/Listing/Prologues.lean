import XmlGrove.Proofs.Document.History
import XmlGrove.Proofs.Document.Rearrangement
import XmlGrove.Proofs.Listing.Subscripts
import XmlGrove.Script.DocumentCommand

/-!
# Prologues as lists

What is done to a prologue is what would be done to a list of its own, as long as positions are
counted from the front. What isn't accepted, or can't be done to the list, leaves everything where
it is.
-/

namespace XmlGrove

open Grove

namespace Prologue

variable {grove : Grove} {id : DocumentId} {document : Document} {anchor node : NodeId}
  {nodes : List NodeId} {index : Int}

/-! ## Operations on prologues -/

/-- A node that is listed behind the root and holds the same as one in the prologue. -/
structure Astray (grove : Grove) (id : DocumentId) (node : NodeId) : Prop where
  missing : node ∉ grove.prologue id
  listed : node ∈ grove.anchoredNodes id
  contained : contains grove id node = true

theorem outcome_insertChild_leaf (listed : (grove.childList? anchor).isSome = true)
    (placeable : Placeable grove node) :
    (insertChild anchor index (.node node)).outcome grove =
      (.ok node, grove.placed anchor
        (insertionPosition (grove.children anchor).length index) node) := by
  rcases Option.isSome_iff_exists.1 listed with ⟨siblings, known⟩
  rw [insertChild, Edit.outcome_bind_of_ok (outcome_requireChildren_of_listed known),
    Edit.outcome_bind_of_ok (outcome_adopt_node placeable.detached
      (by rw [placeable.has.2, Bool.false_and]))]
  have same : (grove.setParent node (some anchor)).children anchor = grove.children anchor :=
    children_setParent
  rw [placed, ← same]
  rfl

/-- What is known of a grove with a document. -/
structure Houses (grove : Grove) (id : DocumentId) (document : Document) : Prop where
  sound : grove.Sound
  anchored : grove.Anchored
  present : grove.document? id = some document

section

variable (houses : Houses grove id document)

include houses

theorem Houses.nodup : (grove.anchoredNodes id).Nodup := by
  rw [anchoredNodes_eq houses.present]
  exact houses.sound.nodup document.anchor

/-- A node that can be placed is put where the list of all the anchor's nodes has the index. -/
theorem insertChild_lists (placeable : Placeable grove node) :
    (insertChild document.anchor index (.node node)).Yields grove fun _ last =>
      Rearranged grove id document.anchor last ∧
        last.prologue id =
          if insertionPosition (grove.anchoredNodes id).length index ≤ (grove.prologue id).length
          then (grove.prologue id).insertIdx
            (insertionPosition (grove.anchoredNodes id).length index) node
          else grove.prologue id := by
  have listed := childList?_of_anchored? (houses.anchored id document houses.present)
  rw [Edit.Yields, Edit.Ensures, outcome_insertChild_leaf listed placeable,
    ← anchoredNodes_eq houses.present]
  exact rearranged_placed houses.sound houses.anchored houses.present placeable.has.1
    placeable.has.2 insertionPosition_le

theorem append_lists :
    (append id node).Ensures grove
      (fun _ last => Placeable grove node ∧ Rearranged grove id document.anchor last ∧
        last.prologue id = grove.prologue id ++ [node])
      (fun last => ¬ Placeable grove node ∧ last = grove) := by
  rw [append]
  apply Edit.Ensures.bind
  apply (requirePlaceable_decides grove node).mono
  · rintro _ _ ⟨rfl, placeable⟩
    apply Edit.Ensures.bind_of_ok (outcome_requireDocument houses.present)
    apply Edit.Ensures.bind
    apply Edit.ensures_get
    apply Edit.Ensures.bind
    apply (insertChild_lists houses placeable).ensures
    rintro _ last ⟨rearranged, prologue⟩
    apply Edit.ensures_pure
    refine ⟨placeable, rearranged, ?_⟩
    rw [prologue, insertionPosition_of_le (prologue_sublist _ id).length_le,
      if_pos (Nat.le_refl _), List.insertIdx_length_self]
  · rintro last ⟨same, unfit⟩
    exact ⟨unfit, same⟩

theorem insert_lists :
    (insert id index node).Ensures grove
      (fun _ last => Placeable grove node ∧ index ≤ (grove.prologue id).length ∧
        Sequence.isBeyondItems index = false ∧ Rearranged grove id document.anchor last ∧
        last.prologue id =
          if insertionPosition (grove.anchoredNodes id).length index ≤ (grove.prologue id).length
          then (grove.prologue id).insertIdx
            (insertionPosition (grove.anchoredNodes id).length index) node
          else grove.prologue id)
      (fun last => ¬ (Placeable grove node ∧ index ≤ (grove.prologue id).length ∧
        Sequence.isBeyondItems index = false) ∧ grove.Unmoved last) := by
  rw [insert]
  apply Edit.Ensures.bind
  apply (requirePlaceable_decides grove node).mono
  · rintro _ _ ⟨rfl, placeable⟩
    apply Edit.Ensures.bind_of_ok (outcome_requireDocument houses.present)
    apply Edit.Ensures.bind
    apply Edit.ensures_get
    apply Edit.ensures_ite
    · intro outside
      apply Edit.Ensures.throw_bind
      exact ⟨fun inside => absurd inside.2.1 (Int.not_le.2 outside), unmoved_refl _⟩
    · intro inside
      apply Edit.ensures_ite
      · intro beyond
        -- The node gets linked to the anchor, but no list is changed.
        apply Edit.Ensures.bind_of_ok (outcome_adopt_node placeable.detached
          (by rw [placeable.has.2, Bool.false_and]))
        apply Edit.Ensures.throw_bind
        refine ⟨fun within => ?_, unmoved_setParent⟩
        rw [beyond] at within
        cases within.2.2
      · intro within
        apply Edit.Ensures.bind
        apply (insertChild_lists houses placeable).ensures
        rintro _ last ⟨rearranged, prologue⟩
        apply Edit.ensures_pure
        exact ⟨placeable, Int.not_lt.1 inside, Bool.eq_false_iff.2 within, rearranged, prologue⟩
  · rintro _ ⟨rfl, unfit⟩
    exact ⟨fun fits => unfit fits.1, unmoved_refl _⟩

theorem remove_lists :
    (remove id node).Ensures grove
      (fun _ last => (node ∈ grove.prologue id ∨ Astray grove id node) ∧
        Rearranged grove id document.anchor last ∧
        last.prologue id = (grove.prologue id).erase node)
      (fun last => node ∉ grove.prologue id ∧ last = grove) := by
  rw [remove]
  apply Edit.Ensures.bind
  apply (index_locates grove id node).mono
  · rintro position last ⟨same, contained, found⟩
    rw [same]
    apply Edit.Ensures.bind_of_ok (outcome_requireDocument houses.present)
    have listed : node ∈ grove.anchoredNodes id :=
      List.isSome_idxOf?.1 (Option.isSome_of_eq_some found)
    have member := listed
    rw [anchoredNodes_eq houses.present] at member
    apply (removeSibling_yields houses.sound member).ensures
    intro _ last pruned
    have plain : ∀ child ∈ [node], grove.isTag child = false := by
      intro child single
      rw [List.mem_singleton.1 single]
      exact isTag_of_contains contained
    rcases Pruned.rearranged pruned houses.sound houses.anchored houses.present plain with
      ⟨rearranged, prologue⟩
    refine ⟨?_, rearranged, ?_⟩
    · by_cases within : node ∈ grove.prologue id
      · exact .inl within
      · exact .inr ⟨within, listed, contained⟩
    · rw [prologue, erase_eq_filter (houses.nodup.sublist (prologue_sublist grove id))]
  · rintro last ⟨same, missing⟩
    exact ⟨missing, same⟩

theorem clear_lists :
    (clear id).Yields grove fun _ last =>
      Rearranged grove id document.anchor last ∧ last.prologue id = [] := by
  rw [clear]
  apply Edit.Ensures.bind_of_ok (outcome_requireDocument houses.present)
  apply Edit.Ensures.bind
  apply Edit.ensures_get
  have listed : ∀ child ∈ grove.prologue id, child ∈ grove.children document.anchor := by
    intro child member
    rw [← anchoredNodes_eq houses.present]
    exact mem_anchoredNodes_of_mem_prologue member
  apply (forM_removeSibling_yields (grove.prologue id)
    (houses.nodup.sublist (prologue_sublist grove id)) houses.sound listed).mono
  intro _ last pruned
  rcases Pruned.rearranged pruned houses.sound houses.anchored houses.present
    fun node => isTag_of_mem_prologue with ⟨rearranged, prologue⟩
  refine ⟨rearranged, ?_⟩
  rw [prologue, List.filter_eq_nil_iff]
  intro node member
  simpa using member

end

/-! ## What is done to a list -/

/-- What can be done to a list of nodes. -/
inductive Change where
  | append (node : NodeId)
  | prepend (node : NodeId)
  | insert (index : Int) (node : NodeId)
  | remove (node : NodeId)
  | clear

namespace Change

/-- What a change makes of a list. Negative indices count from its end, and no list has items at
indices that are beyond all. -/
def onList (nodes : List NodeId) : Change → Except Fault (List NodeId)
  | append node => .ok (nodes ++ [node])
  | prepend node => .ok (node :: nodes)
  | insert index node =>
    let position := max 0 (min (nodes.length : Int) (Sequence.fromStart nodes.length index))
    if Sequence.isBeyondItems index then .error .indexTooLarge
    else .ok (nodes.insertIdx position.toNat node)
  | remove node => if node ∈ nodes then .ok (nodes.erase node) else .error .notSibling
  | clear => .ok []

def onPrologue (id : DocumentId) : Change → Edit Unit
  | append node => Prologue.append id node
  | prepend node => Prologue.prepend id node
  | insert index node => Prologue.insert id index node
  | remove node => Prologue.remove id node
  | clear => Prologue.clear id

/-- Nodes that are added have to be such that can be placed, at an index that the prologue has or
the one of the root. -/
def Admitted (grove : Grove) (id : DocumentId) : Change → Prop
  | append node | prepend node => Placeable grove node
  | insert index node => Placeable grove node ∧ index ≤ (grove.prologue id).length
  | remove _ | clear => True

/-- Changes that don't do to a prologue what they do to a list: an insertion at a position that is
counted from the end, which is the one of the nodes behind the prologue then, and the removal of one
of these. -/
def Strays (grove : Grove) (id : DocumentId) : Change → Prop
  | insert index _ =>
    grove.documentRoot? id ≠ none ∧ -((grove.anchoredNodes id).length : Int) < index ∧ index < 0
  | remove node => Astray grove id node
  | append _ | prepend _ | clear => False

end Change

/-- Insertions of another item at different positions have different results, and one of them is
none beyond the end. -/
theorem insertIdx_eq_iff {first second : Nat} (other : node ∉ nodes)
    (inside : first ≤ nodes.length) :
    (nodes.insertIdx first node =
      if second ≤ nodes.length then nodes.insertIdx second node else nodes) ↔ first = second := by
  constructor
  · intro same
    split at same
    · rename_i within
      rcases Nat.lt_trichotomy first second with less | equal | greater
      · have item := congrArg (·[first]?) same
        simp only [List.getElem?_insertIdx_self, if_pos inside,
          List.getElem?_insertIdx_of_lt less] at item
        exact absurd (List.mem_of_getElem? item.symm) other
      · exact equal
      · have item := congrArg (·[second]?) same
        simp only [List.getElem?_insertIdx_self, if_pos within,
          List.getElem?_insertIdx_of_lt greater] at item
        exact absurd (List.mem_of_getElem? item) other
    · have length := congrArg List.length same
      rw [List.length_insertIdx_of_le_length inside] at length
      omega
  · rintro rfl
    rw [if_pos inside]

theorem documentRoot?_ne_none_iff :
    grove.documentRoot? id ≠ none ↔
      (grove.prologue id).length < (grove.anchoredNodes id).length := by
  rcases exists_divided grove id with ⟨behind, divided⟩
  have top : grove.documentRoot? id = behind.head? := divided.find?
  rw [top, divided.eq, List.length_append, ne_eq, List.head?_eq_none_iff,
    ← List.length_eq_zero_iff]
  omega

/-- A position among all the anchor's nodes is the one in the prologue unless it was counted from
the end. -/
theorem insertionPosition_eq_iff (inside : index ≤ (grove.prologue id).length) :
    (max 0 (min ((grove.prologue id).length : Int)
        (Sequence.fromStart (grove.prologue id).length index))).toNat =
        insertionPosition (grove.anchoredNodes id).length index ↔
      ¬ (Change.insert index node).Strays grove id := by
  have bounded := (prologue_sublist grove id).length_le
  rw [Change.Strays, documentRoot?_ne_none_iff, Sequence.fromStart, insertionPosition]
  by_cases negative : index < 0
  · rw [if_pos negative, if_pos negative]
    omega
  · rw [if_neg negative, if_neg negative]
    omega

theorem Placeable.not_mem_prologue (placeable : Placeable grove node)
    (houses : Houses grove id document) : node ∉ grove.prologue id := by
  intro member
  have linked := linked_of_mem_anchoredNodes houses.sound houses.present
    (mem_anchoredNodes_of_mem_prologue member)
  rw [placeable.detached] at linked
  cases linked

namespace Change

/-- A change is made of a prologue as it is made of a list, if it doesn't stray, or it is refused,
because it isn't admitted or can't be made of the list. -/
def Parallels (change : Change) (grove : Grove) (id : DocumentId) (document : Document) : Prop :=
  (change.onPrologue id).Ensures grove
    (fun _ last => change.Admitted grove id ∧ Rearranged grove id document.anchor last ∧
      (change.onList (grove.prologue id) = .ok (last.prologue id) ↔ ¬ change.Strays grove id))
    (fun last => ¬ (change.Admitted grove id ∧
      ∃ nodes, change.onList (grove.prologue id) = .ok nodes) ∧ grove.Unmoved last)

theorem Parallels.exists_ok {change : Change} (parallels : change.Parallels grove id document)
    (admitted : change.Admitted grove id) (made : change.onList (grove.prologue id) = .ok nodes)
    (unstraying : ¬ change.Strays grove id) :
    ∃ last, (change.onPrologue id).outcome grove = (.ok ⟨⟩, last) ∧ last.prologue id = nodes ∧
      Rearranged grove id document.anchor last := by
  obtain ⟨_, last, succeeded, _, rearranged, same⟩ :=
    Edit.Ensures.exists_ok parallels fun last refused => refused.1 ⟨admitted, nodes, made⟩
  refine ⟨last, succeeded, ?_, rearranged⟩
  have equal := same.2 unstraying
  rw [made] at equal
  exact (Except.ok.inj equal).symm

variable (houses : Houses grove id document)

include houses

theorem insert_parallels (index : Int) (node : NodeId) :
    (insert index node).Parallels grove id document := by
  apply (insert_lists houses).mono
  · rintro _ last ⟨placeable, inside, within, rearranged, prologue⟩
    refine ⟨⟨placeable, inside⟩, rearranged, ?_⟩
    rw [prologue, onList, within, if_neg Bool.false_ne_true, Except.ok.injEq,
      insertIdx_eq_iff (placeable.not_mem_prologue houses) (by omega)]
    exact insertionPosition_eq_iff inside
  · rintro last ⟨refused, unmoved⟩
    refine ⟨?_, unmoved⟩
    rintro ⟨⟨placeable, inside⟩, nodes, inserted⟩
    rw [onList] at inserted
    split at inserted
    · cases inserted
    · rename_i within
      exact refused ⟨placeable, inside, Bool.eq_false_iff.2 within⟩

/-- What a change does to a prologue, whether it is made or refused. -/
theorem parallels (change : Change) : change.Parallels grove id document := by
  cases change with
  | append node =>
      apply (append_lists houses).mono
      · rintro _ last ⟨placeable, rearranged, prologue⟩
        refine ⟨placeable, rearranged, ?_⟩
        rw [prologue]
        exact iff_of_true rfl not_false
      · rintro last ⟨unfit, rfl⟩
        exact ⟨fun both => unfit both.1, unmoved_refl _⟩
  | prepend node =>
      have front : (insert 0 node).onList (grove.prologue id) =
          (prepend node).onList (grove.prologue id) := by
        have start : (max 0 (min ((grove.prologue id).length : Int)
            (Sequence.fromStart (grove.prologue id).length 0))).toNat = 0 := by
          rw [Sequence.fromStart, if_neg (Int.lt_irrefl 0)]
          omega
        simp only [onList, start]
        rfl
      have unstraying : ¬ (insert 0 node).Strays grove id :=
        fun strays => Int.lt_irrefl 0 strays.2.2
      apply (insert_parallels houses 0 node).mono
      · rintro _ last ⟨⟨placeable, -⟩, rearranged, same⟩
        rw [front] at same
        exact ⟨placeable, rearranged, iff_of_true (same.2 unstraying) not_false⟩
      · rintro last ⟨refused, unmoved⟩
        refine ⟨?_, unmoved⟩
        rw [front] at refused
        rintro ⟨placeable, made⟩
        exact refused ⟨⟨placeable, Int.natCast_nonneg _⟩, made⟩
  | insert index node => exact insert_parallels houses index node
  | remove node =>
      apply (remove_lists houses).mono
      · rintro _ last ⟨found, rearranged, prologue⟩
        refine ⟨trivial, rearranged, ?_⟩
        rw [prologue, onList, Strays]
        rcases found with member | astray
        · rw [if_pos member]
          exact iff_of_true rfl fun astray => astray.missing member
        · rw [if_neg astray.missing]
          exact iff_of_false (fun removed => by cases removed) (not_not_intro astray)
      · rintro last ⟨missing, rfl⟩
        refine ⟨?_, unmoved_refl _⟩
        rintro ⟨-, nodes, removed⟩
        rw [onList, if_neg missing] at removed
        cases removed
  | clear =>
      apply (clear_lists houses).ensures
      rintro _ last ⟨rearranged, prologue⟩
      refine ⟨trivial, rearranged, ?_⟩
      rw [prologue]
      exact iff_of_true rfl not_false

end Change

end Prologue

namespace Script

open Activity Prologue

variable {grove : Grove} {id : DocumentId} {document : Document} {workspace : Workspace}

/-! ## Commands to prologues -/

/-- A change of a prologue that fails leaves prologues and roots as they were. -/
theorem edit_change_ensures (houses : Houses workspace.grove id document) (change : Change) :
    Ensures (edit (change.onPrologue id)) workspace (fun _ _ => True)
      (fun last => workspace.grove.Unmoved last.grove) := by
  apply edit_ensures
  apply (change.parallels houses).mono
  · intro _ last _
    trivial
  · intro last refused
    exact refused.2

theorem insertAtPrologueDecimal_ensures (houses : Houses workspace.grove id document)
    (index : Decimal) (node : NodeId) :
    Ensures (insertAtPrologueDecimal id index node) workspace (fun _ _ => True)
      (fun last => workspace.grove.Unmoved last.grove) := by
  rw [insertAtPrologueDecimal]
  apply Ensures.bind
  apply edit_looks
  apply (requirePlaceable_decides workspace.grove node).mono
  · rintro _ last ⟨same, placeable⟩
    refine ⟨same, ?_⟩
    apply Ensures.bind
    apply edit_looks
    rw [Edit.Ensures, outcome_requireDocument houses.present]
    refine ⟨rfl, ?_⟩
    apply Ensures.bind
    apply ensures_currentGrove
    apply ensures_ite
    · intro outside
      apply Ensures.bind
      exact ensures_throw (unmoved_refl _)
    · intro inside
      apply Ensures.bind
      apply edit_of_outcome (outcome_adopt_node placeable.detached
        (by rw [placeable.has.2, Bool.false_and]))
      exact ensures_throw unmoved_setParent
  · rintro _ ⟨same, -⟩
    exact ⟨same, unmoved_refl _⟩

theorem insertIntoPrologue_ensures (houses : Houses workspace.grove id document)
    (index : Value) (node : NodeId) :
    Ensures (insertIntoPrologue id index node) workspace (fun _ _ => True)
      (fun last => workspace.grove.Unmoved last.grove) := by
  rw [insertIntoPrologue.eq_def]
  split
  · rename_i position _
    exact edit_change_ensures houses (.insert position node)
  · exact insertAtPrologueDecimal_ensures houses _ node
  · apply Ensures.bind
    apply edit_looks
    apply (requirePlaceable_decides workspace.grove node).mono
    · rintro _ last ⟨same, -⟩
      exact ⟨same, ensures_throw (unmoved_refl _)⟩
    · rintro last ⟨same, -⟩
      exact ⟨same, unmoved_refl _⟩

theorem placedNode_looks (value : Value) :
    Ensures (placedNode value) workspace (fun _ last => last = workspace)
      (fun last => last = workspace) := by
  cases value with
  | node id => exact ensures_pure rfl
  | _ => exact ensures_throw rfl

theorem soughtNode_looks (value : Value) :
    Ensures (soughtNode value) workspace (fun _ last => last = workspace)
      (fun last => last = workspace) := by
  cases value with
  | node id => exact ensures_pure rfl
  | _ => exact ensures_throw rfl

/-- Whatever a prologue is told, it leaves prologues and roots as they were if it fails. -/
theorem prologueCommand_ensures (houses : Houses workspace.grove id document) (command : String)
    (arguments : List Value) :
    Ensures (prologueCommand id command arguments) workspace (fun _ _ => True)
      (fun last => workspace.grove.Unmoved last.grove) := by
  have same := unmoved_refl workspace.grove
  have changes : ∀ (change : Change) (answer : Answer),
      Ensures (do edit (change.onPrologue id); return answer) workspace (fun _ _ => True)
        (fun last => workspace.grove.Unmoved last.grove) := by
    intro change answer
    apply Ensures.bind
    apply (edit_change_ensures houses change).mono
    · intro _ last _
      exact ensures_pure trivial
    · intro last unmoved
      exact unmoved
  rw [prologueCommand]
  apply Ensures.bind
  apply ensures_currentGrove
  split
  case h_1 index =>
    apply Ensures.bind
    exact ensures_ofExcept (fun _ _ => ensures_pure trivial) same
  case h_4 =>
    exact Ensures.bind_looking (look_looks _ workspace) same fun _ => ensures_pure trivial
  case h_5 | h_6 =>
    apply Ensures.bind
    apply ensures_currentGrove
    exact ensures_pure trivial
  case h_8 value =>
    apply Ensures.bind_looking (placedNode_looks value) same
    exact fun node => changes (.append node) value
  case h_9 value =>
    apply Ensures.bind_looking (placedNode_looks value) same
    exact fun node => changes (.prepend node) value
  case h_10 index value =>
    apply Ensures.bind_looking (placedNode_looks value) same
    intro node
    apply Ensures.bind
    apply (insertIntoPrologue_ensures houses index node).mono
    · intro _ last _
      exact ensures_pure trivial
    · intro last unmoved
      exact unmoved
  case h_11 value =>
    apply Ensures.bind_looking (soughtNode_looks value) same
    exact fun node => changes (.remove node) Value.null
  case h_12 value =>
    apply Ensures.bind_looking (soughtNode_looks value) same
    intro node
    apply Ensures.bind
    apply edit_looks
    apply (index_locates workspace.grove id node).mono
    · rintro _ last ⟨equal, -⟩
      exact ⟨equal, ensures_pure trivial⟩
    · rintro last ⟨equal, -⟩
      exact ⟨equal, same⟩
  case h_13 => exact changes .clear Value.null
  all_goals first
    | exact ensures_pure trivial
    | exact ensures_throw same

theorem outcome_get_prologue (workspace : Workspace) (id : DocumentId) (value : Value) :
    outcome (prologueCommand id "get" [value]) workspace =
      ((subscript (workspace.grove.prologue id) .node .nodes value).map .plain, workspace) := by
  have looked : outcome currentGrove workspace = (.ok workspace.grove, workspace) := rfl
  rw [prologueCommand, outcome_bind_of_ok looked]
  change outcome (MonadExcept.ofExcept (subscript _ .node .nodes value) >>= fun found =>
    pure (Answer.plain found)) workspace = _
  rw [outcome_bind, outcome_ofExcept]
  cases subscript (workspace.grove.prologue id) .node .nodes value with
  | error fault => rfl
  | ok found => rfl

end Script

open Prologue Script

/-- A document's prologue can be used as if it were a list of nodes. -/
structure Listlike (workspace : Workspace) (id : DocumentId) (document : Document) : Prop where
  /-- Indices select the items that they select from the list. -/
  item : ∀ value index, value.integer? = some index →
    Activity.outcome (prologueCommand id "get" [value]) workspace =
      (match Sequence.itemAt? (workspace.grove.prologue id) index with
        | some node => .ok (.plain (.node node))
        | none => .error .noIndex, workspace)
  /-- Ranges select the items that they select from the list. -/
  items : ∀ start stop step (range : Sequence.Range), rangeBound start = .ok range.start →
    rangeBound stop = .ok range.stop → rangeBound step = .ok range.step →
    Activity.outcome (prologueCommand id "get" [.slice start stop step]) workspace =
      (if range.step = some 0 then .error .unacceptable
        else .ok (.plain (.nodes ((range.selected (workspace.grove.prologue id).length).filterMap
          ((workspace.grove.prologue id)[·]?)))), workspace)
  /-- A node's index is the one in the list, or asking for it fails. -/
  index : ∀ node, (Prologue.index id node).Ensures workspace.grove
    (fun position last => last = workspace.grove ∧
      ((workspace.grove.prologue id).idxOf? node = some position ↔
        ¬ Astray workspace.grove id node))
    (fun last => last = workspace.grove ∧ node ∉ workspace.grove.prologue id)
  change : ∀ change : Change, change.Parallels workspace.grove id document
  /-- Whatever fails leaves prologues and roots as they were. -/
  failure : ∀ command arguments, Activity.Ensures (prologueCommand id command arguments) workspace
    (fun _ _ => True) (fun last => workspace.grove.Unmoved last.grove)

theorem index_parallels {grove : Grove} (id : DocumentId) (node : NodeId) :
    (Prologue.index id node).Ensures grove
      (fun position last => last = grove ∧
        ((grove.prologue id).idxOf? node = some position ↔ ¬ Astray grove id node))
      (fun last => last = grove ∧ node ∉ grove.prologue id) := by
  rcases exists_divided grove id with ⟨behind, divided⟩
  apply (index_locates grove id node).mono
  · rintro position last ⟨same, contained, found⟩
    refine ⟨same, ?_⟩
    by_cases member : node ∈ grove.prologue id
    · have front : (grove.prologue id).idxOf? node = some position := by
        rw [divided.eq, List.idxOf?, List.findIdx?_append, ← List.idxOf?] at found
        cases front : (grove.prologue id).idxOf? node with
        | none => exact absurd member (List.idxOf?_eq_none_iff.1 front)
        | some first =>
            rw [front] at found
            exact found
      exact iff_of_true front fun astray => astray.missing member
    · have listed := List.isSome_idxOf?.1 (Option.isSome_of_eq_some found)
      rw [List.idxOf?_eq_none_iff.2 member]
      exact iff_of_false (fun none => by cases none) (not_not_intro ⟨member, listed, contained⟩)
  · intro last missing
    exact missing

theorem Grove.HasShape.not_astray {grove : Grove} {id : DocumentId} (shape : grove.HasShape id)
    (node : NodeId) : ¬ Astray grove id node := by
  rintro ⟨missing, listed, contained⟩
  rcases shape.exists_root with ⟨root, list, -, tag⟩
  rw [list, List.mem_append, List.mem_singleton] at listed
  have plain := isTag_of_contains contained
  rw [listed.resolve_left missing, isTag_iff_kind?.2 tag] at plain
  cases plain

theorem Grove.HasShape.strays_iff {grove : Grove} {id : DocumentId} (shape : grove.HasShape id)
    (change : Change) : change.Strays grove id ↔ ∃ index node, change = .insert index node ∧
      -((grove.prologue id).length : Int) ≤ index ∧ index < 0 := by
  rcases shape.exists_root with ⟨root, list, found, -⟩
  cases change with
  | insert index node =>
      rw [Change.Strays, found, list, List.length_append, List.length_singleton]
      constructor
      · rintro ⟨-, least, negative⟩
        exact ⟨index, node, rfl, by omega, negative⟩
      · rintro ⟨index, node, ⟨⟩, least, negative⟩
        exact ⟨Option.some_ne_none root, by omega, negative⟩
  | remove node =>
      refine iff_of_false (shape.not_astray node) ?_
      rintro ⟨index, node, ⟨⟩, -⟩
  | _ =>
      refine iff_of_false not_false ?_
      rintro ⟨index, node, ⟨⟩, -⟩

/-- In all histories, any document's prologue can be used as if it were a list of nodes, whatever
its changes are, as long as they don't stray. Unless elements or references were loaded in front of
the root, these are the insertions at negative indices down to the one of the first node. -/
theorem listlike_of_reached {workspace : Workspace} {id : DocumentId} {document : Document}
    (reached : Reached (fun _ _ => True) workspace.grove)
    (present : workspace.grove.document? id = some document) :
    Listlike workspace id document ∧
      (workspace.grove.HasShape id → (∀ node, ¬ Astray workspace.grove id node) ∧
        ∀ change : Change, change.Strays workspace.grove id ↔
          ∃ index node, change = .insert index node ∧
            -((workspace.grove.prologue id).length : Int) ≤ index ∧ index < 0) := by
  have houses : Houses workspace.grove id document :=
    ⟨reached.sound_and_anchored.1, reached.sound_and_anchored.2, present⟩
  refine ⟨⟨?_, ?_, ?_, ?_, ?_⟩, fun shape => ⟨shape.not_astray, shape.strays_iff⟩⟩
  · intro value index given
    rw [outcome_get_prologue, subscript_of_integer? given]
    cases Sequence.itemAt? (workspace.grove.prologue id) index with
    | none => rfl
    | some node => rfl
  · intro start stop step range first last apart
    rw [outcome_get_prologue, subscript_slice first last apart]
    split
    · rfl
    · rfl
  · exact index_parallels id
  · exact Change.parallels houses
  · exact prologueCommand_ensures houses

/-- A document with a comment before its root, and another comment. -/
def annotatedGrove : Grove :=
  (Act.operate (.createLeaf (.comment "other"))).apply prefacedGrove

theorem reached_annotatedGrove : Reached (fun _ _ => True) annotatedGrove :=
  (reached_prefacedGrove.mono fun _ _ _ => trivial).step
    ⟨fun id member => (by cases member), fun parts equal => (by cases equal)⟩ trivial

theorem placeable_annotatedGrove : Placeable annotatedGrove ⟨4⟩ where
  leaf := .inl ⟨"other", by decide⟩
  detached := by decide

theorem listlike_of_reached_annotatedGrove :
    Reached (fun _ _ => True) annotatedGrove ∧ annotatedGrove.prologue ⟨0⟩ = [⟨3⟩] ∧
      Activity.outcome (prologueCommand ⟨0⟩ "get" [.int (-1)]) { grove := annotatedGrove } =
        (.ok (.plain (.node ⟨3⟩)), { grove := annotatedGrove }) ∧
      (∃ last, (Prologue.insert ⟨0⟩ 0 ⟨4⟩).outcome annotatedGrove = (.ok ⟨⟩, last) ∧
        last.prologue ⟨0⟩ = [⟨4⟩, ⟨3⟩] ∧ last.documentRoot? ⟨0⟩ = some ⟨0⟩) ∧
      ∃ last, (Prologue.remove ⟨0⟩ ⟨3⟩).outcome annotatedGrove = (.ok ⟨⟩, last) ∧
        last.prologue ⟨0⟩ = [] ∧ last.parentLink? ⟨3⟩ = none := by
  have found : (annotatedGrove.document? ⟨0⟩).isSome = true := by decide
  rcases Option.isSome_iff_exists.1 found with ⟨document, present⟩
  have nodes : annotatedGrove.prologue ⟨0⟩ = [⟨3⟩] := by decide
  have root : annotatedGrove.documentRoot? ⟨0⟩ = some ⟨0⟩ := by decide
  let workspace : Workspace := { grove := annotatedGrove }
  have listlike : Listlike workspace ⟨0⟩ document ∧ _ :=
    listlike_of_reached reached_annotatedGrove present
  refine ⟨reached_annotatedGrove, nodes, ?_, ?_, ?_⟩
  · have item := listlike.1.item (.int (-1)) (-1) rfl
    have last : Sequence.itemAt? (workspace.grove.prologue ⟨0⟩) (-1) = some ⟨3⟩ := by decide
    rw [last] at item
    exact item
  · have made : (Change.insert 0 ⟨4⟩).onList (annotatedGrove.prologue ⟨0⟩) = .ok [⟨4⟩, ⟨3⟩] := by
      rw [nodes]
      rfl
    rcases (listlike.1.change (.insert 0 ⟨4⟩)).exists_ok ⟨placeable_annotatedGrove, by decide⟩ made
      (fun strays => Int.lt_irrefl 0 strays.2.2) with ⟨last, succeeded, prologue, rearranged⟩
    exact ⟨last, succeeded, prologue, rearranged.root.trans root⟩
  · have made : (Change.remove ⟨3⟩).onList (annotatedGrove.prologue ⟨0⟩) = .ok [] := by
      rw [nodes]
      rfl
    have listed : (⟨3⟩ : NodeId) ∈ annotatedGrove.prologue ⟨0⟩ := by decide
    rcases (listlike.1.change (.remove ⟨3⟩)).exists_ok trivial made
      (fun astray => astray.missing listed) with ⟨last, succeeded, prologue, rearranged⟩
    refine ⟨last, succeeded, prologue, rearranged.released ⟨3⟩ listed ?_⟩
    rw [prologue]
    exact List.not_mem_nil

/-- In front of the last node of a prologue nothing can be inserted by a negative index. -/
theorem not_listlike_of_reached :
    ¬ ∀ grove, Reached (fun _ _ => True) grove → ∀ id document,
      grove.document? id = some document → ∀ (index : Int) (node : NodeId),
        Placeable grove node → -((grove.prologue id).length : Int) ≤ index →
          index ≤ (grove.prologue id).length →
            (Change.insert index node).onList (grove.prologue id) =
              .ok (((Prologue.insert id index node).after grove).prologue id) := by
  intro listlike
  have found : (annotatedGrove.document? ⟨0⟩).isSome = true := by decide
  rcases Option.isSome_iff_exists.1 found with ⟨document, present⟩
  have nodes : annotatedGrove.prologue ⟨0⟩ = [⟨3⟩] := by decide
  have after : ((Prologue.insert ⟨0⟩ (-1) ⟨4⟩).after annotatedGrove).prologue ⟨0⟩ = [⟨3⟩, ⟨4⟩] := by
    decide
  have equal := listlike annotatedGrove reached_annotatedGrove ⟨0⟩ document present (-1) ⟨4⟩
    placeable_annotatedGrove (by decide) (by decide)
  rw [after, nodes] at equal
  have made : (Change.insert (-1) ⟨4⟩).onList [⟨3⟩] = .ok [⟨4⟩, ⟨3⟩] := rfl
  rw [made] at equal
  cases equal

end XmlGrove
