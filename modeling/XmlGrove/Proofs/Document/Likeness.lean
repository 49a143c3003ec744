import XmlGrove.Proofs.Document.Rendering
import XmlGrove.Proofs.Grove.Comparison

/-!
# Nodes that are not told apart

A comparison that comes to its end without a difference has gone through all nodes below both
nodes, none of which lacks its list of children. Both can be viewed then, and what they are
serialized to is the same in every layout.
-/

namespace XmlGrove

namespace Grove

variable {grove : Grove} {left right : NodeId} {bound : Nat}

/-! ## Complete comparisons -/

theorem isComplete_of_label?_leaf {id : NodeId} {content : Leaf}
    (held : grove.label? id = some (.leaf content)) : grove.IsComplete id := by
  rcases accessors_of_label?_leaf held with ⟨kind, leaf, -, -⟩
  refine ⟨by simp [kind], ?_⟩
  rw [leaf?] at leaf
  rw [isUnfinished]
  cases present : grove.node? id with
  | none => rfl
  | some node => cases node <;> simp_all

theorem isComplete_of_label?_tag {id : NodeId} {name : Name} {attributes : Attributes}
    {children : List NodeId} (held : grove.label? id = some (.tag name attributes))
    (listed : grove.childList? id = some children) : grove.IsComplete id :=
  ⟨by simp [(accessors_of_label?_tag held).1], isUnfinished_of_childList? listed⟩

/-- Only complete nodes are found to agree. -/
theorem isComplete_of_contrastKind? (compared : grove.contrastKind? left right = .ok none) :
    grove.IsComplete left ∧ grove.IsComplete right := by
  rw [contrastKind?] at compared
  split at compared
  · rename_i leftContent rightContent leftHeld rightHeld
    exact ⟨isComplete_of_label?_leaf leftHeld, isComplete_of_label?_leaf rightHeld⟩
  · rename_i leftName leftAttributes rightName rightAttributes leftHeld rightHeld
    split at compared
    · cases compared
    · split at compared
      · cases compared
      · split at compared
        · rename_i leftChildren rightChildren leftListed rightListed
          exact ⟨isComplete_of_label?_tag leftHeld leftListed,
            isComplete_of_label?_tag rightHeld rightListed⟩
        · cases compared
  · cases compared
  · cases compared

theorem Agree.map_snd_zip (agree : grove.Agree left right) :
    ((grove.children left).zip (grove.children right)).map Prod.snd = grove.children right := by
  apply List.map_snd_zip
  have counted := not_not.1 (agree .childCount)
  omega

/-- Both nodes of a pair can be viewed within a bound. -/
def BothViewed (grove : Grove) (bound : Nat) (pair : NodeId × NodeId) : Prop :=
  (grove.viewWithin bound pair.1).isSome = true ∧ (grove.viewWithin bound pair.2).isSome = true

theorem BothViewed.succ {pair : NodeId × NodeId} (viewed : grove.BothViewed bound pair) :
    grove.BothViewed (bound + 1) pair := by
  have longer : ∀ {node : NodeId}, (grove.viewWithin bound node).isSome = true →
      (grove.viewWithin (bound + 1) node).isSome = true := by
    intro node visible
    rcases Option.isSome_iff_exists.1 visible with ⟨tree, seen⟩
    exact Option.isSome_of_eq_some (viewWithin_of_le (Nat.le_succ bound) seen)
  exact ⟨longer viewed.1, longer viewed.2⟩

theorem Agree.bothViewed (agree : grove.Agree left right) (leftComplete : grove.IsComplete left)
    (rightComplete : grove.IsComplete right)
    (below : ∀ pair ∈ (grove.children left).zip (grove.children right),
      grove.BothViewed bound pair) : grove.BothViewed (bound + 1) (left, right) := by
  constructor
  · refine isSome_viewWithin_succ_iff.2 ⟨leftComplete, ?_⟩
    intro child listed
    rw [← agree.map_fst_zip] at listed
    rcases List.mem_map.1 listed with ⟨pair, member, rfl⟩
    exact (below pair member).1
  · refine isSome_viewWithin_succ_iff.2 ⟨rightComplete, ?_⟩
    intro child listed
    rw [← agree.map_snd_zip] at listed
    rcases List.mem_map.1 listed with ⟨pair, member, rfl⟩
    exact (below pair member).2

/-- A loop over pending pairs that finds no difference has seen all that is below them. -/
theorem bothViewed_of_contrastWithin {pending : List (NodeId × NodeId)}
    (ended : grove.contrastWithin bound pending = .ok none) :
    ∀ pair ∈ pending, grove.BothViewed bound pair := by
  induction bound generalizing pending with
  | zero =>
      cases pending with
      | nil => simp
      | cons first rest => cases ended
  | succ bound induction =>
      cases pending with
      | nil => simp
      | cons first rest =>
          rcases first with ⟨left, right⟩
          have settles : grove.Settles left right _ := settles_contrastKind? left right
          rw [contrastWithin] at ended
          cases compared : grove.contrastKind? left right with
          | error fault =>
              rw [compared] at ended
              cases ended
          | ok respect? =>
              rw [compared] at ended settles
              cases respect? with
              | some respect => cases ended
              | none =>
                  have viewed := List.forall_mem_append.1 (induction ended)
                  have complete := isComplete_of_contrastKind? compared
                  rw [List.forall_mem_cons]
                  exact ⟨Agree.bothViewed settles complete.1 complete.2 viewed.1,
                    fun pair member => (viewed.2 pair member).succ⟩

theorem sameTree_of_contrast?_eq_none (same : grove.contrast? left right = .ok none) :
    grove.SameTree left right :=
  reports_contrastWithin same (left, right) List.mem_cons_self

/-- Nodes that are not told apart show trees that are not told apart. -/
theorem exists_views_of_contrast?_eq_none (same : grove.contrast? left right = .ok none) :
    ∃ leftTree rightTree : Tree, grove.view? left = some leftTree ∧
      grove.view? right = some rightTree ∧ leftTree.difference? rightTree = none := by
  have viewed : grove.BothViewed _ (left, right) :=
    bothViewed_of_contrastWithin same _ List.mem_cons_self
  have leftVisible := isSome_view?_of_viewWithin viewed.1
  have rightVisible := isSome_view?_of_viewWithin viewed.2
  rcases Option.isSome_iff_exists.1 leftVisible with ⟨leftTree, leftSeen⟩
  rcases Option.isSome_iff_exists.1 rightVisible with ⟨rightTree, rightSeen⟩
  exact ⟨leftTree, rightTree, leftSeen, rightSeen,
    (sameTree_of_contrast?_eq_none same).viewedAlike leftTree rightTree leftSeen rightSeen⟩

/-- In a layout, both nodes come to the same pieces. -/
theorem exists_pieces_of_contrast?_eq_none (same : grove.contrast? left right = .ok none)
    (layout : Layout) : ∃ pieces, grove.nodePieces layout left = .ok pieces ∧
      grove.nodePieces layout right = .ok pieces := by
  rcases exists_views_of_contrast?_eq_none same with
    ⟨leftTree, rightTree, leftSeen, rightSeen, alike⟩
  refine ⟨leftTree.pieces layout, ?_, ?_⟩
  · rw [nodePieces, leftSeen]
  · rw [nodePieces, rightSeen, Tree.pieces_eq_of_difference?_eq_none alike]

end Grove

open Grove Script

/-! ## Equal writings -/

section

variable {workspace : Workspace} {left right id : NodeId} {options : Value}

theorem outcome_serializeNode {indentation : Indentation}
    (valid : Indentation.ofValue (workspace.settled options) = .ok indentation) :
    Activity.outcome (serializeNode id options) workspace =
      ((indentation.nodePieces workspace.grove id).map fun pieces =>
        .text (Text.Newline.unset.renderInMemory pieces), workspace) := by
  have settles : Activity.outcome (settled options) workspace =
      (.ok (workspace.settled options), workspace) := rfl
  rw [serializeNode, Activity.outcome_bind_of_ok settles, valid,
    Activity.outcome_bind_of_ok (Activity.outcome_ofExcept (.ok _) workspace)]
  exact outcome_look_bind_pure _ _

theorem outcome_serializeNode_of_error {fault : Fault}
    (invalid : Indentation.ofValue (workspace.settled options) = .error fault) :
    Activity.outcome (serializeNode id options) workspace = (.error fault, workspace) := by
  have settles : Activity.outcome (settled options) workspace =
      (.ok (workspace.settled options), workspace) := rfl
  rw [serializeNode, Activity.outcome_bind_of_ok settles, invalid, Activity.outcome_bind,
    Activity.outcome_ofExcept]

theorem nodePieces_eq_of_contrast?_eq_none {grove : Grove}
    (same : grove.contrast? left right = .ok none) (indentation : Indentation) :
    indentation.nodePieces grove left = indentation.nodePieces grove right := by
  cases indentation with
  | regular layout =>
      rcases exists_pieces_of_contrast?_eq_none same layout with ⟨pieces, leftWritten, rightWritten⟩
      rw [Indentation.nodePieces, leftWritten, Indentation.nodePieces, rightWritten]
  | void mark =>
      have leaves : grove.leaf? left = grove.leaf? right :=
        not_not.1 ((sameTree_of_contrast?_eq_none same).agree .content)
      unfold Indentation.nodePieces
      rw [leaves]

/-- Nodes between which the comparison finds no difference are serialized alike whatever the
options are, whichever order their attributes were set in, and whatever brought the nodes about.
With valid options both are serialized to a text. -/
theorem serializeNode_eq_of_contrast?_eq_none
    (same : workspace.grove.contrast? left right = .ok none) :
    (∀ options, Activity.outcome (serializeNode left options) workspace =
      Activity.outcome (serializeNode right options) workspace) ∧
    ∀ options layout, Indentation.ofValue (workspace.settled options) = .ok (.regular layout) →
      ∃ text, Activity.outcome (serializeNode left options) workspace =
          (.ok (.text text), workspace) ∧
        Activity.outcome (serializeNode right options) workspace =
          (.ok (.text text), workspace) := by
  constructor
  · intro options
    cases valid : Indentation.ofValue (workspace.settled options) with
    | error fault =>
        rw [outcome_serializeNode_of_error valid, outcome_serializeNode_of_error valid]
    | ok indentation =>
        rw [outcome_serializeNode valid, outcome_serializeNode valid,
          nodePieces_eq_of_contrast?_eq_none same]
  · intro options layout valid
    rcases exists_pieces_of_contrast?_eq_none same layout with ⟨pieces, leftWritten, rightWritten⟩
    refine ⟨Text.Newline.unset.renderInMemory pieces, ?_, ?_⟩
    · rw [outcome_serializeNode valid, Indentation.nodePieces, leftWritten]
      rfl
    · rw [outcome_serializeNode valid, Indentation.nodePieces, rightWritten]
      rfl

end

/-- A planted tree, and a tag node that was given its attributes in another order and its children
one by one, the last one first. -/
def likeGrove : Grove :=
  (Operation.insert false ⟨3⟩ 0 [.text " "]).apply
    ((Operation.append false ⟨3⟩ [.template (.define (.text "jar") [] [])]).apply
      ((Operation.createTag (.text "shelf")
        [(.text "width", some "2"), (.text "height", some "1")] []).apply
        ((Operation.plant (.tag ⟨"shelf", by decide⟩
          (.ofList [(⟨"height", by decide⟩, "1"), (⟨"width", by decide⟩, "2")])
          [.text " ", .tag ⟨"jar", by decide⟩ {} []])).apply {})))

theorem serializeNode_eq_of_contrast?_eq_none_likeGrove :
    likeGrove.contrast? ⟨0⟩ ⟨3⟩ = .ok none ∧
      ∃ text, Activity.outcome (serializeNode ⟨0⟩ (.text "\t")) { grove := likeGrove } =
          (.ok (.text text), { grove := likeGrove }) ∧
        Activity.outcome (serializeNode ⟨3⟩ (.text "\t")) { grove := likeGrove } =
          (.ok (.text text), { grove := likeGrove }) := by
  let workspace : Workspace := { grove := likeGrove }
  have same : workspace.grove.contrast? ⟨0⟩ ⟨3⟩ = .ok none := by rfl
  have valid : Indentation.ofValue (workspace.settled (.text "\t")) =
      .ok (.regular (.indented "\t")) := by rfl
  have alike := serializeNode_eq_of_contrast?_eq_none same
  exact ⟨same, alike.2 (.text "\t") (.indented "\t") valid⟩

end XmlGrove
