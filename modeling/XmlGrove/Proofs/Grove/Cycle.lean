import XmlGrove.Proofs.Grove.Operation
import XmlGrove.Proofs.Grove.Walks

/-!
# Cycles

An existing node is not attached to itself nor to what is below it. A template can still bring a
node below itself, and nothing else can.
-/

namespace XmlGrove

open Grove Relation

variable {grove : Grove} {id parent : NodeId}

/-! ## Refusals -/

/-- The fault of an attempt to attach a node to itself or to what is below it. -/
def refusal (grove : Grove) (id : NodeId) : Fault :=
  if (grove.parentLink? id).isSome then .attached else .cyclic

theorem attach_refused (sound : grove.Sound) (acyclic : grove.Acyclic) {children : List NodeId}
    (placement : Placement) (listed : grove.childList? parent = some children)
    (tag : grove.isTag id = true) (above : ReflTransGen grove.Link parent id) :
    (attach placement parent (.node id)).outcome grove = (.error (refusal grove id), grove) := by
  have looked : (requireChildren parent).outcome grove = (.ok children, grove) := by
    rw [requireChildren, Edit.outcome_bind_of_ok (Edit.outcome_get grove), listed]
    rfl
  have refused : (adopt parent (.node id)).outcome grove = (.error (refusal grove id), grove) := by
    rw [adopt, adoptNode, Edit.outcome_bind_of_ok (Edit.outcome_get grove), refusal, tag,
      (isAtOrAbove_iff sound acyclic).2 above]
    by_cases attached : (grove.parentLink? id).isSome = true
    · rw [if_pos attached, if_pos attached]
      rfl
    · rw [if_neg attached, if_neg attached]
      rfl
  rw [attach, Edit.outcome_bind_of_ok looked, Edit.outcome_bind_of_error refused]

/-! ## Operations -/

theorem Operation.acyclic_apply_iff {operation : Operation} (sound : grove.Sound)
    (anchored : grove.Anchored) (acyclic : grove.Acyclic)
    (available : operation.Available grove) :
    (operation.apply grove).Acyclic ↔ ¬ operation.ClosesCycle grove := by
  constructor
  · intro after closes
    cases operation with
    | append cloned parent sources =>
        rw [append_eq_attachEach] at after
        have offered : ∀ id ∈ Source.allNodes sources, grove.Offers id :=
          fun id member => available id (List.mem_cons_of_mem _ member)
        exact closes.not_acyclic Placement.isFair_atEnd sound offered after
    | insert cloned parent index sources =>
        rw [insert_eq_insertEachAt] at after
        have offered : ∀ id ∈ Source.allNodes sources, grove.Offers id :=
          fun id member => available id (List.mem_cons_of_mem _ member)
        exact closes.not_acyclic sound offered after
    | _ => exact closes
  · intro avoids
    exact (operation.changed sound anchored available).moves.acyclic avoids acyclic

theorem Reachable.acyclic
    (reachable : Reachable (fun operation grove => ¬ operation.ClosesCycle grove) grove) :
    grove.Acyclic := by
  induction reachable with
  | start =>
      intro id cycle
      rcases TransGen.head'_iff.1 cycle with ⟨next, link, _⟩
      cases link
  | @step grove operation reachable available admitted induction =>
      exact (Operation.acyclic_apply_iff reachable.sound reachable.anchored induction
        available).2 admitted

/-- No node is above itself, and all walks end, in every grove that is reached without attaching a
template that holds the topmost node above the parent. An existing node that is the parent or
above it is refused, and the grove stays as it is. From there on, an operation closes a cycle
exactly if it attaches such a template. -/
theorem acyclic_of_reachable
    (reachable : Reachable (fun operation grove => ¬ operation.ClosesCycle grove) grove) :
    grove.Acyclic ∧ grove.WalksEnd ∧
      (∀ parent id, (grove.childList? parent).isSome = true → grove.isTag id = true →
        ReflTransGen grove.Link parent id →
          (appendChild parent (.node id)).outcome grove = (.error (refusal grove id), grove) ∧
            ∀ index, (insertChild parent index (.node id)).outcome grove =
              (.error (refusal grove id), grove)) ∧
      ∀ operation : Operation, operation.Available grove →
        ((operation.apply grove).Acyclic ↔ ¬ operation.ClosesCycle grove) := by
  have sound := reachable.sound
  have acyclic := reachable.acyclic
  refine ⟨acyclic, walksEnd sound acyclic, ?_, ?_⟩
  · intro parent id present tag above
    rcases Option.isSome_iff_exists.1 present with ⟨children, listed⟩
    constructor
    · rw [appendChild_eq_attach]
      exact attach_refused sound acyclic _ listed tag above
    · intro index
      rw [insertChild_eq_attach]
      exact attach_refused sound acyclic _ listed tag above
  · intro operation available
    exact Operation.acyclic_apply_iff sound reachable.anchored acyclic available

/-- The grove of a tag node with another one below it. -/
def nestedGrove : Grove :=
  (Operation.createTag (.text "outer") [] [.template (.define (.text "inner") [] [])]).apply {}

theorem reachable_nestedGrove :
    Reachable (fun operation grove => ¬ operation.ClosesCycle grove) nestedGrove := by
  apply Reachable.start.step
  · intro id member
    cases member
  · intro closes
    exact closes

theorem acyclic_of_reachable_nestedGrove :
    Reachable (fun operation grove => ¬ operation.ClosesCycle grove) nestedGrove ∧
      nestedGrove.Acyclic ∧
        (appendChild ⟨1⟩ (.node ⟨0⟩)).outcome nestedGrove =
          (.error (refusal nestedGrove ⟨0⟩), nestedGrove) := by
  rcases acyclic_of_reachable reachable_nestedGrove with ⟨acyclic, _, refused, _⟩
  refine ⟨reachable_nestedGrove, acyclic, ?_⟩
  have link : nestedGrove.parentLink? ⟨1⟩ = some ⟨0⟩ := by decide
  exact (refused ⟨1⟩ ⟨0⟩ (by decide) (by decide) (.single link)).1

/-- A tag node can be brought below itself by a template that holds it. -/
theorem not_acyclic_of_reachable :
    ¬ ∀ grove, Reachable (fun _ _ => True) grove → grove.Acyclic := by
  intro acyclic
  have reachable : Reachable (fun _ _ => True)
      ((Operation.append false ⟨1⟩ [.template (.define (.text "new") [] [.node ⟨0⟩])]).apply
        nestedGrove) := by
    apply Reachable.step
    · exact reachable_nestedGrove.mono fun _ _ _ => trivial
    · unfold Operation.Available Offers
      decide
    · trivial
  apply acyclic _ reachable ⟨0⟩
  refine .head (b := ⟨2⟩) ?_ (.head (b := ⟨1⟩) ?_ (.single ?_))
  all_goals
    unfold Link
    decide

end XmlGrove
