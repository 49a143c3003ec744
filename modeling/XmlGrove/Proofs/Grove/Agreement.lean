import XmlGrove.Proofs.Grove.Operation

/-!
# Agreement of links and lists

The link of a node and the list of its parent agree in all groves that operations lead to, other
than those that are given up between the two. Tag nodes whose construction was given up have no
list that could agree.
-/

namespace XmlGrove

namespace Grove

variable {grove : Grove} {child : NodeId}

/-- A node occurs once in the list of the node that it is linked to, and in no other list. -/
def Agreement (grove : Grove) : Prop :=
  ∀ child parent, (grove.children parent).count child =
    if grove.parentLink? child = some parent ∧ grove.isUnfinished parent = false then 1 else 0

theorem children_of_isUnfinished {parent : NodeId} (unfinished : grove.isUnfinished parent = true) :
    grove.children parent = [] := by
  rw [isUnfinished] at unfinished
  split at unfinished
  · rename_i present
    rw [children, childList?, present]
    rfl
  · cases unfinished

theorem agreement_iff (sound : grove.Sound) :
    grove.Agreement ↔ ∀ child parent, ¬ grove.Loose child parent := by
  constructor
  · intro agreement child parent loose
    have count := agreement child parent
    rw [if_pos ⟨loose.linked, loose.finished⟩] at count
    exact loose.unlisted (List.count_pos_iff.1 (by omega))
  · intro tight child parent
    rw [List.Nodup.count (sound.nodup parent)]
    refine if_congr ⟨?_, ?_⟩ rfl rfl
    · intro listed
      refine ⟨sound.listed listed, ?_⟩
      cases unfinished : grove.isUnfinished parent with
      | false => rfl
      | true =>
          rw [children_of_isUnfinished unfinished] at listed
          cases listed
    · rintro ⟨linked, finished⟩
      apply Decidable.byContradiction
      intro unlisted
      exact tight child parent ⟨linked, unlisted, finished⟩

/-- A node is below the anchor of one document only. -/
theorem Anchored.document_unique (anchored : grove.Anchored) (sound : grove.Sound)
    {first second : DocumentId} (former : child ∈ grove.anchoredNodes first)
    (latter : child ∈ grove.anchoredNodes second) : first = second := by
  rw [anchoredNodes] at former latter
  split at former
  · cases former
  · rename_i firstDocument firstFound
    split at latter
    · cases latter
    · rename_i secondDocument secondFound
      have same := sound.listed former
      rw [sound.listed latter] at same
      have firstAnchored := anchored first firstDocument firstFound
      rw [← Option.some.inj same, anchored second secondDocument secondFound] at firstAnchored
      exact (Option.some.inj firstAnchored).symm

end Grove

open Grove

variable {grove : Grove}

theorem Operation.loose_of_givenUp {operation : Operation} (sound : grove.Sound)
    (anchored : grove.Anchored) (available : operation.Available grove)
    (given : operation.GivenUp grove) :
    ∃ child parent, (operation.apply grove).Loose child parent := by
  cases operation with
  | createDocument parts => exact XmlGrove.loose_of_givenUp sound available given
  | insertIntoPrologue id index node => exact Prologue.loose_of_givenUp sound anchored given
  | _ => exact False.elim given

theorem Operation.agreement_apply_iff {operation : Operation} (sound : grove.Sound)
    (anchored : grove.Anchored) (agreement : grove.Agreement)
    (available : operation.Available grove) :
    (operation.apply grove).Agreement ↔ ¬ operation.GivenUp grove := by
  have changed := operation.changed sound anchored available
  have sound' := changed.moves.sound sound
  rw [agreement_iff sound']
  constructor
  · intro tight given
    rcases loose_of_givenUp sound anchored available given with ⟨child, parent, loose⟩
    exact tight child parent loose
  · intro kept child parent loose
    exact (agreement_iff sound).1 agreement child parent (changed.tight kept child parent loose)

theorem Reachable.agreement
    (reachable : Reachable (fun operation grove => ¬ operation.GivenUp grove) grove) :
    grove.Agreement := by
  induction reachable with
  | start =>
      apply (agreement_iff sound_empty).2
      intro child parent loose
      cases loose.linked
  | @step grove operation reachable available admitted induction =>
      exact (Operation.agreement_apply_iff reachable.sound reachable.anchored induction
        available).2 admitted

/-- Links and lists agree in every grove that is reached without giving up a document or an
insertion into a prologue; a node has one place, below one document. From there on, an operation
keeps the agreement exactly if it is not given up. -/
theorem agreement_of_reachable
    (reachable : Reachable (fun operation grove => ¬ operation.GivenUp grove) grove) :
    grove.Agreement ∧
      (∀ child first second, child ∈ grove.children first → child ∈ grove.children second →
        first = second) ∧
      (∀ child first second, child ∈ grove.anchoredNodes first →
        child ∈ grove.anchoredNodes second → first = second) ∧
      ∀ operation : Operation, operation.Available grove →
        ((operation.apply grove).Agreement ↔ ¬ operation.GivenUp grove) := by
  have sound := reachable.sound
  have anchored := reachable.anchored
  have agreement := reachable.agreement
  refine ⟨agreement, ?_, ?_, ?_⟩
  · intro child first second former latter
    have same := sound.listed former
    rw [sound.listed latter] at same
    exact (Option.some.inj same).symm
  · intro child first second
    exact anchored.document_unique sound
  · intro operation available
    exact Operation.agreement_apply_iff sound anchored agreement available

/-- The grove of a document with an empty root. -/
def rootedGrove : Grove :=
  (Operation.createDocument { sources := [.node ⟨0⟩] }).apply
    ((Operation.createTag (.text "root") [] []).apply {})

theorem reachable_rootedGrove :
    Reachable (fun operation grove => ¬ operation.GivenUp grove) rootedGrove := by
  apply Reachable.step
  · apply Reachable.start.step
    · intro id member
      cases member
    · intro given
      exact given
  · unfold Operation.Available Offers
    decide
  · rintro ⟨id, anchor, ready, first, rest, child, middle, fault, last, _, equal, _, refused⟩
    cases equal
    rw [adoptAll] at refused
    cases refused

theorem agreement_of_reachable_rootedGrove :
    Reachable (fun operation grove => ¬ operation.GivenUp grove) rootedGrove ∧
      rootedGrove.parentLink? ⟨0⟩ = some ⟨2⟩ ∧ rootedGrove.Agreement :=
  ⟨reachable_rootedGrove, by decide, (agreement_of_reachable reachable_rootedGrove).1⟩

/-- A comment that is inserted into a prologue below all indices that an item could have keeps a
link to the document's anchor, which does not list it. -/
theorem not_agreement_of_reachable :
    ¬ ∀ grove, Reachable (fun _ _ => True) grove → grove.Agreement := by
  intro agreement
  have reachable : Reachable (fun _ _ => True)
      ((Operation.insertIntoPrologue ⟨0⟩ (-9223372036854775809) ⟨3⟩).apply
        ((Operation.createLeaf (.comment "note")).apply rootedGrove)) := by
    apply Reachable.step
    · apply Reachable.step
      · exact reachable_rootedGrove.mono fun _ _ _ => trivial
      · intro id member
        cases member
      · trivial
    · unfold Operation.Available Offers
      decide
    · trivial
  have count := agreement _ reachable ⟨3⟩ ⟨2⟩
  revert count
  decide

end XmlGrove
