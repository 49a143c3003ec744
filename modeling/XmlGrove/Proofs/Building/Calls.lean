import XmlGrove.Proofs.Building.Standing

/-!
# Calls of a builder

A builder stands on its document after every call, whatever values it is called with, and whether
the call fails or not. A call that is to append a node does nothing to the tree if it fails: all
that it can leave behind are nodes without a parent.
-/

namespace XmlGrove.Script

open Grove Activity

namespace Builder

variable {builder : Builder} {workspace : Workspace} {start : Grove}

/-! ## Single steps -/

/-- A new node is appended to the current one. -/
theorem appendFresh_ensures {kind : NodeKind} {child : NodeId}
    (stands : builder.Stands workspace.grove) (fresh : Fresh start kind child workspace.grove) :
    Ensures (edit (appendChild builder.current (.node child))) workspace
      (fun _ last => builder.Stands last.grove ∧ last.grove.Lists builder.current child ∧
        last.grove.kind? child = some kind)
      (fun last => last = workspace) := by
  have offered : workspace.grove.Offers child := ⟨fresh.has, not_isAnchor_of_kind? fresh.kind⟩
  apply edit_ensures
  rw [appendChild_eq_attach]
  apply (attach_node_ensures _ builder.current child).mono
  · intro node last attached
    have same := attached.child_eq
    rw [same] at attached
    refine ⟨stands.attach offered attached, attached.lists_child Placement.isFair_atEnd, ?_⟩
    rw [attached.eq_of_node.2, kind?_of_shape? (shape?_setChildren _),
      kind?_of_shape? shape?_setParent, fresh.kind]
  · rintro _ rfl
    rfl

theorem append_ensures {node : Action NodeId} (stands : builder.Stands workspace.grove)
    (constructs : Ensures node workspace
      (fun id last => Enlarged workspace.grove last.grove ∧
        ∃ kind, Fresh workspace.grove kind id last.grove)
      (fun last => Enlarged workspace.grove last.grove)) :
    Ensures (builder.append node) workspace (fun next last => next.Stands last.grove)
      (fun last => Enlarged workspace.grove last.grove) := by
  rw [append]
  apply Ensures.bind
  apply constructs.mono
  · rintro child middle ⟨enlarged, kind, fresh⟩
    apply Ensures.bind
    apply (appendFresh_ensures (stands.enlarge enlarged) fresh).mono
    · rintro _ last ⟨after, _⟩
      exact ensures_pure after
    · rintro _ rfl
      exact enlarged
  · intro last enlarged
    exact enlarged

theorem element_ensures (name attributes content : Value)
    (stands : builder.Stands workspace.grove) :
    Ensures (builder.element name attributes content) workspace
      (fun next last => next.Stands last.grove)
      (fun last => Enlarged workspace.grove last.grove) := by
  rw [element]
  apply Ensures.bind
  apply (newTag_ensures name attributes content stands.sound).mono
  · rintro child middle ⟨enlarged, fresh⟩
    apply Ensures.bind
    apply (appendFresh_ensures (stands.enlarge enlarged) fresh).mono
    · rintro _ last ⟨after, listed, tag⟩
      exact ensures_pure (after.enter (isTag_iff_kind?.2 tag) listed)
    · rintro _ rfl
      exact enlarged
  · intro last enlarged
    exact enlarged

theorem elementOf_ensures (arguments : List Value) (stands : builder.Stands workspace.grove) :
    Ensures (builder.elementOf arguments) workspace (fun next last => next.Stands last.grove)
      (fun last => Enlarged workspace.grove last.grove) := by
  unfold elementOf
  split
  · exact element_ensures _ _ _ stands
  · exact element_ensures _ _ _ stands
  · exact element_ensures _ _ _ stands
  · exact ensures_throw (.refl _)

theorem appendToPrologue_ensures {node : Action NodeId} (stands : builder.Stands workspace.grove)
    (constructs : Ensures node workspace
      (fun id last => Enlarged workspace.grove last.grove ∧
        ∃ kind, Fresh workspace.grove kind id last.grove)
      (fun last => Enlarged workspace.grove last.grove)) :
    Ensures (builder.appendToPrologue node) workspace (fun next last => next.Stands last.grove)
      (fun last => builder.Stands last.grove) := by
  rw [appendToPrologue]
  apply Ensures.bind
  apply constructs.mono
  · rintro child middle ⟨enlarged, _⟩
    have between := stands.enlarge enlarged
    apply Ensures.bind
    apply edit_ensures
    rw [Prologue.append]
    apply Edit.Ensures.bind
    apply Prologue.requirePlaceable_precedes.mono
    · rintro _ _ ⟨rfl, precedes, _⟩
      apply Edit.Ensures.bind
      apply (requireDocument_ensures builder.document).mono
      · rintro document _ ⟨rfl, present⟩
        apply Edit.Ensures.bind
        apply Edit.ensures_get
        apply Edit.Ensures.bind
        rw [insertChild_eq_attach]
        apply (attach_node_ensures _ document.anchor child).mono
        · intro node last attached
          have same := attached.child_eq
          rw [same] at attached
          exact Edit.ensures_pure (ensures_pure (between.precede present precedes attached))
        · rintro _ rfl
          exact between
      · rintro _ rfl
        exact between
    · rintro _ rfl
      exact between
  · intro last enlarged
    exact stands.enlarge enlarged

/-! ## Calls -/

theorem call_ensures (method : String) (arguments : List Value)
    (stands : builder.Stands workspace.grove) :
    Ensures (builder.call method arguments) workspace (fun next last => next.Stands last.grove)
      (fun last => builder.Stands last.grove) := by
  have keeps : ∀ (workspace : Workspace) attributes, builder.Stands workspace.grove →
      builder.Stands (workspace.grove.setAttributes builder.current attributes) :=
    fun _ attributes stands => stands.setAttributes _ attributes
  have appends : ∀ {node : Action NodeId}, _ → Ensures (builder.append node) workspace
      (fun next last => next.Stands last.grove) (fun last => builder.Stands last.grove) :=
    fun constructs => (append_ensures stands constructs).mono (fun _ _ after => after)
      fun _ enlarged => stands.enlarge enlarged
  unfold call
  split
  · apply Ensures.bind
    apply (setAttribute_preserves _ _ keeps workspace stands).mono
    · intro _ last after
      exact ensures_pure after
    · intro last after
      exact after
  · apply Ensures.bind
    apply (updateAttributes_preserves _ keeps workspace stands).mono
    · intro _ last after
      exact ensures_pure after
    · intro last after
      exact after
  · exact appends (newLeaf_ensures _ _)
  · exact appends (newLeaf_ensures _ _)
  · exact appends (newLeaf_ensures _ _)
  · exact appends (newInstruction_ensures _ _)
  · exact appendToPrologue_ensures stands (newLeaf_ensures _ _)
  · exact appendToPrologue_ensures stands (newInstruction_ensures _ _)
  · apply (elementOf_ensures arguments stands).mono (fun _ _ after => after)
    intro last enlarged
    exact stands.enlarge enlarged
  · exact ensures_pure stands.leave
  all_goals exact ensures_throw stands

/-- The methods that append a node to the current one. -/
def appending : List String := ["element", "text", "comment", "cdata", "instruction"]

theorem call_appending_ensures {method : String} (arguments : List Value)
    (appends : method ∈ appending) (stands : builder.Stands workspace.grove) :
    Ensures (builder.call method arguments) workspace (fun _ _ => True)
      (fun last => Enlarged workspace.grove last.grove) := by
  have weaken : ∀ {activity : Action Builder}, Ensures activity workspace
      (fun next last => next.Stands last.grove) (fun last => Enlarged workspace.grove last.grove) →
      Ensures activity workspace (fun _ _ => True)
        (fun last => Enlarged workspace.grove last.grove) :=
    fun ensures => ensures.mono (fun _ _ _ => trivial) fun _ enlarged => enlarged
  unfold call
  split
  · simp [appending] at appends
  · simp [appending] at appends
  · exact weaken (append_ensures stands (newLeaf_ensures _ _))
  · exact weaken (append_ensures stands (newLeaf_ensures _ _))
  · exact weaken (append_ensures stands (newLeaf_ensures _ _))
  · exact weaken (append_ensures stands (newInstruction_ensures _ _))
  · simp [appending] at appends
  · simp [appending] at appends
  · exact weaken (elementOf_ensures arguments stands)
  · simp [appending] at appends
  all_goals exact ensures_throw (.refl _)

end Builder

end XmlGrove.Script
