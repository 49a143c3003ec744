import XmlGrove.Proofs.Grove.Attachment

/-!
# Attaching several sources

The operations that attach sources differ in where they place a child and in whether they clone
nodes. All take their sources one after the other, and stop at the first one that is refused.
-/

namespace XmlGrove

open Grove

variable {grove middle last : Grove} {id child parent : NodeId} {source : Source}
  {sources : List Source}

/-- A source or, if it is a node, a clone of it, when clones are asked for. -/
def clonedSource (cloned : Bool) (source : Source) : Edit Source :=
  if cloned then cloneSource source else pure source

/-- Attach a source, or a clone of it. -/
def attachNext (placement : Placement) (cloned : Bool) (parent : NodeId) (source : Source) :
    Edit NodeId := do
  let source ← clonedSource cloned source
  attach placement parent source

theorem attachNext_false (placement : Placement) (parent : NodeId) (source : Source) :
    attachNext placement false parent source = attach placement parent source := rfl

/-- Attach sources, or clones of them, one after the other. -/
def attachEach (placement : Placement) (cloned : Bool) (parent : NodeId) :
    List Source → Edit (List NodeId)
  | [] => return []
  | first :: rest => do
    let child ← attachNext placement cloned parent first
    let others ← attachEach placement cloned parent rest
    return child :: others

theorem appendChildren_eq_attachEach (parent : NodeId) (sources : List Source) :
    appendChildren parent sources = attachEach .atEnd false parent sources := by
  induction sources with
  | nil => rfl
  | cons first rest induction =>
      rw [appendChildren, attachEach, induction]
      rfl

theorem appendClones_eq_attachEach (parent : NodeId) (sources : List Source) :
    appendClones parent sources = attachEach .atEnd true parent sources := by
  induction sources with
  | nil => rfl
  | cons first rest induction =>
      rw [appendClones, attachEach, induction, attachNext, bind_assoc]
      rfl

theorem insertEach_eq_attachEach (parent : NodeId) (index : Int) (sources : List Source) :
    insertEach parent index sources = attachEach (.atIndex index) false parent sources := by
  induction sources with
  | nil => rfl
  | cons first rest induction =>
      rw [insertEach, attachEach, induction]
      rfl

theorem insertEachClone_eq_attachEach (parent : NodeId) (index : Int) (sources : List Source) :
    insertEachClone parent index sources = attachEach (.atIndex index) true parent sources := by
  induction sources with
  | nil => rfl
  | cons first rest induction =>
      rw [insertEachClone, attachEach, induction, attachNext, bind_assoc]
      rfl

/-! ## The next source -/

theorem Constructed.offers {held : List NodeId} (constructed : Constructed grove held child last) :
    last.Offers child :=
  ⟨constructed.has, constructed.grafted.isAnchor_of_added constructed.added⟩

theorem clonedSource_ensures (cloned : Bool) (source : Source) (parent : NodeId)
    (sound : grove.Sound) (offered : ∀ id ∈ source.nodes, grove.Offers id) :
    Edit.Ensures (clonedSource cloned source) grove
      (fun ready middle => (∃ held, Abandoned grove held middle) ∧
        (∀ id ∈ ready.nodes, middle.Offers id) ∧
        (ready.HoldsTop middle parent ↔ source.HoldsTop grove parent))
      (fun last => last = grove) := by
  rw [clonedSource]
  apply Edit.ensures_ite
  · intro _
    cases source with
    | node id =>
        apply Edit.Ensures.bind
        apply (cloneNode_ensures true id grove sound).mono
        · intro clone middle constructed
          apply Edit.ensures_pure
          refine ⟨⟨[], constructed.grafted, constructed.tight⟩, ?_, ?_⟩
          · intro other member
            rw [Source.nodes, List.mem_singleton] at member
            rw [member]
            exact constructed.offers
          · constructor
            · rintro ⟨definition, equal, _⟩
              cases equal
            · rintro ⟨definition, equal, _⟩
              cases equal
        · intro last same
          exact same
    | text content => exact Edit.ensures_pure ⟨⟨[], .none, .refl _⟩, offered, Iff.rfl⟩
    | template definition => exact Edit.ensures_pure ⟨⟨[], .none, .refl _⟩, offered, Iff.rfl⟩
    | unfit => exact Edit.ensures_pure ⟨⟨[], .none, .refl _⟩, offered, Iff.rfl⟩
  · intro _
    exact Edit.ensures_pure ⟨⟨[], .none, .refl _⟩, offered, Iff.rfl⟩

/-- A change that adds links and keeps all that there are. -/
structure Extended (safe : Prop) (before after : Grove) : Prop where
  changed : Changed safe False before after
  keeps : ∀ {child owner}, before.Link child owner → after.Link child owner

theorem Extended.trans {safe : Prop} (former : Extended safe grove middle)
    (latter : Extended safe middle last) : Extended safe grove last :=
  ⟨former.changed.trans latter.changed, fun link => latter.keeps (former.keeps link)⟩

theorem Extended.mono {safe safer : Prop} (extended : Extended safer grove last)
    (implies : safe → safer) : Extended safe grove last :=
  ⟨extended.changed.mono implies id, extended.keeps⟩

theorem Abandoned.extended {held : List NodeId} {safe : Prop}
    (abandoned : Abandoned grove held last) : Extended safe grove last :=
  ⟨abandoned.changed, abandoned.grafted.link_of_link⟩

theorem attachNext_ensures {placement : Placement} (fair : placement.IsFair) (cloned : Bool)
    (parent : NodeId) (source : Source) (sound : grove.Sound)
    (offered : ∀ id ∈ source.nodes, grove.Offers id) :
    Edit.Ensures (attachNext placement cloned parent source) grove
      (fun _ last => Extended (¬ source.HoldsTop grove parent) grove last ∧
        (source.HoldsTop grove parent → ¬ last.Acyclic))
      (Extended True grove) := by
  rw [attachNext]
  apply Edit.Ensures.bind
  apply (clonedSource_ensures cloned source parent sound offered).mono
  · rintro ready middle ⟨⟨held, abandoned⟩, usable, same⟩
    have sound := abandoned.grafted.sound sound
    apply (attach_ensures placement parent ready sound fun id member => (usable id member).1).mono
    · intro child last attached
      constructor
      · have extended : Extended (¬ ready.HoldsTop middle parent) middle last :=
          ⟨attached.changed fair sound usable, attached.link_of_link usable⟩
        rw [same] at extended
        exact abandoned.extended.trans extended
      · rw [← same]
        exact attached.not_acyclic sound
    · intro last failed
      exact abandoned.extended.trans failed.extended
  · rintro last rfl
    exact ⟨.none, fun link => link⟩

/-! ## All sources -/

/-- One of several sources holds, when it is its turn and it is attached, the topmost node above
the parent. -/
inductive ClosesCycle (placement : Placement) (cloned : Bool) (parent : NodeId) :
    Grove → List Source → Prop
  | here {grove last : Grove} {child : NodeId} {source : Source} {rest : List Source}
      (attached : (attachNext placement cloned parent source).outcome grove = (.ok child, last))
      (holds : source.HoldsTop grove parent) :
      ClosesCycle placement cloned parent grove (source :: rest)
  | later {grove middle : Grove} {child : NodeId} {source : Source} {rest : List Source}
      (attached : (attachNext placement cloned parent source).outcome grove = (.ok child, middle))
      (closes : ClosesCycle placement cloned parent middle rest) :
      ClosesCycle placement cloned parent grove (source :: rest)

theorem attachEach_ensures {placement : Placement} (fair : placement.IsFair) (cloned : Bool)
    (parent : NodeId) (sources : List Source) (sound : grove.Sound)
    (offered : ∀ id ∈ Source.allNodes sources, grove.Offers id) :
    Edit.Ensures (attachEach placement cloned parent sources) grove
      (fun _ last => Extended (¬ ClosesCycle placement cloned parent grove sources) grove last)
      (Extended (¬ ClosesCycle placement cloned parent grove sources) grove) := by
  induction sources generalizing grove with
  | nil => exact Edit.ensures_pure ⟨.none, fun link => link⟩
  | cons first rest induction =>
      rw [attachEach]
      apply Edit.Ensures.bind
      apply (attachNext_ensures fair cloned parent first sound fun id member =>
        offered id (List.mem_append_left _ member)).with_outcome.mono
      · rintro child middle ⟨⟨extended, _⟩, attached⟩
        have former : Extended (¬ ClosesCycle placement cloned parent grove (first :: rest))
            grove middle := extended.mono fun avoids holds => avoids (.here attached holds)
        apply Edit.Ensures.bind
        apply (induction (extended.changed.moves.sound sound) fun id member =>
          extended.changed.moves.offers (offered id (List.mem_append_right _ member))).mono
        · intro children last latter
          apply Edit.ensures_pure
          exact former.trans (latter.mono fun avoids closes => avoids (.later attached closes))
        · intro last latter
          exact former.trans (latter.mono fun avoids closes => avoids (.later attached closes))
      · rintro last ⟨extended, _⟩
        exact extended.mono fun _ => trivial

theorem after_attachEach {placement : Placement} {cloned : Bool}
    (attached : (attachNext placement cloned parent source).outcome grove = (.ok child, middle)) :
    (attachEach placement cloned parent (source :: sources)).after grove =
      (attachEach placement cloned parent sources).after middle := by
  rw [attachEach, Edit.after_bind_of_ok attached, Edit.after_bind_pure]

theorem ClosesCycle.not_acyclic {placement : Placement} (fair : placement.IsFair) {cloned : Bool}
    (closes : ClosesCycle placement cloned parent grove sources) (sound : grove.Sound)
    (offered : ∀ id ∈ Source.allNodes sources, grove.Offers id) :
    ¬ ((attachEach placement cloned parent sources).after grove).Acyclic := by
  -- Once there is a cycle it stays, because the sources that are left only add links.
  induction closes with
  | @here grove middle child source rest attached holds =>
      have next := (attachNext_ensures fair cloned parent source sound fun id member =>
        offered id (List.mem_append_left _ member)).of_ok attached
      have moves := next.1.changed.moves
      have others := (attachEach_ensures fair cloned parent rest (moves.sound sound)
        fun id member => moves.offers (offered id (List.mem_append_right _ member))).after
      rw [after_attachEach attached]
      intro acyclic
      exact next.2 holds (acyclic.of_link fun _ _ => others.keeps)
  | @later grove middle child source rest attached closes induction =>
      have next := (attachNext_ensures fair cloned parent source sound fun id member =>
        offered id (List.mem_append_left _ member)).of_ok attached
      have moves := next.1.changed.moves
      rw [after_attachEach attached]
      exact induction (moves.sound sound) fun id member =>
        moves.offers (offered id (List.mem_append_right _ member))

theorem not_closesCycle {placement : Placement} {cloned : Bool}
    (plain : ∀ source ∈ sources, ∀ definition, source ≠ .template definition) :
    ¬ ClosesCycle placement cloned parent grove sources := by
  intro closes
  induction closes with
  | here attached holds =>
      rcases holds with ⟨definition, equal, _⟩
      exact plain _ List.mem_cons_self definition equal
  | later attached closes induction =>
      exact induction fun source member => plain source (List.mem_cons_of_mem _ member)

/-! ## Sources at an index -/

/-- The index that sources are inserted at, if it is in range. -/
def insertionIndex? (size : Nat) (index : Int) : Option Int :=
  if index < -size || size < index then none
  else some (if index < 0 then index + size else index)

/-- Insert sources, or clones of them, at an index. -/
def insertEachAt (cloned : Bool) (parent : NodeId) (index : Int) (sources : List Source) :
    Edit (List NodeId) := do
  match insertionIndex? (← requireChildren parent).length index with
  | none => throw .insertionOutOfRange
  | some position =>
    let inserted ← attachEach (.atIndex position) cloned parent sources.reverse
    return inserted.reverse

theorem insertChildren_eq_insertEachAt (parent : NodeId) (index : Int) (sources : List Source) :
    insertChildren parent index sources = insertEachAt false parent index sources := by
  rw [insertChildren, insertEachAt]
  congr 1
  funext children
  simp only [insertEach_eq_attachEach]
  rw [insertionIndex?]
  by_cases outside : (index < -children.length || children.length < index) = true
  · rw [if_pos outside, if_pos outside]
    rfl
  · rw [if_neg outside, if_neg outside]

theorem insertClones_eq_insertEachAt (parent : NodeId) (index : Int) (sources : List Source) :
    insertClones parent index sources = insertEachAt true parent index sources := by
  rw [insertClones, insertEachAt]
  congr 1
  funext children
  simp only [insertEachClone_eq_attachEach]
  rw [insertionIndex?]
  by_cases outside : (index < -children.length || children.length < index) = true
  · rw [if_pos outside, if_pos outside]
    rfl
  · rw [if_neg outside, if_neg outside]

/-- One of several sources that are inserted closes a cycle. -/
def ClosesCycleAt (cloned : Bool) (parent : NodeId) (index : Int) (grove : Grove)
    (sources : List Source) : Prop :=
  ∃ children position, grove.childList? parent = some children ∧
    insertionIndex? children.length index = some position ∧
    ClosesCycle (.atIndex position) cloned parent grove sources.reverse

theorem mem_allNodes : id ∈ Source.allNodes sources ↔ ∃ source ∈ sources, id ∈ source.nodes := by
  induction sources with
  | nil => simp [Source.allNodes]
  | cons first rest induction => simp [Source.allNodes, induction]

theorem insertEachAt_ensures (cloned : Bool) (parent : NodeId) (index : Int)
    (sources : List Source) (sound : grove.Sound)
    (offered : ∀ id ∈ Source.allNodes sources, grove.Offers id) :
    Edit.Ensures (insertEachAt cloned parent index sources) grove
      (fun _ last => Extended (¬ ClosesCycleAt cloned parent index grove sources) grove last)
      (Extended (¬ ClosesCycleAt cloned parent index grove sources) grove) := by
  have unchanged : ∀ safe, Extended safe grove grove := fun safe => ⟨.none, fun link => link⟩
  rw [insertEachAt]
  apply Edit.Ensures.bind
  apply (requireChildren_ensures parent grove).mono
  · rintro children _ ⟨rfl, listed⟩
    split
    · exact Edit.ensures_throw (unchanged _)
    · rename_i position found
      apply Edit.Ensures.bind
      apply (attachEach_ensures (Placement.isFair_atIndex position) cloned parent sources.reverse
        sound _).mono
      · intro inserted last extended
        apply Edit.ensures_pure
        exact extended.mono fun avoids closes => avoids ⟨children, position, listed, found, closes⟩
      · intro last extended
        exact extended.mono fun avoids closes => avoids ⟨children, position, listed, found, closes⟩
      · intro id member
        rcases mem_allNodes.1 member with ⟨source, listed, held⟩
        exact offered id (mem_allNodes.2 ⟨source, List.mem_reverse.1 listed, held⟩)
  · rintro _ rfl
    exact unchanged _

theorem ClosesCycleAt.not_acyclic {cloned : Bool} {index : Int}
    (closes : ClosesCycleAt cloned parent index grove sources) (sound : grove.Sound)
    (offered : ∀ id ∈ Source.allNodes sources, grove.Offers id) :
    ¬ ((insertEachAt cloned parent index sources).after grove).Acyclic := by
  rcases closes with ⟨children, position, listed, found, cycle⟩
  have looked : (requireChildren parent).outcome grove = (.ok children, grove) := by
    rw [requireChildren, Edit.outcome_bind_of_ok (Edit.outcome_get grove), listed]
    rfl
  rw [insertEachAt, Edit.after_bind_of_ok looked, found, Edit.after_bind_pure]
  apply cycle.not_acyclic (Placement.isFair_atIndex position) sound
  intro id member
  rcases mem_allNodes.1 member with ⟨source, listed, held⟩
  exact offered id (mem_allNodes.2 ⟨source, List.mem_reverse.1 listed, held⟩)

end XmlGrove
