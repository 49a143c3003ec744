import XmlGrove.Proofs.Document.Rendering
import XmlGrove.Proofs.Document.Reserve

/-!
# What is written of nodes and documents

What is written of a node depends on the tree that it shows, and what is written of a document on
the trees of its declaration and its nodes. Hence both are written the same way as long as nothing
is done to them, whatever becomes of everything else.
-/

namespace XmlGrove

open Grove Relation Script

variable {grove before after : Grove} {id clone : NodeId} {document : Document}

/-! ## What documents are written as -/

namespace Grove

theorem ShowsAlike.kind? (alike : ShowsAlike before after id clone) :
    after.kind? clone = before.kind? id := by
  rcases alike with ⟨tree, seen, shown⟩
  rw [kind_of_view? seen, kind_of_view? shown]

theorem ShowsAlike.isTag (alike : ShowsAlike before after id clone) :
    after.isTag clone = before.isTag id := by
  rw [Bool.eq_iff_iff, isTag_iff_kind?, isTag_iff_kind?, alike.kind?]

theorem ShowsAlike.leaf? (alike : ShowsAlike before after id clone) :
    after.leaf? clone = before.leaf? id := by
  rcases alike with ⟨tree, seen, shown⟩
  rw [Grove.leaf?, Grove.leaf?]
  cases tree with
  | leaf content => rw [view?_leaf seen, view?_leaf shown]
  | tag name attributes trees =>
      rcases view?_tag seen with ⟨former, present, -⟩
      rcases view?_tag shown with ⟨latter, kept, -⟩
      rw [present, kept]

theorem ShowsAlike.nodePieces (alike : ShowsAlike before after id clone)
    (indentation : Indentation) :
    indentation.nodePieces after clone = indentation.nodePieces before id := by
  cases indentation with
  | regular layout =>
      rcases alike with ⟨tree, seen, shown⟩
      rw [Indentation.nodePieces, Indentation.nodePieces, Grove.nodePieces, Grove.nodePieces, seen,
        shown]
  | void mark =>
      unfold Indentation.nodePieces
      rw [alike.leaf?]

variable {originals clones : List NodeId}

theorem standaloneLines_of_alike
    (each : List.Forall₂ (ShowsAlike before after) originals clones) :
    after.standaloneLines clones = before.standaloneLines originals := by
  induction each with
  | nil => rfl
  | cons first others induction =>
      rw [standaloneLines, standaloneLines, standaloneLine, standaloneLine, first.leaf?, induction]

/-- Which nodes precede the first tag, and which one that is, depends on what they show. -/
theorem prologue_and_root_of_alike
    (each : List.Forall₂ (ShowsAlike before after) originals clones) :
    List.Forall₂ (ShowsAlike before after) (originals.takeWhile fun node => !before.isTag node)
        (clones.takeWhile fun node => !after.isTag node) ∧
      Option.Rel (ShowsAlike before after) (originals.find? before.isTag)
        (clones.find? after.isTag) := by
  induction each with
  | nil => exact ⟨.nil, .none⟩
  | @cons original clone _ _ first others induction =>
      cases tag : before.isTag original with
      | true =>
          have tag' := first.isTag.trans tag
          rw [List.takeWhile_cons_of_neg (by simp [tag]),
            List.takeWhile_cons_of_neg (by simp [tag']), List.find?_cons_of_pos tag,
            List.find?_cons_of_pos tag']
          exact ⟨.nil, .some first⟩
      | false =>
          have tag' := first.isTag.trans tag
          rw [List.takeWhile_cons_of_pos (by simp [tag]),
            List.takeWhile_cons_of_pos (by simp [tag']), List.find?_cons_of_neg (by simp [tag]),
            List.find?_cons_of_neg (by simp [tag'])]
          exact ⟨.cons first induction.1, induction.2⟩

/-- A document is written as what its declaration and its nodes show. -/
theorem documentPieces_of_alike {id clone : DocumentId} {original copy : Document}
    (present : before.document? id = some original) (made : after.document? clone = some copy)
    (declared : Option.Rel (ShowsAlike before after) original.declaration copy.declaration)
    (each : List.Forall₂ (ShowsAlike before after) (before.anchoredNodes id)
      (after.anchoredNodes clone)) (indentation : Indentation) :
    indentation.documentPieces after clone = indentation.documentPieces before id := by
  cases indentation with
  | void mark => rfl
  | regular layout =>
      rcases prologue_and_root_of_alike each with ⟨preceding, root⟩
      have opening : List.Forall₂ (ShowsAlike before after)
          (original.declaration.toList ++ before.prologue id)
          (copy.declaration.toList ++ after.prologue clone) := by
        generalize original.declaration = former at declared ⊢
        generalize copy.declaration = latter at declared ⊢
        cases declared with
        | none => exact preceding
        | some alike => exact .cons alike preceding
      rw [Indentation.documentPieces, Indentation.documentPieces, Grove.documentPieces,
        Grove.documentPieces, present, made, Option.bind_some, Option.bind_some,
        standaloneLines_of_alike opening, documentRoot?, documentRoot?]
      generalize (before.anchoredNodes id).find? before.isTag = former at root ⊢
      generalize (after.anchoredNodes clone).find? after.isTag = latter at root ⊢
      cases root with
      | none => rfl
      | some alike =>
          have pieces := alike.nodePieces (.regular layout)
          rw [Indentation.nodePieces, Indentation.nodePieces] at pieces
          simp only [pieces]

end Grove

/-! ## Independence -/

namespace Grove

/-- A node is written the same way as long as nothing is done to it or to a node below it. -/
def IsSteady (grove : Grove) (id : NodeId) : Prop :=
  ∀ later, Continued (fun act _ =>
      act.Checks ∧ act.Avoids (ReflTransGen grove.Lists id) fun _ => False) grove later →
    ∀ indentation : Indentation,
      indentation.nodePieces later id = indentation.nodePieces grove id

/-- The declaration of a document, its anchor and what is below these. -/
def Constitutes (grove : Grove) (id : DocumentId) (node : NodeId) : Prop :=
  ∃ document, grove.document? id = some document ∧
    ∃ top, (document.declaration = some top ∨ document.anchor = top) ∧
      ReflTransGen grove.Lists top node

/-- A document is written the same way as long as nothing is done to it or to one of its nodes. -/
def IsSteadyDocument (grove : Grove) (id : DocumentId) : Prop :=
  ∀ later, Continued (fun act _ =>
      act.Checks ∧ act.Avoids (grove.Constitutes id) (· = id)) grove later →
    ∀ indentation : Indentation,
      indentation.documentPieces later id = indentation.documentPieces grove id

theorem isComplete_below {top node : NodeId} (visible : (grove.view? top).isSome = true)
    (way : ReflTransGen grove.Lists top node) : grove.IsComplete node := by
  apply isComplete_of_view?
  induction way with
  | refl => exact visible
  | tail _ listed induction => exact isSome_view?_of_lists induction listed

theorem IsComplete.anchored?_eq_none {node : NodeId} (complete : grove.IsComplete node) :
    grove.anchored? node = none := by
  rcases Option.isSome_iff_exists.1 complete.kind with ⟨kind, present⟩
  have plain := not_isAnchor_of_kind? present
  rwa [isAnchor, Option.isSome_eq_false_iff, Option.isNone_iff_eq_none] at plain

end Grove

section

variable (reached : Reached (fun act _ => act.Checks) grove)

include reached

theorem Reached.isSteady (visible : (grove.view? id).isSome = true) : grove.IsSteady id := by
  intro later continued indentation
  have sound := reached.sound_and_anchored.1
  let reserve : Reserve grove :=
    { nodes := ReflTransGen grove.Lists id
      documents := fun _ => False
      has := fun way => (isComplete_below visible way).has
      below := fun way listed => way.tail listed
      present := False.elim
      owner := fun way anchored => by
        rw [(isComplete_below visible way).anchored?_eq_none] at anchored
        cases anchored }
  have intact : reserve.Intact later := Continued.intact reached continued
  rcases Option.isSome_iff_exists.1 visible with ⟨tree, seen⟩
  have alike : ShowsAlike grove later id id :=
    ⟨tree, seen, view?_of_kept intact.size (fun other way => intact.node? other way) seen⟩
  exact alike.nodePieces indentation

theorem Reached.isSteadyDocument {id : DocumentId}
    (present : grove.document? id = some document)
    (declared : ∀ declaration, document.declaration = some declaration →
      (grove.view? declaration).isSome = true)
    (visible : ∀ node ∈ grove.anchoredNodes id, (grove.view? node).isSome = true) :
    grove.IsSteadyDocument id := by
  intro later continued indentation
  rcases reached.sound_and_anchored with ⟨sound, anchored⟩
  rw [anchoredNodes_eq present] at visible
  have anchor := anchored id document present
  -- Everything but the anchor can be viewed, hence there is no other anchor.
  have cases_of_constitutes : ∀ {node}, grove.Constitutes id node →
      node = document.anchor ∨ grove.IsComplete node := by
    rintro node ⟨other, known, top, part, way⟩
    rw [present] at known
    cases known
    rcases part with noted | rfl
    · exact .inr (isComplete_below (declared top noted) way)
    · rcases ReflTransGen.cases_head way with same | ⟨child, listed, further⟩
      · exact .inl same.symm
      · exact .inr (isComplete_below (visible child listed) further)
  let reserve : Reserve grove :=
    { nodes := grove.Constitutes id
      documents := (· = id)
      has := fun member => by
        rcases cases_of_constitutes member with rfl | complete
        · exact has_of_isAnchor (isAnchor_of_document? anchored present)
        · exact complete.has
      below := fun member listed => by
        rcases member with ⟨other, known, top, part, way⟩
        exact ⟨other, known, top, part, way.tail listed⟩
      present := fun same => by
        rw [same]
        exact (Array.getElem?_eq_some_iff.1 present).choose
      owner := fun member held => by
        rcases cases_of_constitutes member with rfl | complete
        · exact Option.some.inj (held.symm.trans anchor)
        · rw [complete.anchored?_eq_none] at held
          cases held }
  have intact : reserve.Intact later := Continued.intact reached continued
  have alike : ∀ node, (∃ top, (document.declaration = some top ∨ document.anchor = top) ∧
      ReflTransGen grove.Lists top node) → (grove.view? node).isSome = true →
      ShowsAlike grove later node node := by
    rintro node ⟨top, part, way⟩ seen
    rcases Option.isSome_iff_exists.1 seen with ⟨tree, shown⟩
    exact ⟨tree, shown, view?_of_kept intact.size (fun other further =>
      intact.node? other ⟨document, present, top, part, way.trans further⟩) shown⟩
  have kept : later.document? id = some document := (intact.document? id rfl).trans present
  apply documentPieces_of_alike present kept
  · cases noted : document.declaration with
    | none => exact .none
    | some declaration =>
        exact .some (alike declaration ⟨declaration, .inl noted, .refl⟩
          (declared declaration noted))
  · rw [anchoredNodes_eq present, anchoredNodes_eq kept, children_eq_of_node?
      (intact.node? document.anchor ⟨document, present, document.anchor, .inr rfl, .refl⟩)]
    apply List.forall₂_same.2
    intro node listed
    exact alike node ⟨document.anchor, .inr rfl, .single listed⟩ (visible node listed)

end

end XmlGrove
