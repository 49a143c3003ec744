import XmlGrove.Grove.Prologue
import XmlGrove.Proofs.Grove.Lineage
import XmlGrove.Proofs.Grove.Planting

/-!
# Changes of groves

All operations change a grove by the same few moves. What each of the moves preserves, a whole
operation does.
-/

namespace XmlGrove

namespace Grove

open Relation

variable {grove changed start middle last : Grove} {id child parent : NodeId} {safe loose : Prop}

/-- The grove with another document, the anchor of which is the next node. -/
def enter (grove : Grove) (document : Document) : Grove :=
  { grove.add ⟨.anchor ⟨grove.documents.size⟩ [], none⟩ with
    documents := grove.documents.push document }

/-- A node that may be handed to an operation, which anchors may not. -/
def Offers (grove : Grove) (id : NodeId) : Prop := grove.Has id ∧ grove.isAnchor id = false

/-- Documents have an anchor, and it is an anchor of that document. -/
def Anchored (grove : Grove) : Prop :=
  ∀ id document, grove.document? id = some document → grove.anchored? document.anchor = some id

/-- The moves that operations are made of. The links that safe ones make do not close cycles. -/
inductive Moves (safe : Prop) (start : Grove) : Grove → Prop
  | none : Moves safe start start
  | graft {grove last : Grove} {base : Nat} {held : List NodeId} (moves : Moves safe start grove)
      (grafted : Grafted base held grove last)
      (older : ∀ {child parent}, grove.Link child parent → child.index < base) :
      Moves safe start last
  | link {grove : Grove} {child parent : NodeId} (moves : Moves safe start grove)
      (has : grove.Has child) (free : grove.parentLink? child = none)
      (bears : grove.Bears parent)
      (acyclic : safe → grove.Acyclic → (grove.setParent child (some parent)).Acyclic) :
      Moves safe start (grove.setParent child (some parent))
  | relist {grove : Grove} {parent : NodeId} {previous children : List NodeId}
      (moves : Moves safe start grove) (present : grove.childList? parent = some previous)
      (linked : ∀ child ∈ children, grove.parentLink? child = some parent)
      (distinct : children.Nodup) : Moves safe start (grove.setChildren parent children)
  | prune {grove changed : Grove} {parent : NodeId} {removed : List NodeId}
      (moves : Moves safe start grove) (pruned : Pruned grove changed parent removed) :
      Moves safe start changed
  | enter {grove : Grove} {document : Document} (moves : Moves safe start grove)
      (anchor : document.anchor = grove.nextId) : Moves safe start (grove.enter document)
  | note {grove : Grove} {id : DocumentId} {change : Document → Document}
      (moves : Moves safe start grove)
      (same : ∀ document, (change document).anchor = document.anchor) :
      Moves safe start (grove.modifyDocument id change)

namespace Moves

theorem trans (former : Moves safe start middle) (latter : Moves safe middle last) :
    Moves safe start last := by
  induction latter with
  | none => exact former
  | graft moves grafted older induction => exact induction.graft grafted older
  | link moves has free bears acyclic induction => exact induction.link has free bears acyclic
  | relist moves present linked distinct induction =>
      exact induction.relist present linked distinct
  | prune moves pruned induction => exact induction.prune pruned
  | enter moves anchor induction => exact induction.enter anchor
  | note moves same induction => exact induction.note same

theorem mono {safer : Prop} (moves : Moves safer start last) (implies : safe → safer) :
    Moves safe start last := by
  induction moves with
  | none => exact .none
  | graft moves grafted older induction => exact induction.graft grafted older
  | link moves has free bears acyclic induction =>
      exact induction.link has free bears fun holds => acyclic (implies holds)
  | relist moves present linked distinct induction =>
      exact induction.relist present linked distinct
  | prune moves pruned induction => exact induction.prune pruned
  | enter moves anchor induction => exact induction.enter anchor
  | note moves same induction => exact induction.note same

/-! ## What moves preserve -/

theorem shape? (moves : Moves safe start last) (has : start.Has id) :
    last.shape? id = start.shape? id := by
  induction moves with
  | none => rfl
  | graft moves grafted older induction =>
      rw [← induction]
      apply shape?_of_node?
      exact grafted.node? ((has_of_shape? induction).2 has)
  | link moves has' free bears acyclic induction => rw [shape?_setParent, induction]
  | relist moves present linked distinct induction => rw [shape?_setChildren, induction]
  | prune moves pruned induction => rw [pruned.shape, induction]
  | enter moves anchor induction =>
      rw [← induction]
      apply shape?_of_node?
      exact node?_add_of_has ((has_of_shape? induction).2 has)
  | note moves same induction => exact induction

theorem has (moves : Moves safe start last) (has : start.Has id) : last.Has id :=
  (has_of_shape? (moves.shape? has)).2 has

theorem offers (moves : Moves safe start last) (offered : start.Offers id) : last.Offers id := by
  refine ⟨moves.has offered.1, ?_⟩
  rw [isAnchor_of_shape? (moves.shape? offered.1)]
  exact offered.2

theorem sound (moves : Moves safe start last) (sound : start.Sound) : last.Sound := by
  induction moves with
  | none => exact sound
  | graft moves grafted older induction => exact grafted.sound induction
  | link moves has free bears acyclic induction => exact induction.link has free bears
  | relist moves present linked distinct induction =>
      exact (relisted_setChildren present).sound induction linked distinct
  | prune moves pruned induction => exact pruned.sound induction
  | @enter grove document moves anchor induction =>
      have added := induction.add (.anchor ⟨grove.documents.size⟩ []) rfl
      exact ⟨added.target, added.listed, added.nodup⟩
  | note moves same induction => exact ⟨induction.target, induction.listed, induction.nodup⟩

theorem acyclic (moves : Moves safe start last) (holds : safe) (acyclic : start.Acyclic) :
    last.Acyclic := by
  induction moves with
  | none => exact acyclic
  | graft moves grafted older induction => exact grafted.acyclic older induction
  | link moves has free bears acyclic induction => exact acyclic holds induction
  | relist moves present linked distinct induction =>
      apply induction.of_link
      intro child owner link
      rw [Link, parentLink?_setChildren] at link
      exact link
  | prune moves pruned induction =>
      apply induction.of_link
      intro child owner link
      exact (pruned.link_of_link link).2
  | enter moves anchor induction =>
      apply induction.of_link
      intro child owner link
      exact parentLink?_add_free.symm.trans link
  | note moves same induction => exact induction

end Moves

theorem childList?_of_anchored? {document : DocumentId}
    (anchored : grove.anchored? id = some document) : (grove.childList? id).isSome = true := by
  rw [anchored?_eq_shape?] at anchored
  rw [isSome_childList?_eq_shape?]
  split at anchored
  · rename_i shape
    rw [shape]
  · cases anchored

theorem has_of_anchored? {document : DocumentId} (anchored : grove.anchored? id = some document) :
    grove.Has id := by
  rcases Option.isSome_iff_exists.1 (childList?_of_anchored? anchored) with ⟨children, listed⟩
  exact has_of_childList? listed

theorem Anchored.of_shape? (anchored : grove.Anchored)
    (documents : changed.documents = grove.documents)
    (shape : ∀ id, grove.Has id → changed.shape? id = grove.shape? id) : changed.Anchored := by
  intro id document present
  rw [document?, documents] at present
  have found := anchored id document present
  rw [anchored?_of_shape? (shape _ (has_of_anchored? found))]
  exact found

theorem Anchored.enter {document : Document} (anchored : grove.Anchored)
    (anchor : document.anchor = grove.nextId) : (grove.enter document).Anchored := by
  intro id other present
  rw [document?, Grove.enter, Array.getElem?_push] at present
  split at present
  · rename_i last
    cases present
    have node : (grove.enter document).node? grove.nextId =
        some (.anchor ⟨grove.documents.size⟩ []) :=
      (node?_add _).trans (if_pos rfl)
    rw [anchor, anchored?, node, ← last]
  · have found := anchored id other present
    have same : (grove.enter document).shape? other.anchor = grove.shape? other.anchor :=
      shape?_of_node? (node?_add_of_has (has_of_anchored? found))
    rw [anchored?_of_shape? same]
    exact found

theorem Anchored.note {id : DocumentId} {change : Document → Document} (anchored : grove.Anchored)
    (same : ∀ document, (change document).anchor = document.anchor) :
    (grove.modifyDocument id change).Anchored := by
  intro other document present
  rw [document?, modifyDocument, Array.getElem?_modify] at present
  split at present
  · rcases Option.map_eq_some_iff.1 present with ⟨before, found, rfl⟩
    rw [same]
    exact anchored other before found
  · exact anchored other document present

theorem Moves.anchored (moves : Moves safe start last) (anchored : start.Anchored) :
    last.Anchored := by
  induction moves with
  | none => exact anchored
  | graft moves grafted older induction =>
      apply Anchored.of_shape? induction grafted.documents
      intro id has
      exact shape?_of_node? (grafted.node? has)
  | link moves has free bears acyclic induction =>
      exact Anchored.of_shape? induction rfl fun _ _ => shape?_setParent
  | relist moves present linked distinct induction =>
      exact Anchored.of_shape? induction rfl fun id _ => shape?_setChildren _
  | prune moves pruned induction =>
      exact Anchored.of_shape? induction pruned.documents fun id _ => pruned.shape id
  | enter moves anchor induction => exact Anchored.enter induction anchor
  | note moves same induction => exact Anchored.note induction same

/-! ## Changes -/

/-- What an operation did to a grove: it made moves, and unless it is a loose one, it left no
link loose. -/
structure Changed (safe loose : Prop) (start last : Grove) : Prop where
  moves : Moves safe start last
  tight : ¬ loose → Tight start last

theorem Changed.none : Changed safe loose start start :=
  ⟨.none, fun _ => .refl start⟩

theorem Changed.trans (former : Changed safe loose start middle)
    (latter : Changed safe loose middle last) : Changed safe loose start last :=
  ⟨former.moves.trans latter.moves, fun orderly =>
    (former.tight orderly).trans (latter.tight orderly)⟩

theorem Changed.mono {safer tighter : Prop} (changed : Changed safer tighter start last)
    (implies : safe → safer) (implied : tighter → loose) : Changed safe loose start last :=
  ⟨changed.moves.mono implies, fun orderly => changed.tight fun holds => orderly (implied holds)⟩

end Grove

open Grove

variable {grove : Grove}

/-- An operation makes safe moves and leaves no link loose, whether it succeeds or not. -/
def Edit.Orderly (operation : Edit α) (grove : Grove) : Prop :=
  Edit.Ensures operation grove (fun _ last => Changed True False grove last)
    (Changed True False grove)

namespace Edit

theorem orderly_pure (value : α) : Orderly (pure value) grove := Changed.none

theorem orderly_throw (fault : Fault) : Orderly (throw fault : Edit α) grove := Changed.none

theorem Orderly.bind {first : Edit α} {next : α → Edit β}
    (former : Ensures first grove
      (fun value middle => Changed True False grove middle ∧ Orderly (next value) middle)
      (Changed True False grove)) : Orderly (first >>= next) grove := by
  apply Ensures.bind
  apply former.mono
  · rintro value middle ⟨changed, latter⟩
    apply latter.mono
    · intro result last further
      exact changed.trans further
    · intro last further
      exact changed.trans further
  · intro last changed
    exact changed

/-- An operation that only looks at the grove, and another one after it. -/
theorem Orderly.bind_looking {first : Edit α} {next : α → Edit β}
    (looks : Ensures first grove (fun value last => last = grove ∧ Orderly (next value) grove)
      (fun last => last = grove)) : Orderly (first >>= next) grove := by
  apply Ensures.bind
  apply looks.mono
  · rintro value _ ⟨rfl, latter⟩
    exact latter
  · rintro _ rfl
    exact Changed.none

end Edit

end XmlGrove
