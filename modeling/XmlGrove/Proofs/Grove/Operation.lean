import XmlGrove.Proofs.Grove.PrologueChange

/-!
# Operations and reachable groves

The operations on nodes and documents that change who is whose child, and the groves that
sequences of them lead to. What goes wrong is told apart by two conditions: an operation closes a
cycle, or it is given up and leaves a link loose. All other operations are orderly.
-/

namespace XmlGrove

open Grove

/-- An operation on nodes or documents. Children are prepended at the index zero, and what a
parser or a loader makes is planted. -/
inductive Operation where
  | createLeaf (content : Leaf)
  | createTag (name : GivenName) (attributes : List (GivenName × Option String))
      (sources : List Source)
  | plant (tree : Tree)
  | clone (deep : Bool) (id : NodeId)
  | append (cloned : Bool) (parent : NodeId) (sources : List Source)
  | insert (cloned : Bool) (parent : NodeId) (index : Int) (sources : List Source)
  | detach (id : NodeId)
  | deleteChild (parent : NodeId) (index : Int)
  | removeChild (parent child : NodeId)
  | removeChildAt (parent : NodeId) (index : Int)
  | clearChildren (parent : NodeId)
  | setTextContent (parent : NodeId) (content : Option String)
  | createDocument (parts : DocumentParts)
  | cloneDocument (id : DocumentId)
  | setRoot (id : DocumentId) (root : NodeId)
  | appendToPrologue (id : DocumentId) (node : NodeId)
  | insertIntoPrologue (id : DocumentId) (index : Int) (node : NodeId)
  | prependToPrologue (id : DocumentId) (node : NodeId)
  | removeFromPrologue (id : DocumentId) (node : NodeId)
  | clearPrologue (id : DocumentId)

namespace Operation

/-- The grove after an operation, whether that succeeded or raised a fault. -/
def apply (operation : Operation) (grove : Grove) : Grove :=
  match operation with
  | createLeaf content => (XmlGrove.createLeaf content).after grove
  | createTag name attributes sources => (XmlGrove.createTag name attributes sources).after grove
  | plant tree => (XmlGrove.plant tree).after grove
  | clone deep id => (cloneNode deep id).after grove
  | append false parent sources => (appendChildren parent sources).after grove
  | append true parent sources => (appendClones parent sources).after grove
  | insert false parent index sources => (insertChildren parent index sources).after grove
  | insert true parent index sources => (insertClones parent index sources).after grove
  | detach id => (XmlGrove.detach id).after grove
  | deleteChild parent index => (XmlGrove.deleteChild parent index).after grove
  | removeChild parent child => (removeChild? parent child).after grove
  | removeChildAt parent index => (removeChildAt? parent index).after grove
  | clearChildren parent => (XmlGrove.clearChildren parent).after grove
  | setTextContent parent content => (XmlGrove.setTextContent parent content).after grove
  | createDocument parts => (XmlGrove.createDocument parts).after grove
  | cloneDocument id => (XmlGrove.cloneDocument id).after grove
  | setRoot id root => (XmlGrove.setRoot id root).after grove
  | appendToPrologue id node => (Prologue.append id node).after grove
  | insertIntoPrologue id index node => (Prologue.insert id index node).after grove
  | prependToPrologue id node => (Prologue.prepend id node).after grove
  | removeFromPrologue id node => (Prologue.remove id node).after grove
  | clearPrologue id => (Prologue.clear id).after grove

/-- The nodes that an operation is handed. -/
def nodes : Operation → List NodeId
  | createTag _ _ sources => Source.allNodes sources
  | append _ parent sources | insert _ parent _ sources => parent :: Source.allNodes sources
  | clone _ id | detach id => [id]
  | removeChild parent child => [parent, child]
  | deleteChild parent _ | removeChildAt parent _ | clearChildren parent
  | setTextContent parent _ => [parent]
  | createDocument parts => Source.allNodes parts.sources
  | setRoot _ root => [root]
  | appendToPrologue _ node | insertIntoPrologue _ _ node | prependToPrologue _ node
  | removeFromPrologue _ node => [node]
  | createLeaf _ | plant _ | cloneDocument _ | clearPrologue _ => []

/-- An operation is handed existing nodes. Anchors are never handed out. -/
def Available (operation : Operation) (grove : Grove) : Prop :=
  ∀ id ∈ operation.nodes, grove.Offers id

/-- An operation attaches, when its turn comes, a template that holds the topmost node above the
parent. -/
def ClosesCycle (operation : Operation) (grove : Grove) : Prop :=
  match operation with
  | append cloned parent sources => XmlGrove.ClosesCycle .atEnd cloned parent grove sources
  | insert cloned parent index sources => ClosesCycleAt cloned parent index grove sources
  | _ => False

/-- An operation adopts a node below a document's anchor, and then it is given up. -/
def GivenUp (operation : Operation) (grove : Grove) : Prop :=
  match operation with
  | createDocument parts => parts.GivenUp grove
  | insertIntoPrologue id index node => Prologue.GivenUp id index node grove
  | _ => False

variable {operation : Operation} {grove : Grove}

theorem append_eq_attachEach (cloned : Bool) (parent : NodeId) (sources : List Source) :
    (append cloned parent sources).apply grove =
      (attachEach .atEnd cloned parent sources).after grove := by
  cases cloned with
  | false => rw [apply, appendChildren_eq_attachEach]
  | true => rw [apply, appendClones_eq_attachEach]

theorem insert_eq_insertEachAt (cloned : Bool) (parent : NodeId) (index : Int)
    (sources : List Source) : (insert cloned parent index sources).apply grove =
      (insertEachAt cloned parent index sources).after grove := by
  cases cloned with
  | false => rw [apply, insertChildren_eq_insertEachAt]
  | true => rw [apply, insertClones_eq_insertEachAt]

theorem changed_of_orderly {edit : Edit α} {safe loose : Prop} (orderly : edit.Orderly grove) :
    Changed safe loose grove (edit.after grove) :=
  (Edit.Ensures.after orderly).mono (fun _ => trivial) False.elim

/-- What an operation did to a grove, unless it is one of those that close a cycle or leave a link
loose. -/
theorem changed (operation : Operation) (sound : grove.Sound) (anchored : grove.Anchored)
    (available : operation.Available grove) :
    Changed (¬ operation.ClosesCycle grove) (operation.GivenUp grove) grove
      (operation.apply grove) := by
  cases operation with
  | createLeaf content => exact changed_of_orderly (orderly_createLeaf content sound)
  | createTag name attributes sources =>
      exact changed_of_orderly (orderly_createTag name attributes sources sound available)
  | plant tree => exact changed_of_orderly (orderly_plant tree sound)
  | clone deep id => exact changed_of_orderly (orderly_cloneNode deep id sound)
  | append cloned parent sources =>
      rw [append_eq_attachEach]
      have offered : ∀ id ∈ Source.allNodes sources, grove.Offers id :=
        fun id member => available id (List.mem_cons_of_mem _ member)
      exact (attachEach_ensures Placement.isFair_atEnd cloned parent sources sound
        offered).after.changed
  | insert cloned parent index sources =>
      rw [insert_eq_insertEachAt]
      have offered : ∀ id ∈ Source.allNodes sources, grove.Offers id :=
        fun id member => available id (List.mem_cons_of_mem _ member)
      exact (insertEachAt_ensures cloned parent index sources sound offered).after.changed
  | detach id => exact changed_of_orderly (orderly_detach id sound)
  | deleteChild parent index => exact changed_of_orderly (orderly_deleteChild parent index sound)
  | removeChild parent child => exact changed_of_orderly (orderly_removeChild? parent child sound)
  | removeChildAt parent index =>
      exact changed_of_orderly (orderly_removeChildAt? parent index sound)
  | clearChildren parent => exact changed_of_orderly (orderly_clearChildren parent sound)
  | setTextContent parent content =>
      exact changed_of_orderly (orderly_setTextContent parent content sound)
  | createDocument parts =>
      exact (createDocument_ensures parts sound available).after.mono (fun _ => trivial)
        fun given => given
  | cloneDocument id => exact changed_of_orderly (orderly_cloneDocument id sound)
  | setRoot id root =>
      exact changed_of_orderly (orderly_setRoot id root sound (available root List.mem_cons_self))
  | appendToPrologue id node => exact changed_of_orderly (Prologue.orderly_append id node sound)
  | insertIntoPrologue id index node =>
      exact (Prologue.insert_ensures id index node sound anchored).after.mono (fun _ => trivial)
        fun given => given
  | prependToPrologue id node =>
      exact (Prologue.insert_ensures id 0 node sound anchored).after.mono (fun _ => trivial)
        fun given => absurd given Prologue.not_givenUp_prepend
  | removeFromPrologue id node => exact changed_of_orderly (Prologue.orderly_remove id node sound)
  | clearPrologue id => exact changed_of_orderly (Prologue.orderly_clear id sound)

end Operation

/-- The groves that sequences of operations lead to from an empty one. -/
inductive Reachable (allowed : Operation → Grove → Prop) : Grove → Prop
  | start : Reachable allowed {}
  | step {grove : Grove} {operation : Operation} (reachable : Reachable allowed grove)
      (available : operation.Available grove) (admitted : allowed operation grove) :
      Reachable allowed (operation.apply grove)

namespace Reachable

variable {allowed : Operation → Grove → Prop} {grove : Grove}

theorem mono {weaker : Operation → Grove → Prop} (reachable : Reachable allowed grove)
    (implies : ∀ operation grove, allowed operation grove → weaker operation grove) :
    Reachable weaker grove := by
  induction reachable with
  | start => exact .start
  | step reachable available admitted induction =>
      exact induction.step available (implies _ _ admitted)

theorem sound_and_anchored (reachable : Reachable allowed grove) :
    grove.Sound ∧ grove.Anchored := by
  induction reachable with
  | start =>
      refine ⟨sound_empty, ?_⟩
      intro id document present
      cases present
  | @step grove operation reachable available admitted induction =>
      have moves := (operation.changed induction.1 induction.2 available).moves
      exact ⟨moves.sound induction.1, moves.anchored induction.2⟩

theorem sound (reachable : Reachable allowed grove) : grove.Sound :=
  reachable.sound_and_anchored.1

theorem anchored (reachable : Reachable allowed grove) : grove.Anchored :=
  reachable.sound_and_anchored.2

end Reachable

end XmlGrove
