import XmlGrove.Grove.Attach
import XmlGrove.Sequence

/-!
# Detaching nodes

A detached node has no parent, and no parent lists it. What is below a detached
node stays there.
-/

namespace XmlGrove

def removeSibling (parent child : NodeId) : Edit Unit := do
  let siblings ← requireChildren parent
  match siblings.idxOf? child with
  | none => throw .notSibling
  | some position =>
    modify fun grove =>
      (grove.setChildren parent (siblings.eraseIdx position)).setParent child none

/-- Detach a node from its parent, if it has one. The root of a document stays
where it is. -/
def detach (id : NodeId) : Edit Unit := do
  let grove ← get
  match grove.parentLink? id with
  | none => return
  | some parent =>
    if grove.isTag id && grove.isAnchor parent then throw .rootDetached
    removeSibling parent id

def clearChildren (id : NodeId) : Edit Unit := do
  let children ← requireChildren id
  modify fun grove =>
    (children.foldl (fun grove child => grove.setParent child none) grove).setChildren id []

/-- Replace the text nodes among the children of a node by one in front of all
others, or by none. -/
def setTextContent (id : NodeId) (content : Option String) : Edit Unit := do
  let children ← requireChildren id
  let grove ← get
  (children.filter fun child => (grove.text? child).isSome).forM (removeSibling id)
  match content with
  | none => return
  | some text => let _ ← insertChild id 0 (.text text)

def removeChild? (parent child : NodeId) : Edit (Option NodeId) := do
  let grove ← get
  if grove.parentLink? child = some parent then
    removeSibling parent child
    return some child
  else return none

def removeChildAt? (parent : NodeId) (index : Int) : Edit (Option NodeId) := do
  match Sequence.get? (← requireChildren parent) index with
  | none => return none
  | some child =>
    removeSibling parent child
    return some child

def deleteChild (parent : NodeId) (index : Int) : Edit Unit := do
  match Sequence.get? (← requireChildren parent) index with
  | none => throw .noIndex
  | some child => detach child

end XmlGrove
