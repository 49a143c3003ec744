import XmlGrove.Grove.Describe
import XmlGrove.Grove.Document
import XmlGrove.Sequence

/-!
# Prologues

The nodes that precede a document's root, as a list that can be changed. It is
the beginning of the list of the anchor's children, which the root ends.
-/

namespace XmlGrove.Prologue

def requirePlaceable (node : NodeId) : Edit Unit := do
  let grove ← get
  match grove.leaf? node with
  | some (.comment _) => pure ()
  | some (.instruction target _) => if target = Name.xml then throw .prologueDeclaration
  | _ => throw .prologueKind
  if (grove.parentLink? node).isSome then throw .attached

def append (id : DocumentId) (node : NodeId) : Edit Unit := do
  requirePlaceable node
  let document ← requireDocument id
  let position := ((← get).prologue id).length
  let _ ← insertChild document.anchor position (.node node)

/-- Place a node at an index, which must not be behind the root's one. That no item could
have the index is found out when the node has been adopted already. -/
def insert (id : DocumentId) (index : Int) (node : NodeId) : Edit Unit := do
  requirePlaceable node
  let document ← requireDocument id
  if ((← get).prologue id).length < index then throw .insertionOutOfRange
  if Sequence.isBeyondItems index then
    let _ ← adopt document.anchor (.node node)
    throw .indexTooLarge
  let _ ← insertChild document.anchor index (.node node)

def prepend (id : DocumentId) (node : NodeId) : Edit Unit :=
  insert id 0 node

/-- Tell whether a node is in the prologue, or a leaf that holds the same. -/
def contains (grove : Grove) (id : DocumentId) (node : NodeId) : Bool :=
  (grove.prologue id).any (grove.equal · node)

/-- The index of a node. A node that holds the same as one in the prologue counts
as a part of that, but it has no index. -/
def index (id : DocumentId) (node : NodeId) : Edit Nat := do
  let grove ← get
  unless contains grove id node do throw .notInPrologue
  match (grove.anchoredNodes id).idxOf? node with
  | some position => return position
  | none => throw .notSibling

def remove (id : DocumentId) (node : NodeId) : Edit Unit := do
  let _ ← index id node
  let document ← requireDocument id
  removeSibling document.anchor node

def clear (id : DocumentId) : Edit Unit := do
  let document ← requireDocument id
  ((← get).prologue id).forM (removeSibling document.anchor)

def describe (grove : Grove) (id : DocumentId) : Except Fault String :=
  (grove.describeAll (grove.prologue id)).map fun shown =>
    let items := ", ".intercalate shown
    s!"<Prologue [{items}]>"

end XmlGrove.Prologue
