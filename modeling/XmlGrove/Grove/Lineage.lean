import XmlGrove.Grove.Basic

/-!
# Lineage

What is above a node: its ancestors, its root and its document, its depth and its
position.
-/

namespace XmlGrove.Grove

/-- Follow parent links from a node, that node included. A lineage can't be longer
than there are nodes, which bounds the number of links that are followed. -/
def follow (grove : Grove) : Nat → Option NodeId → List NodeId
  | 0, _ => []
  | _ + 1, none => []
  | bound + 1, some id => id :: grove.follow bound (grove.parentLink? id)

/-- The nodes above a node, from its parent to the topmost one, with a document's
anchor if there is one. -/
def lineage (grove : Grove) (id : NodeId) : List NodeId :=
  grove.follow grove.entries.size (grove.parentLink? id)

def top (grove : Grove) (id : NodeId) : NodeId :=
  (grove.lineage id).getLast?.getD id

/-- The parent of a node; a document's anchor is not taken for one. -/
def parent? (grove : Grove) (id : NodeId) : Option NodeId :=
  (grove.parentLink? id).filter fun parent => !grove.isAnchor parent

def ancestors (grove : Grove) (id : NodeId) : List NodeId :=
  (grove.lineage id).filter fun ancestor => !grove.isAnchor ancestor

def root (grove : Grove) (id : NodeId) : NodeId :=
  (grove.ancestors id).getLast?.getD id

def depth (grove : Grove) (id : NodeId) : Nat :=
  (grove.ancestors id).length

def documentOf? (grove : Grove) (id : NodeId) : Option DocumentId :=
  grove.anchored? (grove.top id)

/-- The position of a node among its siblings, if it has a parent. A parent that
does not list the node is at fault. -/
def index (grove : Grove) (id : NodeId) : Except Fault (Option Nat) :=
  match grove.parent? id with
  | none => .ok none
  | some parent =>
    match grove.childList? parent with
    | none => .error .noMember
    | some siblings =>
      match siblings.idxOf? id with
      | some position => .ok (some position)
      | none => .error .notSibling

/-! ## Location paths -/

/-- The position of a node among those siblings that are tag nodes of the given
name, counted from one. The siblings behind the node do not matter. -/
def namedPosition (grove : Grove) (id : NodeId) (name : Name) (siblings : List NodeId) : Nat :=
  let preceding := siblings.takeWhile (· ≠ id)
  1 + (preceding.filter fun sibling =>
    (grove.tag? sibling).any fun (present, _) => present = name).length

def locationSteps (grove : Grove) : Nat → NodeId → Except Fault (List String)
  | 0, _ => .ok []
  | bound + 1, id =>
    match grove.parent? id, grove.tag? id with
    | some parent, some (name, _) =>
      match grove.childList? parent with
      | none => .error .noMember
      | some siblings =>
        let step := s!"{name}[{grove.namedPosition id name siblings}]"
        (grove.locationSteps bound parent).map (step :: ·)
    | _, _ => .ok []

def locationPath (grove : Grove) (id : NodeId) : Except Fault String :=
  (grove.locationSteps grove.entries.size id).map fun steps =>
    "/" ++ "/".intercalate steps.reverse

end XmlGrove.Grove
