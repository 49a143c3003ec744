import XmlGrove.Grove.Detach

/-!
# Nodes and trees

A node of a grove can be viewed as a tree, and a tree can be planted in a grove.
Cloning a node is constructing what its view shows.
-/

namespace XmlGrove

namespace Grove

mutual

/-- The tree below a node, that node included, as far as a bound on the depth
allows. Nodes without a list of children can't be viewed, and neither can an
anchor. -/
def viewWithin (grove : Grove) : Nat → NodeId → Option Tree
  | 0, _ => none
  | bound + 1, id =>
    match grove.node? id with
    | some (.leaf content) => some (.leaf content)
    | some (.tag name attributes children) =>
      (grove.viewAllWithin bound children).map (.tag name attributes)
    | _ => none

def viewAllWithin (grove : Grove) : Nat → List NodeId → Option (List Tree)
  | _, [] => some []
  | bound, first :: rest =>
    match grove.viewWithin bound first, grove.viewAllWithin bound rest with
    | some tree, some trees => some (tree :: trees)
    | _, _ => none

end

/-- The tree below a node, that node included. No tree is deeper than there are
nodes. -/
def view? (grove : Grove) (id : NodeId) : Option Tree :=
  grove.viewWithin (grove.entries.size + 1) id

end Grove

def requireView (id : NodeId) : Edit Tree := do
  match (← get).view? id with
  | some tree => return tree
  | none => throw .noMember

/-! ## Planting -/

mutual

def plantBelow (parent : Option NodeId) : Tree → StateM Grove NodeId
  | .leaf content => do
    let grove ← get
    set { grove with entries := grove.entries.push ⟨.leaf content, parent⟩ }
    return ⟨grove.entries.size⟩
  | .tag name attributes children => do
    let id : NodeId := ⟨(← get).entries.size⟩
    modify fun grove =>
      { grove with entries := grove.entries.push ⟨.tag name attributes [], parent⟩ }
    let planted ← plantAllBelow id children
    modify (·.setChildren id planted)
    return id

def plantAllBelow (parent : NodeId) : List Tree → StateM Grove (List NodeId)
  | [] => return []
  | first :: rest => do
    let id ← plantBelow (some parent) first
    let others ← plantAllBelow parent rest
    return id :: others

end

def plant (tree : Tree) : Edit NodeId := plantBelow none tree

/-! ## Cloning -/

/-- Construct the nodes that a tree shows, which checks what they hold. -/
def construct (tree : Tree) : Edit NodeId := do
  let checked ← tree.checked
  plant checked

def cloneNode (deep : Bool) (id : NodeId) : Edit NodeId := do
  if deep then construct (← requireView id)
  else
    match (← get).label? id with
    | some (.leaf content) => construct (.leaf content)
    | some (.tag name attributes) => construct (.tag name attributes [])
    | none => throw .noMember

def cloneSource : Source → Edit Source
  | .node id => return .node (← cloneNode true id)
  | other => return other

/-- Attach several sources as last children, one after the other; nodes among them
are cloned when it is their turn. -/
def appendClones (parent : NodeId) : List Source → Edit (List NodeId)
  | [] => return []
  | first :: rest => do
    let child ← appendChild parent (← cloneSource first)
    let others ← appendClones parent rest
    return child :: others

def insertEachClone (parent : NodeId) (index : Int) : List Source → Edit (List NodeId)
  | [] => return []
  | first :: rest => do
    let child ← insertChild parent index (← cloneSource first)
    let others ← insertEachClone parent index rest
    return child :: others

def insertClones (parent : NodeId) (index : Int) (sources : List Source) :
    Edit (List NodeId) := do
  let size : Int := (← requireChildren parent).length
  if index < -size || size < index then throw .insertionOutOfRange
  let position := if index < 0 then index + size else index
  let inserted ← insertEachClone parent position sources.reverse
  return inserted.reverse

end XmlGrove
