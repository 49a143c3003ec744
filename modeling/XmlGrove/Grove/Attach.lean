import XmlGrove.Grove.Lineage

/-!
# Attaching nodes

A parent adopts what is to become its child before it lists it: texts and
templates become new nodes, existing ones must be detached and must not be above
the parent.
-/

namespace XmlGrove

/-! ## Constructing tag nodes -/

def GivenName.check (given : GivenName) (invalid : String → Fault) : Except Fault Name :=
  match given with
  | .text name =>
    match Name.ofString? name with
    | some valid => .ok valid
    | none => .error (invalid name)
  | .other (.ok display) => .error (invalid display)
  | .other (.error fault) => .error fault

def checkedTagName (given : GivenName) : Except Fault Name := given.check .invalidTagName

def checkedAttributeName (given : GivenName) : Except Fault Name :=
  given.check .invalidAttributeName

def checkedAttributes (attributes : Attributes) :
    List (GivenName × Option String) → Except Fault Attributes
  | [] => .ok attributes
  | (given, content) :: rest => do
    let name ← checkedAttributeName given
    match content with
    | none => throw .unfitAttributeValue
    | some value => checkedAttributes (attributes.set name value) rest

def Grove.isAtOrAbove (grove : Grove) (id parent : NodeId) : Bool :=
  (parent :: grove.lineage parent).contains id

/-- Make an existing node a child as far as the child is concerned. -/
def adoptNode (parent id : NodeId) : Edit NodeId := do
  let grove ← get
  if (grove.parentLink? id).isSome then throw .attached
  if grove.isTag id && grove.isAtOrAbove id parent then throw .cyclic
  set (grove.setParent id (some parent))
  return id

mutual

def adopt (parent : NodeId) : Source → Edit NodeId
  | .text content => do
    let id ← create (.leaf (.text content))
    modify (·.setParent id (some parent))
    return id
  | .node id => adoptNode parent id
  | .template definition => do
    let id ← instantiate definition
    modify (·.setParent id (some parent))
    return id
  | .unfit => throw .unfitSource

/-- Construct the tag node that a template defines. Until all its children are
there, the node has no list of them. -/
def instantiate : Template → Edit NodeId
  | .define givenName givenAttributes sources => do
    let name ← checkedTagName givenName
    let attributes ← checkedAttributes {} givenAttributes
    let id ← create (.unfinished name attributes)
    let children ← adoptAll id sources
    modify (·.setNode id (.tag name attributes children))
    return id

def adoptAll (parent : NodeId) : List Source → Edit (List NodeId)
  | [] => return []
  | first :: rest => do
    let child ← adopt parent first
    let others ← adoptAll parent rest
    return child :: others

end

/-! ## Placing children

Positions are those of a list: negative ones count from the end, and what is out
of range is as far as possible. -/

def insertionPosition (length : Nat) (index : Int) : Nat :=
  if index < 0 then (length + index).toNat else min length index.toNat

def appendChild (parent : NodeId) (source : Source) : Edit NodeId := do
  let _ ← requireChildren parent
  let child ← adopt parent source
  modify fun grove => grove.setChildren parent (grove.children parent ++ [child])
  return child

def insertChild (parent : NodeId) (index : Int) (source : Source) : Edit NodeId := do
  let _ ← requireChildren parent
  let child ← adopt parent source
  modify fun grove =>
    let siblings := grove.children parent
    grove.setChildren parent
      (siblings.insertIdx (insertionPosition siblings.length index) child)
  return child

def appendChildren (parent : NodeId) : List Source → Edit (List NodeId)
  | [] => return []
  | first :: rest => do
    let child ← appendChild parent first
    let others ← appendChildren parent rest
    return child :: others

/-- Attach several sources at the same position, one after the other; what was
attached first ends up last. -/
def insertEach (parent : NodeId) (index : Int) : List Source → Edit (List NodeId)
  | [] => return []
  | first :: rest => do
    let child ← insertChild parent index first
    let others ← insertEach parent index rest
    return child :: others

/-- Attach several sources at a position. Other than for a list, the position must
be in range. -/
def insertChildren (parent : NodeId) (index : Int) (sources : List Source) :
    Edit (List NodeId) := do
  let size : Int := (← requireChildren parent).length
  if index < -size || size < index then throw .insertionOutOfRange
  let position := if index < 0 then index + size else index
  let inserted ← insertEach parent position sources.reverse
  return inserted.reverse

def createTag (name : GivenName) (attributes : List (GivenName × Option String))
    (sources : List Source) : Edit NodeId :=
  instantiate (.define name attributes sources)

def createLeaf (content : Leaf) : Edit NodeId := do
  let checked ← content.checked
  create (.leaf checked)

end XmlGrove
