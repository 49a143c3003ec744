import XmlGrove.Grove.Lineage

/-!
# Traversals

Orders in which the nodes of a tree are visited. Each traversal keeps a list of
what is still to visit; the number of steps is bounded by the number of nodes.
-/

namespace XmlGrove.Grove

/-! ## Orders -/

/-- Visit pending nodes, each one before its descendants and these before what
else is pending. -/
def preorderFrom (grove : Grove) : Nat → List NodeId → List NodeId
  | 0, _ | _, [] => []
  | bound + 1, id :: pending => id :: grove.preorderFrom bound (grove.children id ++ pending)

def descendants (grove : Grove) (id : NodeId) : List NodeId :=
  grove.preorderFrom grove.entries.size (grove.children id)

def preorder (grove : Grove) (id : NodeId) : List NodeId :=
  id :: grove.descendants id

/-- Visit nodes after their descendants. A pending node comes with those of its
children that are still to visit. -/
def postorderFrom (grove : Grove) : Nat → List (NodeId × List NodeId) → List NodeId
  | 0, _ | _, [] => []
  | bound + 1, (id, []) :: pending => id :: grove.postorderFrom bound pending
  | bound + 1, (id, child :: rest) :: pending =>
    grove.postorderFrom bound ((child, grove.children child) :: (id, rest) :: pending)

def postorder (grove : Grove) (id : NodeId) : List NodeId :=
  grove.postorderFrom (2 * grove.entries.size + 1) [(id, grove.children id)]

/-- Visit pending nodes, and their children after all that is pending. -/
def breadthFrom (grove : Grove) : Nat → List NodeId → List NodeId
  | 0, _ | _, [] => []
  | bound + 1, id :: pending => id :: grove.breadthFrom bound (pending ++ grove.children id)

def breadthFirst (grove : Grove) (id : NodeId) : List NodeId :=
  grove.breadthFrom (grove.entries.size + 1) [id]

def traversal (depthFirst fromTop : Bool) : Except Fault (Grove → NodeId → List NodeId) :=
  match depthFirst, fromTop with
  | true, true => .ok preorder
  | true, false => .ok postorder
  | false, true => .ok breadthFirst
  | false, false => .error .noTraversal

def isFinished (grove : Grove) (id : NodeId) : Bool :=
  (grove.preorder id).all fun node =>
    (grove.childList? node).isSome || (grove.leaf? node).isSome

/-! ## Filters -/

abbrev Filter := Grove → NodeId → Bool

def passing (grove : Grove) (filters : List Filter) (ids : List NodeId) : List NodeId :=
  ids.filter fun id => filters.all fun filter => filter grove id

namespace Filter

def ofKind (kind : NodeKind) : Filter := fun grove id => grove.kind? id == some kind

/-- Tag nodes that have no parent, or a document. -/
def isRoot : Filter := fun grove id => grove.isTag id && (grove.parent? id).isNone

def anyOf (filters : List Filter) : Filter := fun grove id =>
  filters.any fun filter => filter grove id

def not (filters : List Filter) : Filter := fun grove id =>
  !filters.all fun filter => filter grove id

def named (name : String) : Filter := fun grove id =>
  (grove.tag? id).any fun (present, _) => present.text == name

end Filter

end XmlGrove.Grove
