import XmlGrove.Parse.Options
import XmlGrove.Tree
import XmlGrove.Value

/-!
# Groves

A grove holds nodes that have an identity, in any number of trees, and the
documents that some of these trees belong to. Which node is whose child is noted
at both ends: a node has a link to its parent, and a parent has a list of its
children.
-/

namespace XmlGrove

inductive Node where
  | leaf (content : Leaf)
  | tag (name : Name) (attributes : Attributes) (children : List NodeId)
  /-- A tag node whose construction was given up before it got its children. -/
  | unfinished (name : Name) (attributes : Attributes)
  /-- The node above a document's root and prologue; it is never handed out. -/
  | anchor (document : DocumentId) (children : List NodeId)
  deriving Repr, DecidableEq

structure Entry where
  node : Node
  parent : Option NodeId := none
  deriving Repr, DecidableEq

structure Document where
  anchor : NodeId
  declaration : Option NodeId
  version : Value
  encoding : Value
  sourceUrl : Value := .null
  options : ParserOptions := {}
  /-- The media type that came with the document, if it came from a server. -/
  contentType : Option (Option String) := none

structure Grove where
  entries : Array Entry := #[]
  documents : Array Document := #[]

/-- An operation on a grove. A failing one keeps what it did before it failed. -/
abbrev Edit := ExceptT Fault (StateM Grove)

namespace Grove

/-! ## Looking at nodes -/

def entry? (grove : Grove) (id : NodeId) : Option Entry := grove.entries[id.index]?

def node? (grove : Grove) (id : NodeId) : Option Node := (grove.entry? id).map (·.node)

def parentLink? (grove : Grove) (id : NodeId) : Option NodeId :=
  (grove.entry? id).bind (·.parent)

def childList? (grove : Grove) (id : NodeId) : Option (List NodeId) :=
  match grove.node? id with
  | some (.tag _ _ children) | some (.anchor _ children) => some children
  | _ => none

def children (grove : Grove) (id : NodeId) : List NodeId :=
  (grove.childList? id).getD []

def leaf? (grove : Grove) (id : NodeId) : Option Leaf :=
  match grove.node? id with
  | some (.leaf content) => some content
  | _ => none

def tag? (grove : Grove) (id : NodeId) : Option (Name × Attributes) :=
  match grove.node? id with
  | some (.tag name attributes _) | some (.unfinished name attributes) =>
    some (name, attributes)
  | _ => none

def anchored? (grove : Grove) (id : NodeId) : Option DocumentId :=
  match grove.node? id with
  | some (.anchor document _) => some document
  | _ => none

def isTag (grove : Grove) (id : NodeId) : Bool := (grove.tag? id).isSome

def isAnchor (grove : Grove) (id : NodeId) : Bool := (grove.anchored? id).isSome

def text? (grove : Grove) (id : NodeId) : Option String :=
  match grove.node? id with
  | some (.leaf (.text content)) => some content
  | _ => none

def kind? (grove : Grove) (id : NodeId) : Option NodeKind :=
  match grove.node? id with
  | some (.leaf content) => some content.kind
  | some (.tag ..) | some (.unfinished ..) => some .tag
  | _ => none

def label? (grove : Grove) (id : NodeId) : Option Tree.Label :=
  match grove.leaf? id with
  | some content => some (.leaf content)
  | none => (grove.tag? id).map fun (name, attributes) => .tag name attributes

def document? (grove : Grove) (id : DocumentId) : Option Document :=
  grove.documents[id.index]?

/-! ## Changing nodes -/

def modifyEntry (grove : Grove) (id : NodeId) (change : Entry → Entry) : Grove :=
  { grove with entries := grove.entries.modify id.index change }

def modifyDocument (grove : Grove) (id : DocumentId) (change : Document → Document) : Grove :=
  { grove with documents := grove.documents.modify id.index change }

def setParent (grove : Grove) (id : NodeId) (parent : Option NodeId) : Grove :=
  grove.modifyEntry id fun entry => { entry with parent := parent }

def setNode (grove : Grove) (id : NodeId) (node : Node) : Grove :=
  grove.modifyEntry id fun entry => { entry with node := node }

end Grove

namespace Node

def withChildren (node : Node) (children : List NodeId) : Node :=
  match node with
  | tag name attributes _ => tag name attributes children
  | anchor document _ => anchor document children
  | leaf _ | unfinished _ _ => node

def withAttributes (node : Node) (attributes : Attributes) : Node :=
  match node with
  | tag name _ children => tag name attributes children
  | unfinished name _ => unfinished name attributes
  | leaf _ | anchor _ _ => node

def withName (node : Node) (name : Name) : Node :=
  match node with
  | tag _ attributes children => tag name attributes children
  | unfinished _ attributes => unfinished name attributes
  | leaf _ | anchor _ _ => node

end Node

namespace Grove

def setChildren (grove : Grove) (id : NodeId) (children : List NodeId) : Grove :=
  grove.modifyEntry id fun entry => { entry with node := entry.node.withChildren children }

def setAttributes (grove : Grove) (id : NodeId) (attributes : Attributes) : Grove :=
  grove.modifyEntry id fun entry => { entry with node := entry.node.withAttributes attributes }

def setName (grove : Grove) (id : NodeId) (name : Name) : Grove :=
  grove.modifyEntry id fun entry => { entry with node := entry.node.withName name }

end Grove

/-! ## New nodes -/

def create (node : Node) : Edit NodeId := do
  let grove ← get
  set { grove with entries := grove.entries.push { node := node } }
  return ⟨grove.entries.size⟩

def requireChildren (id : NodeId) : Edit (List NodeId) := do
  match (← get).childList? id with
  | some children => return children
  | none => throw .noMember

def requireTag (id : NodeId) : Edit (Name × Attributes) := do
  match (← get).tag? id with
  | some label => return label
  | none => throw .noMember

end XmlGrove
