import XmlGrove.Declaration
import XmlGrove.Grove.View
import XmlGrove.Loading.Excuse
import XmlGrove.Writing

/-!
# Documents

A document anchors a root along with the comments and processing instructions
that precede it, and it has a declaration that stands apart from them.
-/

namespace XmlGrove

namespace Grove

/-! ## Looking at documents -/

def anchoredNodes (grove : Grove) (id : DocumentId) : List NodeId :=
  match grove.document? id with
  | none => []
  | some document => grove.children document.anchor

def prologue (grove : Grove) (id : DocumentId) : List NodeId :=
  (grove.anchoredNodes id).takeWhile fun node => !grove.isTag node

def documentRoot? (grove : Grove) (id : DocumentId) : Option NodeId :=
  (grove.anchoredNodes id).find? grove.isTag

def prologueOfKind (grove : Grove) (id : DocumentId) (kind : NodeKind) : List NodeId :=
  (grove.prologue id).filter fun node => grove.kind? node == some kind

def equal (grove : Grove) (left right : NodeId) : Bool :=
  left == right ||
    match grove.leaf? left, grove.leaf? right with
    | some leftLeaf, some rightLeaf => leftLeaf == rightLeaf
    | _, _ => false

/-! ## Writing -/

def standaloneLine (grove : Grove) (id : NodeId) : Except Fault String :=
  match grove.leaf? id with
  | some content => content.standaloneMarkup.map (· ++ "\n")
  | none => .error .noMember

def standaloneLines (grove : Grove) : List NodeId → Except Fault (List String)
  | [] => .ok []
  | first :: rest => do
    let line ← grove.standaloneLine first
    let others ← grove.standaloneLines rest
    return line :: others

def nodePieces (grove : Grove) (layout : Layout) (id : NodeId) : Except Fault (List String) :=
  match grove.view? id with
  | some tree => .ok (tree.pieces layout)
  | none => .error .noMember

def documentPieces (grove : Grove) (layout : Layout) (id : DocumentId) :
    Except Fault (List String) := do
  let declaration := ((grove.document? id).bind (·.declaration)).toList
  let opening ← grove.standaloneLines (declaration ++ grove.prologue id)
  match grove.documentRoot? id with
  | none => throw .noMember
  | some root => return opening ++ (← grove.nodePieces layout root)

end Grove

def Text.Newline.renderInMemory (newline : Newline) (pieces : List String) : String :=
  String.join (pieces.map newline.inMemory)

def Text.Newline.renderInStream (newline : Newline) (pieces : List String) : String :=
  String.join (pieces.map newline.inStream)

/-! ## New documents -/

structure DocumentParts where
  sources : List Source
  /-- A declaration that was found; without one it is derived. -/
  declaration : Option NodeId := none
  version : String := Declaration.defaultVersion
  encoding : String := Declaration.defaultEncoding
  sourceUrl : Value := .null
  options : ParserOptions := {}
  contentType : Option (Option String) := none

def Grove.isTagSource (grove : Grove) : Source → Bool
  | .node id => grove.isTag id
  | _ => false

def createDeclaration (version encoding : String) : Edit NodeId :=
  createLeaf (.instruction Name.xml (Declaration.content version encoding))

def DocumentParts.declare (parts : DocumentParts) : Edit NodeId :=
  match parts.declaration with
  | some found => return found
  | none => createDeclaration parts.version parts.encoding

/-- Make a document with its declaration and its anchor, which has no children yet. There must
be a root among the document's parts. -/
def prepareDocument (parts : DocumentParts) : Edit (DocumentId × NodeId) := do
  unless parts.sources.any (← get).isTagSource do throw .rootMissing
  let declaration ← parts.declare
  let id : DocumentId := ⟨(← get).documents.size⟩
  let anchor ← create (.anchor id [])
  let document : Document :=
    { anchor := anchor, declaration := some declaration, version := .text parts.version,
      encoding := .text parts.encoding, sourceUrl := parts.sourceUrl,
      options := parts.options, contentType := parts.contentType }
  modify fun grove => { grove with documents := grove.documents.push document }
  return (id, anchor)

def createDocument (parts : DocumentParts) : Edit DocumentId := do
  let (id, anchor) ← prepareDocument parts
  let children ← adoptAll anchor parts.sources
  modify (·.setChildren anchor children)
  return id

def requireDocument (id : DocumentId) : Edit Document := do
  match (← get).document? id with
  | some document => return document
  | none => throw .noMember

def requireRoot (id : DocumentId) : Edit NodeId := do
  match (← get).documentRoot? id with
  | some root => return root
  | none => throw .noMember

def cloneNodes : List NodeId → Edit (List NodeId)
  | [] => return []
  | first :: rest => do
    let clone ← cloneNode true first
    let others ← cloneNodes rest
    return clone :: others

/-- Clone a document, which is loading it from the nodes that it consists of. Where one of them
can't be cloned, there is no other loader for it. -/
def cloneDocument (id : DocumentId) : Edit DocumentId := do
  let document ← requireDocument id
  let nodes ← ExceptT.adapt (fun fault => Fault.loading (Loading.Excuse.allAfter fault))
    (cloneNodes ((← get).anchoredNodes id))
  let clone ← createDocument { sources := nodes.map .node }
  let declaration ← match document.declaration with
    | some found => some <$> cloneNode true found
    | none => pure none
  modify fun grove => grove.modifyDocument clone fun created =>
    { document with anchor := created.anchor, declaration := declaration }
  return clone

/-! ## Changing documents -/

def declareAnew (id : DocumentId) (version encoding : String) : Edit Unit := do
  let document ← requireDocument id
  if document.declaration.isSome then
    let declaration ← createDeclaration version encoding
    modify (·.modifyDocument id fun document =>
      { document with declaration := some declaration })

def setDeclaration (id : DocumentId) (declaration : Option NodeId) : Edit Unit := do
  let grove ← get
  let acceptable := declaration.all fun node =>
    match grove.leaf? node with
    | some (.instruction target _) => target == Name.xml
    | _ => false
  unless acceptable do throw .declarationKind
  set (grove.modifyDocument id fun document => { document with declaration := declaration })

def setRoot (id : DocumentId) (root : NodeId) : Edit Unit := do
  let grove ← get
  unless grove.isTag root do throw .rootKind
  if (grove.parentLink? root).isSome then throw .rootAttached
  let document ← requireDocument id
  let current ← requireRoot id
  let position := (grove.prologue id).length
  removeSibling document.anchor current
  let _ ← insertChildren document.anchor position [.node root]

end XmlGrove
