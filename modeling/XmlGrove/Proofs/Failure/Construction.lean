import XmlGrove.Grove.View
import XmlGrove.Proofs.Failure.Token

/-!
# Constructing nodes while reading

A text can also be parsed by constructing its nodes one by one as they are read. Names and
contents are passed to the constructors as plain texts and checked there. The tags that were
started and not ended yet and the nodes that were read for each of them are on two stacks. When a
tag ends, both stacks are popped and the nodes are attached to the tag. Whatever could go wrong
with that is a fault like any other.
-/

namespace XmlGrove.Parse

/-- Go on with what was read. -/
def parsed : Except ParsingFault α → Edit α
  | .ok value => return value
  | .error fault => throw (.parsing fault)

/-! ## Constructors -/

def constructLeaf : Leaf → Edit NodeId
  | .instruction target content =>
    match Name.ofString? target.text with
    | some target => createLeaf (.instruction target content)
    | none => throw (.invalidTarget target.text)
  | content => createLeaf content

def constructTag (name : Name) (attributes : Attributes) : Edit NodeId :=
  createTag (.text name.text)
    (attributes.pairs.map fun (name, value) => (.text name, some value)) []

/-! ## Stacks -/

/-- What is kept in mind between two tokens. -/
structure Assembly where
  /-- Text that was gathered, as it was written. -/
  raw : List Char := []
  /-- The started tags, innermost one first. -/
  started : List NodeId := []
  /-- The nodes that were read for each started tag. -/
  children : List (List NodeId) := []
  /-- The tag that ended last. -/
  result : Option NodeId := none

namespace Assembly

/-- Append a node to those of the innermost tag. -/
def append (node : NodeId) (assembly : Assembly) : Edit Assembly :=
  match assembly.children with
  | [] => throw .noIndex
  | innermost :: outer => return { assembly with children := (innermost ++ [node]) :: outer }

/-- Construct a text node of the gathered text. -/
def flush (options : ParserOptions) (assembly : Assembly) : Edit Assembly :=
  match textNode? options assembly.raw with
  | some (.leaf content) => do
    let node ← constructLeaf content
    { assembly with raw := [] }.append node
  | _ => return { assembly with raw := [] }

/-- Put a tag that was started on the stacks. -/
def enter (node : NodeId) (assembly : Assembly) : Assembly :=
  { assembly with started := node :: assembly.started, children := [] :: assembly.children }

def innermostName (assembly : Assembly) : Edit Name :=
  match assembly.started with
  | [] => throw .noIndex
  | tag :: _ => do
    let (name, _) ← requireTag tag
    return name

/-- Attach the nodes of the innermost tag, and hand it to the tag around it. -/
def finish (assembly : Assembly) (name : Name) (location : Location) : Edit Assembly := do
  let present ← assembly.innermostName
  if name ≠ present then throw (.parsing (.mismatchedTags present.text name.text location))
  match assembly.started, assembly.children with
  | tag :: started, nodes :: children => do
    let _ ← appendChildren tag (nodes.map .node)
    let finished : Assembly :=
      { assembly with started := started, children := children, result := some tag }
    if children.isEmpty then return finished else finished.append tag
  | _, _ => throw .noIndex

/-- Take a token that ends at a cursor. What is not kept is constructed nevertheless. -/
def take (options : ParserOptions) (assembly : Assembly) (next : Cursor) :
    Token → Edit Assembly
  | .text characters => return { assembly with raw := assembly.raw ++ characters }
  | .endTag name => do
    let flushed ← assembly.flush options
    flushed.finish name next.location
  | .leaf content =>
    if keeps options content then do
      let flushed ← assembly.flush options
      let node ← constructLeaf content
      flushed.append node
    else do
      let _ ← constructLeaf content
      return assembly
  | .startTag (.empty name attributes) => do
    let flushed ← assembly.flush options
    let node ← constructTag name attributes
    flushed.append node
  | .startTag (.opening name attributes) => do
    let flushed ← assembly.flush options
    let node ← constructTag name attributes
    return flushed.enter node

end Assembly

/-! ## Elements -/

/-- Read content until no tag is started any more. Then there must be one that ended. -/
def constructContent (options : ParserOptions) (cursor : Cursor) (assembly : Assembly) :
    Edit (NodeId × Cursor) :=
  if assembly.started.isEmpty then
    match assembly.result with
    | some node => return (node, cursor)
    | none => throw .assertion
  else if _more : cursor.atEnd then do
    let name ← assembly.innermostName
    throw (.parsing (.unterminated s!"element <{name}>" cursor.location))
  else
    match _read : readToken cursor with
    | .error fault => throw (.parsing fault)
    | .ok (token, next) => do
      let continued ← assembly.take options next token
      constructContent options next continued
termination_by cursor.rest.length
decreasing_by exact length_rest_of_readToken _more _read

def constructElement (options : ParserOptions) (cursor : Cursor) : Edit (NodeId × Cursor) := do
  match ← parsed (readStartTag cursor) with
  | (.empty name attributes, next) => do
    let node ← constructTag name attributes
    return (node, next)
  | (.opening name attributes, next) => do
    let node ← constructTag name attributes
    constructContent options next (({} : Assembly).enter node)

/-! ## Documents -/

/-- The nodes of a document, and what its declaration says. -/
structure DocumentNodes where
  declaration : Option NodeId := none
  version : String := Declaration.defaultVersion
  encoding : String := Declaration.defaultEncoding
  prologue : List NodeId
  root : NodeId

/-- Construct the instruction that a document starts with, if it does. -/
def constructOpening (cursor : Cursor) : Edit (Option (NodeId × Name × String) × Cursor) := do
  if cursor.startsWith "<?" then
    let ((target, content), cursor) ← parsed (readInstruction cursor)
    let node ← constructLeaf (.instruction target content)
    return (some (node, target, content), cursor.skipBlanks)
  else return (none, cursor)

/-- Construct a leaf, and list it in front of what follows if it is to be kept. -/
def constructKept (options : ParserOptions) (leaf : Leaf) (rest : Edit (List NodeId × Cursor)) :
    Edit (List NodeId × Cursor) := do
  let node ← constructLeaf leaf
  let (others, last) ← rest
  return (if keeps options leaf then node :: others else others, last)

def constructPrologue (options : ParserOptions) (cursor : Cursor) :
    Edit (List NodeId × Cursor) :=
  if cursor.startsWith "<?" then
    match _read : readInstruction cursor with
    | .error fault => throw (.parsing fault)
    | .ok ((target, content), next) =>
      constructKept options (.instruction target content)
        (constructPrologue options next.skipBlanks)
  else if cursor.startsWith "<!--" then
    match _read : readComment cursor with
    | .error fault => throw (.parsing fault)
    | .ok (content, next) =>
      constructKept options (.comment content) (constructPrologue options next.skipBlanks)
  else return ([], cursor)
termination_by cursor.rest.length
decreasing_by
  · have shorter := length_rest_of_readInstruction _read
    have blanks := next.length_rest_skipBlanks_le
    omega
  · have shorter := length_rest_of_readComment _read
    have blanks := next.length_rest_skipBlanks_le
    omega

/-- Put together the nodes of a document. -/
def assembleNodes (options : ParserOptions) (opening : Option (NodeId × Name × String))
    (prologue : List NodeId) (root : NodeId) : DocumentNodes :=
  match opening with
  | none => { prologue := prologue, root := root }
  | some (node, target, content) =>
    if target = Name.xml then
      { declaration := some node, version := Declaration.version content,
        encoding := Declaration.encoding content, prologue := prologue, root := root }
    else if keeps options (.instruction target content) then
      { prologue := node :: prologue, root := root }
    else { prologue := prologue, root := root }

def constructDocument (options : ParserOptions) (text : List Char) : Edit DocumentNodes := do
  let (opening, cursor) ← constructOpening (Cursor.start text).skipBlanks
  let (prologue, cursor) ← constructPrologue options cursor
  parsed (refuseDocumentType cursor)
  let (root, cursor) ← constructElement options cursor
  parsed (refuseTrailingContent cursor.skipBlanks)
  return assembleNodes options opening prologue root

end XmlGrove.Parse
