import XmlGrove.Grove.Prologue
import XmlGrove.Script.NodeCommand

/-!
# Commands to documents

What documents and their prologues can be asked for and told to do.
-/

namespace XmlGrove.Script

/-! ## Prologues -/

def placedNode : Value → Action NodeId
  | .node id => return id
  | _ => throw .prologueKind

def soughtNode : Value → Action NodeId
  | .node id => return id
  | _ => throw .notInPrologue

/-- Fail to insert a node into a prologue at an index with a fraction. That it is no
index is found out when the node has been adopted already. -/
def insertAtPrologueDecimal (id : DocumentId) (index : Decimal) (node : NodeId) :
    Action Unit := do
  edit (Prologue.requirePlaceable node)
  let document ← edit (requireDocument id)
  if index.isAbove ((← currentGrove).prologue id).length then throw .insertionOutOfRange
  let _ ← edit (adopt document.anchor (.node node))
  throw .unfitValue

def insertIntoPrologue (id : DocumentId) (index : Value) (node : NodeId) : Action Unit := do
  match index, index.integer? with
  | _, some position => edit (Prologue.insert id position node)
  | .decimal number, none => insertAtPrologueDecimal id number node
  | _, none =>
    edit (Prologue.requirePlaceable node)
    throw .unfitValue

def prologueCommand (id : DocumentId) (command : String) (arguments : List Value) :
    Action Answer := do
  let nodes := (← currentGrove).prologue id
  match command, arguments with
  | "get", [index] => return ← MonadExcept.ofExcept (subscript nodes .node .nodes index)
  | "len", _ => return Value.int nodes.length
  | "list", _ => return Value.nodes nodes
  | "repr", _ => return Value.text (← look fun grove => Prologue.describe grove id)
  | "contains", [.node node] => return Value.bool (Prologue.contains (← currentGrove) id node)
  | "contains", [.text content] =>
    let grove ← currentGrove
    return Value.bool (nodes.any fun node => grove.text? node == some content)
  | "contains", [_] => return Value.bool false
  | "append", [value] =>
    edit (Prologue.append id (← placedNode value))
    return value
  | "prepend", [value] =>
    edit (Prologue.prepend id (← placedNode value))
    return value
  | "insert", [index, value] =>
    insertIntoPrologue id index (← placedNode value)
    return Value.null
  | "remove", [value] =>
    edit (Prologue.remove id (← soughtNode value))
    return Value.null
  | "index", [value] => return Value.int (← edit (Prologue.index id (← soughtNode value)))
  | "clear", [] =>
    edit (Prologue.clear id)
    return Value.null
  | "get", _ | "contains", _ | "append", _ | "prepend", _ | "insert", _ | "remove", _
  | "index", _ | "clear", _ => throw .unfitValue
  | _, _ => noCommand

/-! ## Properties -/

def redeclare (id : DocumentId) : Action Unit := do
  let document ← edit (requireDocument id)
  if document.declaration.isSome then
    let version ← displayed document.version
    let encoding ← displayed document.encoding
    edit (declareAnew id version encoding)

def setDocumentProperty (id : DocumentId) (property : String) (value : Value) : Action Unit := do
  match property, value with
  | "root", .node root => edit (setRoot id root)
  | "root", _ => throw .rootKind
  | "version", _ =>
    edit (modify (·.modifyDocument id fun document => { document with version := value }))
    redeclare id
  | "encoding", _ =>
    edit (modify (·.modifyDocument id fun document => { document with encoding := value }))
    redeclare id
  | "declaration", .null => edit (setDeclaration id none)
  | "declaration", .node declaration => edit (setDeclaration id (some declaration))
  | "declaration", _ => throw .declarationKind
  | "source_url", _ =>
    edit (modify (·.modifyDocument id fun document => { document with sourceUrl := value }))
  | _, _ => throw .noMember

/-! ## Writing -/

def serializeDocument (id : DocumentId) (indentation : Value) : Action Value := do
  let indentation ← MonadExcept.ofExcept (Indentation.ofValue (← settled indentation))
  let pieces ← look fun grove => indentation.documentPieces grove id
  return .text (Text.Newline.unset.renderInMemory pieces)

def writeDocument (id : DocumentId) (indentation newline : Value) : Action String := do
  let newline ← MonadExcept.ofExcept (newlineOf newline)
  let indentation ← MonadExcept.ofExcept (Indentation.ofValue (← settled indentation))
  let pieces ← look fun grove => indentation.documentPieces grove id
  return newline.renderInStream pieces

/-- Write a document with the given indentation and line ending. The stream remains
open. -/
def writeCommand (id : DocumentId) (arguments : List Value) : Action Answer := do
  let (indentation, newline) ← match arguments with
    | [] => pure (Value.null, Value.null)
    | [indentation] => pure (indentation, .null)
    | [indentation, newline] => pure (indentation, newline)
    | _ => throw .unfitValue
  return Value.list [.text (← writeDocument id indentation newline), .bool false]

def documentCommand (id : DocumentId) (command : String) (arguments : List Value) :
    Action Answer := do
  let grove ← currentGrove
  match command, arguments with
  | "root", _ => return Value.node (← edit (requireRoot id))
  | "version", _ => return (← edit (requireDocument id)).version
  | "encoding", _ => return (← edit (requireDocument id)).encoding
  | "declaration", _ => return optionalNode (← edit (requireDocument id)).declaration
  | "source_url", _ => return (← edit (requireDocument id)).sourceUrl
  | "comments", _ => return nodeTuple (grove.prologueOfKind id .comment)
  | "processing_instructions", _ => return nodeTuple (grove.prologueOfKind id .instruction)
  | "query", _ => return Value.results (← queryNodes (← edit (requireRoot id)) arguments)
  | "query_first", _ =>
    return optionalNode (← queryNodes (← edit (requireRoot id)) arguments).head?
  | "css_select", _ => return Value.results (← selectNodes (← edit (requireRoot id)) arguments)
  | "clone", [] => return Value.document (← edit (cloneDocument id))
  | "set", [.text property, value] =>
    setDocumentProperty id property value
    return Value.null
  | "contains", [.node node] => return Value.bool (grove.documentOf? node == some id)
  | "contains", [_] => noCommand
  | "serialize", _ => return ← serializeDocument id (← optionalArgument arguments)
  | "write", _ => writeCommand id arguments
  | "save", _ => return Value.text (← writeDocument id (← optionalArgument arguments) .null)
  | "prologue", .text method :: rest => prologueCommand id method rest
  | "clone", _ | "prologue", _ | "set", _ => throw .unfitValue
  | _, _ => generalCommand (.document id) command arguments

end XmlGrove.Script
