import XmlGrove.Css.Reader
import XmlGrove.Script.MappingCommand
import XmlGrove.Script.SequenceCommand

/-!
# Commands to nodes

What nodes can be asked for and told to do. Some commands apply to nodes of any
kind, others to tag nodes only. Members can be added to nodes; they come before what
nodes can be told to do, unless that applies to other values as well.
-/

namespace XmlGrove.Script

/-! ## Looking at nodes -/

/-- Check that there are children to be visited, of a node and all nodes below it. -/
def requireFinished (id : NodeId) : Action Unit := do
  unless (← currentGrove).isFinished id do throw .noMember

def filtered (filters : List Value) (find : Action (List NodeId)) : Action (List NodeId) := do
  let filters ← requireFilters filters
  let ids ← find
  return (← currentGrove).passing filters ids

def descendantsOf (id : NodeId) : Action (List NodeId) := do
  requireFinished id
  return (← currentGrove).descendants id

def childrenOf (id : NodeId) : Action (List NodeId) := do
  let grove ← currentGrove
  if (grove.leaf? id).isSome then return [] else edit (requireChildren id)

def traverseNode (id : NodeId) (arguments : List Value) : Action Answer := do
  match arguments with
  | depthFirst :: fromTop :: filters =>
    let (depthFirst, fromTop) ← traversalOf depthFirst fromTop
    let visit ← MonadExcept.ofExcept (Grove.traversal depthFirst fromTop)
    return Value.nodes (← filtered filters do
      requireFinished id
      return visit (← currentGrove) id)
  | _ => throw .unfitValue

def serializeNode (id : NodeId) (indentation : Value) : Action Value := do
  let indentation ← MonadExcept.ofExcept (Indentation.ofValue (← settled indentation))
  let pieces ← look fun grove => indentation.nodePieces grove id
  return .text (Text.Newline.unset.renderInMemory pieces)

def commonCommand (id : NodeId) (command : String) (arguments : List Value) : Action Answer := do
  let grove ← currentGrove
  match command with
  | "parent" => return optionalNode (grove.parent? id)
  | "depth" => return Value.int (grove.depth id)
  | "document" => return ((grove.documentOf? id).map Value.document).getD .null
  | "index" =>
    match ← look fun grove => grove.index id with
    | some position => return Value.int position
    | none => return Value.null
  | "detach" =>
    requireNone arguments
    edit (detach id)
    return Value.node id
  | "iterate_children" => return Value.nodes (← filtered arguments (childrenOf id))
  | "iterate_descendants" => return Value.nodes (← filtered arguments (descendantsOf id))
  | "iterate_ancestors" => return Value.nodes (← passingNodes (grove.ancestors id) arguments)
  | "traverse" => traverseNode id arguments
  | "serialize" => return ← serializeNode id (← optionalArgument arguments)
  | _ => generalCommand (.node id) command arguments

def isOperation (command : String) : Bool :=
  ["append_clone", "attr", "bool", "compare", "contains", "copy", "deepcopy", "delitem", "eq",
    "fetch_child", "filtered_by", "getitem", "insert_clone", "is", "iterate_ancestors",
    "iterate_children", "iterate_descendants", "len", "list", "prepend_clone", "prologue",
    "repr", "reversed", "save", "serialize", "set", "setitem", "str", "traverse",
    "write"].contains command

/-! ## Leaves -/

def setLeafProperty (id : NodeId) (content : Leaf) (property : String) (value : Value) :
    Action Unit := do
  match property, content with
  | "content", _ =>
    let changed ← MonadExcept.ofExcept (content.withContent (← leafContent value)).checked
    edit (modify (·.setNode id (.leaf changed)))
  | "target", .instruction _ old =>
    let target ← instructionTarget value
    edit (modify (·.setNode id (.leaf (.instruction target old))))
  | "depth", _ | "document", _ | "full_text", _ | "index", _ | "parent", _ => throw .noMember
  | _, _ => modify (·.addMember (.node id) property value)

def leafCommand (id : NodeId) (content : Leaf) (command : String) (arguments : List Value) :
    Action Answer := do
  match command, arguments with
  | "content", _ => return Value.text content.content
  | "target", _ =>
    match content with
    | .instruction target _ => return Value.text target.text
    | _ => noCommand
  | "full_text", _ => return Value.text (Tree.leaf content).fullText
  | "first_child", _ | "last_child", _ => return Value.null
  | "clone", [] | "clone", [_] => return Value.node (← edit (cloneNode false id))
  | "set", [.text property, value] =>
    setLeafProperty id content property value
    return Value.null
  | "clone", _ | "set", _ => throw .unfitValue
  | _, _ => commonCommand id command arguments

/-! ## Tag nodes: children -/

/-- Fail to insert sources at an index with a fraction. That it is no index is found
out when the last source has been adopted already. -/
def insertAtDecimal (cloned : Bool) (id : NodeId) (index : Decimal) (sources : List Source) :
    Action Answer := do
  let size : Int := (← edit (requireChildren id)).length
  if index.isBelow (-size) || index.isAbove size then throw .insertionOutOfRange
  match sources.getLast? with
  | none => return Value.tuple []
  | some source =>
    let adopted ← if cloned then edit (cloneSource source) else pure source
    let _ ← edit (adopt id adopted)
    throw .unfitValue

def insertCommand (cloned : Bool) (id : NodeId) : List Value → Action Answer
  | [] => throw .unfitValue
  | .decimal index :: values => do
    insertAtDecimal cloned id index (← requireSources values)
  | index :: values => do
    let _ ← edit (requireChildren id)
    let position ← requireIndex index
    let sources ← requireSources values
    let insert := if cloned then insertClones else insertChildren
    return nodeTuple (← edit (insert id position sources))

def removeCommand (id : NodeId) (value : Value) : Action Answer := do
  match value with
  | .node child => return optionalNode (← edit (removeChild? id child))
  | _ =>
    match value.integer? with
    | none => throw .unfitRemoval
    | some index => return optionalNode (← edit (removeChildAt? id index))

def tagSubscript (id : NodeId) (key : Value) : Action Answer := do
  match key with
  | .text name =>
    let (_, attributes) ← edit (requireTag id)
    match attributes.get? name with
    | some content => return Value.text content
    | none => throw .noKey
  | .slice .. | .int _ | .bool _ =>
    let children ← edit (requireChildren id)
    return ← MonadExcept.ofExcept (subscript children .node .nodes key)
  | _ => throw .unfitSubscript

def tagDeletion (id : NodeId) (key : Value) : Action Answer := do
  match key with
  | .text _ =>
    let _ ← popAttribute (.tag id) key none
    return Value.null
  | .int _ | .bool _ =>
    edit (deleteChild id (← requireIndex key))
    return Value.null
  | _ => throw .unfitDeletion

def tagMembership (id : NodeId) (member : Value) : Action Answer := do
  match member with
  | .text name =>
    let (_, attributes) ← edit (requireTag id)
    return Value.bool (attributes.has name)
  | .node other => return Value.bool ((← edit (requireChildren id)).contains other)
  | _ => throw .unfitMember

/-! ## Tag nodes: properties -/

def renameTag (id : NodeId) (value : Value) : Action Unit := do
  let name ← tagName value
  edit (modify (·.setName id name))

def setTagProperty (id : NodeId) (property : String) (value : Value) : Action Unit := do
  match property with
  | "name" => renameTag id value
  | "text_content" =>
    let content ← tagTextContent value
    edit (setTextContent id content)
  | "depth" | "document" | "full_text" | "index" | "parent" | "first_child" | "last_child"
  | "attributes" | "child_elements" | "location_path" | "text_nodes" => throw .noMember
  | _ => modify (·.addMember (.node id) property value)

def queryNodes (id : NodeId) (arguments : List Value) : Action (List NodeId) := do
  let grove ← currentGrove
  let argument ← onlyArgument arguments
  match argument with
  | .text text =>
    let expression ← MonadExcept.ofExcept (Path.Expression.parse text.toList)
    if grove.needsChildren [grove.origin expression id] expression.steps then throw .noMember
    return grove.select expression id
  | _ =>
    requireKey argument
    throw .noMember

def selectNodes (id : NodeId) (arguments : List Value) : Action (List NodeId) := do
  let expression ← textArgument arguments
  let selected ← look fun grove => grove.cssSelect Css.readGroup id expression
  requireFinished id
  return selected

def cloneTag (id : NodeId) (arguments : List Value) : Action Answer := do
  let deep ← isTrue (← optionalArgument arguments)
  return Value.node (← edit (cloneNode deep id))

def tagCommand (id : NodeId) (command : String) (arguments : List Value) : Action Answer := do
  let grove ← currentGrove
  let place := AttributesPlace.tag id
  match command, arguments with
  | "append_children", _ =>
    return nodeTuple (← edit (appendChildren id (← requireSources arguments)))
  | "append_clone", _ =>
    return nodeTuple (← edit (appendClones id (← requireSources arguments)))
  | "insert_children", _ => insertCommand false id arguments
  | "insert_clone", _ => insertCommand true id arguments
  | "prepend_children", _ => insertCommand false id (.int 0 :: arguments)
  | "prepend_clone", _ => insertCommand true id (.int 0 :: arguments)
  | "remove_child", _ => removeCommand id (← onlyArgument arguments)
  | "clear_children", [] =>
    edit (clearChildren id)
    return Value.null
  | "clone", _ => cloneTag id arguments
  | "rename", _ =>
    renameTag id (← onlyArgument arguments)
    return Value.node id
  | "get_attribute", _ => attributesMethod place "get" arguments
  | "set_attribute", [name, value] =>
    setAttribute place name value
    return Value.null
  | "setitem", [.text name, value] =>
    setAttribute place (.text name) value
    return Value.null
  | "setitem", [_, _] => throw .unfitAssignment
  | "set_attributes", [value] =>
    updateAttributes place value
    return Value.null
  | "remove_attribute", [name] =>
    let _ ← popAttribute place name (some .null)
    return Value.null
  | "attributes", _ => return Value.attributesOf place
  | "attr", .text method :: rest => nodeAttributesCommand id method rest
  | "attr", _ => throw .unfitValue
  | "name", _ => return Value.text (grove.nameText id)
  | "set", [.text property, value] =>
    setTagProperty id property value
    return Value.null
  | "full_text", _ =>
    return Value.text (String.join ((← descendantsOf id).filterMap grove.text?))
  | "text_content", _ =>
    let _ ← edit (requireChildren id)
    return Value.text (grove.textContent id)
  | "first_child", _ => return optionalNode (← edit (requireChildren id)).head?
  | "last_child", _ => return optionalNode (← edit (requireChildren id)).getLast?
  | "child_elements", _ => return nodeTuple ((← edit (requireChildren id)).filter grove.isTag)
  | "text_nodes", _ =>
    return nodeTuple ((← edit (requireChildren id)).filter fun child =>
      (grove.text? child).isSome)
  | "location_path", _ => return Value.text (← look fun grove => grove.locationPath id)
  | "query", _ => return Value.results (← queryNodes id arguments)
  | "query_first", _ => return optionalNode (← queryNodes id arguments).head?
  | "css_select", _ => return Value.results (← selectNodes id arguments)
  | "getitem", [key] => tagSubscript id key
  | "delitem", [key] => tagDeletion id key
  | "contains", [member] => tagMembership id member
  | "len", _ => return Value.int (← edit (requireChildren id)).length
  | "list", _ => return Value.nodes (← edit (requireChildren id))
  | "reversed", _ => return Value.nodes (← edit (requireChildren id)).reverse
  | "fetch_child", _ => return optionalNode (← filtered arguments (childrenOf id)).head?
  | "clear_children", _ | "set_attribute", _ | "set_attributes", _ | "remove_attribute", _
  | "set", _ => throw .unfitValue
  | _, _ => commonCommand id command arguments

def kindCommand (id : NodeId) (command : String) (arguments : List Value) : Action Answer := do
  match (← currentGrove).leaf? id with
  | some content => leafCommand id content command arguments
  | none => tagCommand id command arguments

def nodeCommand (id : NodeId) (command : String) (arguments : List Value) : Action Answer := do
  match (← get).member? (.node id) command, isOperation command with
  | some value, false => return value
  | _, _ => kindCommand id command arguments

end XmlGrove.Script
