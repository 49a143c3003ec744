import XmlGrove.Script.Coercion

/-!
# Constructing nodes from values

The checks that values pass before they become names, attributes, contents and
children of nodes.
-/

namespace XmlGrove.Script

/-! ## Sources -/

namespace Workspace

def nameOf (workspace : Workspace) : Value → GivenName
  | .text name => .text name
  | other => .other (workspace.display other)

def attributeEntries (workspace : Workspace) (entries : List (Value × Value)) :
    List (GivenName × Option String) :=
  entries.map fun (name, content) => (workspace.nameOf name, content.text?)

mutual

def sourceOf (workspace : Workspace) : Value → Source
  | .text content => .text content
  | .node id => .node id
  | .template name (.mapping entries) children =>
    .template (.define (workspace.nameOf name) (workspace.attributeEntries entries)
      (sourcesOf workspace children))
  | .template name _ children =>
    .template (.define (workspace.nameOf name) [] (sourcesOf workspace children))
  | _ => .unfit

def sourcesOf (workspace : Workspace) : List Value → List Source
  | [] => []
  | first :: rest => sourceOf workspace first :: sourcesOf workspace rest

end

end Workspace

def requireSources (values : List Value) : Action (List Source) := do
  let workspace ← get
  return workspace.sourcesOf (values.map workspace.settled)

/-! ## Parts of nodes -/

def givenName (value : Value) : Action GivenName := do
  let workspace ← get
  return workspace.nameOf (workspace.settled value)

def tagName (value : Value) : Action Name := do
  MonadExcept.ofExcept (checkedTagName (← givenName value))

def attributeName (value : Value) : Action Name := do
  MonadExcept.ofExcept (checkedAttributeName (← givenName value))

def attributeValue : Value → Action String
  | .text content => return content
  | _ => throw .unfitAttributeValue

def instructionTarget : Value → Action Name
  | .text target =>
    match Name.ofString? target with
    | some name => return name
    | none => throw (.invalidTarget target)
  | _ => throw .unfitValue

def leafContent : Value → Action String
  | .text content => return content
  | _ => throw .unfitContent

def tagTextContent : Value → Action (Option String)
  | .null => return none
  | .text content => return some content
  | _ => throw .unfitTextContent

/-! ## Attributes -/

def attributesAt (place : AttributesPlace) : Action Attributes := return (← get).attributesAt place

def putAttributes (place : AttributesPlace) (attributes : Attributes) : Action Unit :=
  match place with
  | .tag owner => edit (modify (·.setAttributes owner attributes))
  | .object id => modify (·.replace id (.attributes attributes))

def setAttribute (place : AttributesPlace) (name value : Value) : Action Unit := do
  let name ← attributeName name
  let content ← attributeValue value
  putAttributes place ((← attributesAt place).set name content)

def setEntry (place : AttributesPlace) (item : Value) : Action Unit := do
  match ← requireItems item with
  | [name, value] => setAttribute place name value
  | _ => throw .unacceptable

def updateAttributes (place : AttributesPlace) (value : Value) : Action Unit := do
  match (← get).entries? value with
  | some entries => entries.forM fun (name, content) => setAttribute place name content
  | none => (← requireItems value).forM (setEntry place)

/-- The attributes that a new tag is given. Whatever is not true means none. -/
def givenAttributes (value : Value) : Action (List (GivenName × Option String)) := do
  if !(← isTrue value) then return []
  let workspace ← get
  match workspace.entries? value with
  | none => throw .unfitAttributes
  | some entries =>
    let given := workspace.attributeEntries entries
    let _ ← MonadExcept.ofExcept (checkedAttributes {} given)
    return given

/-! ## Nodes -/

/-- The sources that a value yields one after the other; a void one yields none. -/
def givenSources : Value → Action (List Source)
  | .null => return []
  | value => do requireSources (← requireItems value)

def newTag (name attributes children content : Value) : Action NodeId := do
  let _ ← tagName name
  let entries ← givenAttributes attributes
  let sources ← givenSources children
  let id ← edit (createTag (← givenName name) entries sources)
  match content with
  | .null => return id
  | text => do
    edit (setTextContent id (← tagTextContent text))
    return id

def newLeaf (leaf : String → Leaf) (content : Value) : Action NodeId := do
  edit (createLeaf (leaf (← leafContent content)))

def newInstruction (target content : Value) : Action NodeId := do
  let target ← instructionTarget target
  newLeaf (.instruction target) content

def newNode (kind : String) (arguments : List Value) : Action NodeId :=
  match kind, arguments with
  | "tag", [name] => newTag name .null .null .null
  | "tag", [name, attributes] => newTag name attributes .null .null
  | "tag", [name, attributes, children] => newTag name attributes children .null
  | "tag", [name, attributes, children, content] => newTag name attributes children content
  | "text", [content] => newLeaf .text content
  | "comment", [content] => newLeaf .comment content
  | "cdata", [content] => newLeaf .cdata content
  | "pi", [target, content] => newInstruction target content
  | "tag", _ | "text", _ | "comment", _ | "cdata", _ | "pi", _ => throw .unfitValue
  | _, _ => throw .noKey

/-! ## Templates -/

def templateAttributes (value : Value) : Action Value := do
  match (← get).entries? value with
  | none => throw .noMember
  | some entries =>
    entries.forM fun (_, content) => do let _ ← attributeValue content
    asObject (.mapping entries)

def isSingleSource : Value → Bool
  | .text _ | .node _ | .template .. => true
  | _ => false

def templateChildren (items : List Value) : Action (List Value) :=
  if items.all isSingleSource then return items else throw .unfitTemplateChild

/-- What a value that is a template's last argument says about its children, if it
does. -/
def templateSources (value : Value) : Action (Option (Action (List Value))) := do
  if isSingleSource value then return some (return [value])
  else return (sequenceOf? (← opened value)).map templateChildren

def newTemplate (arguments : List Value) : Action Value := do
  match arguments with
  | [name] => return .template name .null []
  | [name, second] =>
    if ((← get).entries? second).isSome then
      return .template name (← templateAttributes second) []
    else
      match ← templateSources second with
      | some children => return .template name .null (← children)
      | none => throw .unfitTemplate
  | [name, second, third] =>
    match ← templateSources third with
    | some children =>
      let attributes ← templateAttributes second
      return .template name attributes (← children)
    | none => throw .unfitTemplate
  | _ => throw .unfitTemplate

end XmlGrove.Script
