import XmlGrove.Script.GeneralCommand

/-!
# Commands to mappings

How values are looked up by their keys, set and taken away: in mappings of any keys and
values, and in attributes, which have names and texts only.
-/

namespace XmlGrove.Script

/-! ## Entries -/

def lookUpEntry (workspace : Workspace) (entries : List (Value × Value)) (key : Value) :
    Option Value :=
  (entries.find? fun (present, _) => workspace.equal present key).map Prod.snd

/-- Entries with a value for a key. It takes the place of what the key had before. -/
def setInEntries (workspace : Workspace) (key value : Value) :
    List (Value × Value) → List (Value × Value)
  | [] => [(key, value)]
  | (present, old) :: rest =>
    if workspace.equal present key then (present, value) :: rest
    else (present, old) :: setInEntries workspace key value rest

def eraseEntry (workspace : Workspace) (entries : List (Value × Value)) (key : Value) :
    List (Value × Value) :=
  entries.filter fun (present, _) => !workspace.equal present key

def entryItems (entries : List (Value × Value)) : Value :=
  .list (entries.map fun (key, value) => .tuple [key, value])

/-! ## Mappings -/

def mappingEntries (id : ObjectId) : Action (List (Value × Value)) := do
  return ((← get).entries? (.object id)).getD []

def setMappingEntry (id : ObjectId) (key value : Value) : Action Unit := do
  requireKey key
  let workspace ← get
  let entries ← mappingEntries id
  set (workspace.replace id (.mapping (setInEntries workspace key value entries)))

def setMappingItem (id : ObjectId) (item : Value) : Action Unit := do
  match ← requireItems item with
  | [key, value] => setMappingEntry id key value
  | _ => throw .unacceptable

def updateMapping (id : ObjectId) (value : Value) : Action Unit := do
  match (← get).entries? value with
  | some entries => entries.forM fun (key, content) => setMappingEntry id key content
  | none => (← requireItems value).forM (setMappingItem id)

def popMappingEntry (id : ObjectId) (key : Value) (replacement : Option Value) :
    Action Value := do
  let workspace ← get
  let entries ← mappingEntries id
  match lookUpEntry workspace entries key, replacement with
  | some value, _ =>
    set (workspace.replace id (.mapping (eraseEntry workspace entries key)))
    return value
  | none, some value => return value
  | none, none => throw .noKey

def mappingCommand (id : ObjectId) (command : String) (arguments : List Value) :
    Action Answer := do
  let workspace ← get
  let entries ← mappingEntries id
  let find (key : Value) : Action (Option Value) := do
    requireKey key
    return lookUpEntry workspace entries key
  match command, arguments with
  | "len", _ => return Value.int entries.length
  | "list", _ | "keys", [] => return Value.list (entries.map Prod.fst)
  | "reversed", _ => return Value.list (entries.reverse.map Prod.fst)
  | "values", [] => return Value.list (entries.map Prod.snd)
  | "items", [] => return entryItems entries
  | "contains", [key] => return Value.bool (← find key).isSome
  | "getitem", [key] =>
    match ← find key with
    | some value => return value
    | none => throw .noKey
  | "setitem", [key, value] => do
    setMappingEntry id key value
    return Value.null
  | "delitem", [key] => do
    requireKey key
    let _ ← popMappingEntry id key none
    return Value.null
  | "get", [key] => return (← find key).getD .null
  | "get", [key, replacement] => return (← find key).getD replacement
  | "pop", key :: replacement =>
    if 1 < replacement.length then throw .unfitValue
    if !entries.isEmpty then requireKey key
    return ← popMappingEntry id key replacement.head?
  | "popitem", [] =>
    match entries.getLast? with
    | none => throw .noKey
    | some (key, value) => do
      let _ ← popMappingEntry id key none
      return Value.tuple [key, value]
  | "setdefault", [key] | "setdefault", [key, _] => do
    let content := (arguments.getD 1 .null)
    match ← find key with
    | some value => return value
    | none => do
      setMappingEntry id key content
      return content
  | "update", [] => return Value.null
  | "update", [other] => do
    updateMapping id other
    return Value.null
  | "clear", [] => do
    modify (·.replace id (.mapping []))
    return Value.null
  | "keys", _ | "values", _ | "items", _ | "get", _ | "pop", _ | "popitem", _
  | "setdefault", _ | "update", _ | "clear", _ => throw .unfitValue
  | _, _ => generalCommand (.object id) command arguments

/-! ## Attributes -/

/-- The value of the attribute that a key names. Other keys than texts can't be found,
and some can't even be looked for. -/
def lookUp (attributes : Attributes) (key : Value) : Action (Option String) := do
  requireKey key
  return key.text?.bind attributes.get?

def popAttribute (place : AttributesPlace) (key : Value) (replacement : Option Value) :
    Action Value := do
  let attributes ← attributesAt place
  match ← lookUp attributes key, replacement with
  | some content, _ =>
    putAttributes place (attributes.erase (key.text?.getD ""))
    return .text content
  | none, some replacement => return replacement
  | none, none => throw .noKey

def attributeItems (attributes : Attributes) : Value :=
  entryItems (attributes.pairs.map fun (name, content) => (.text name, .text content))

def popFirstAttribute (place : AttributesPlace) : Action Value := do
  let attributes ← attributesAt place
  match attributes.pairs with
  | [] => throw .noKey
  | (name, content) :: _ =>
    putAttributes place (attributes.erase name)
    return .tuple [.text name, .text content]

def defaultAttribute (place : AttributesPlace) (key content : Value) : Action Value := do
  match ← lookUp (← attributesAt place) key with
  | some present => return .text present
  | none =>
    setAttribute place key content
    return content

def attributesMethod (place : AttributesPlace) (command : String) (arguments : List Value) :
    Action Answer := do
  let attributes ← attributesAt place
  match command, arguments with
  | "keys", [] => return Value.list (attributes.names.map .text)
  | "values", [] => return Value.list (attributes.values.map .text)
  | "items", [] => return attributeItems attributes
  | "as_dict", [] => return Value.textMapping attributes.pairs
  | "pop", [key] => return ← popAttribute place key none
  | "pop", [key, replacement] => return ← popAttribute place key (some replacement)
  | "popitem", [] => return ← popFirstAttribute place
  | "setdefault", [key] => return ← defaultAttribute place key .null
  | "setdefault", [key, content] => return ← defaultAttribute place key content
  | "update", [] => return Value.null
  | "update", [other] => do
    updateAttributes place other
    return Value.null
  | "clear", [] => do
    putAttributes place {}
    return Value.null
  | "get", [key] => return ((← lookUp attributes key).map Value.text).getD .null
  | "get", [key, replacement] =>
    return ((← lookUp attributes key).map Value.text).getD replacement
  | "keys", _ | "values", _ | "items", _ | "as_dict", _ | "pop", _ | "popitem", _
  | "setdefault", _ | "update", _ | "clear", _ | "get", _ => throw .unfitValue
  | _, _ => noCommand

def nodeAttributesCommand (id : NodeId) (command : String) (arguments : List Value) :
    Action Answer := do
  let place := AttributesPlace.tag id
  match command, arguments with
  | "del", [key] => do
    let _ ← popAttribute place key none
    return Value.null
  | "eq", [other] => return Value.bool ((← get).equal (.attributesOf place) other)
  | "str", _ => do
    let shown := Value.text (← attributesAt place).display
    return Value.list [shown, shown]
  | "del", _ | "eq", _ => throw .unfitValue
  | _, _ => attributesMethod place command arguments

def isGeneral (command : String) : Bool :=
  ["str", "repr", "bool", "eq", "is", "copy", "deepcopy", "compare", "traverse"].contains
    command

def attributesCommand (subject : Value) (place : AttributesPlace) (command : String)
    (arguments : List Value) : Action Answer := do
  let attributes ← attributesAt place
  match command, arguments with
  | "len", _ => return Value.int attributes.names.length
  | "list", _ => return Value.list (attributes.names.map .text)
  | "reversed", _ => throw .unfitValue
  | "contains", [key] => return Value.bool (← lookUp attributes key).isSome
  | "getitem", [key] =>
    match ← lookUp attributes key with
    | some content => return Value.text content
    | none => throw .noKey
  | "setitem", [name, content] => do
    setAttribute place name content
    return Value.null
  | "delitem", [key] => do
    let _ ← popAttribute place key none
    return Value.null
  | _, _ =>
    if isGeneral command then generalCommand subject command arguments
    else attributesMethod place command arguments

end XmlGrove.Script
