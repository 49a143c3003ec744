import XmlGrove.Script.DocumentCommand

/-!
# Commands

A command is understood by what its subject is. Nodes and documents have commands
of their own, and so have sequences, mappings and attributes.
-/

namespace XmlGrove.Script

/-! ## Any subject -/

/-- A command to what an object holds. Members that were added to query results come
before what these can be told to do. -/
def objectCommand (id : ObjectId) (command : String) (arguments : List Value) :
    Action Answer := do
  let workspace ← get
  let subject := Value.object id
  match workspace.held id, workspace.member? (.object id) command, isOperation command with
  | .results _, some value, false => return value
  | .results ids, _, _ => resultsCommand id ids command arguments
  | .list items, _, _ => listCommand id items command arguments
  | .tuple items, _, _ => sequenceCommand subject items .tuple command arguments
  | .mapping _, _, _ => mappingCommand id command arguments
  | .attributesOf place, _, _ => attributesCommand subject place command arguments
  | _, _, _ => generalCommand subject command arguments

def commandTo (subject : Value) (command : String) (arguments : List Value) :
    Action Answer := do
  match ← asObject subject with
  | .object id => objectCommand id command arguments
  | .node id => nodeCommand id command arguments
  | .document id => documentCommand id command arguments
  | .text content => textCommand content command arguments
  | .template name attributes children =>
    templateCommand subject name attributes children command arguments
  | .attributesOf place => attributesCommand subject place command arguments
  | other => generalCommand other command arguments

def perform (subject : Value) (command : String) (arguments : List Value) :
    Action Answer := do
  requireCount command arguments
  if command = "set" && (arguments.head?.bind Value.text?).isNone then throw .unfitValue
  (← commandTo subject command arguments).asObject

/-! ## Without a subject -/

def loadSource : Value → Loading.LoadSource
  | .text content => .input (.text content)
  | .node id => .node id
  | _ => .other

def parseNodes (source options : Value) : Action (List NodeId) := do
  let options ← requireOptions options
  match source with
  | .text content =>
    match (Input.text content).parse options with
    | .error fault => throw fault
    | .ok (document, note) =>
      modify fun workspace => { workspace with notes := workspace.notes ++ note.toList }
      edit (document.nodes.mapM plant)
  | _ => throw .noMember

def parseRoot (source options : Value) : Action Answer := do
  match (← parseNodes source options).getLast? with
  | some root => return Value.node root
  | none => throw .assertion

def givenAddress : Value → Option Value
  | .null => none
  | value => some value

/-- Load a document from a value. Nothing can be fetched from a server. -/
def loadValue (source options address : Value) : Action Answer := do
  let options ← requireOptions options
  let loaders := Loading.standardLoaders {}
  return Value.document
    (← load (Loading.loadDocument loaders options (givenAddress address) (loadSource source)))

def offerNode (source : Value) : Action Answer := do
  match ← load (Loading.loadNode (loadSource source)) with
  | .excuse reason => return Value.text reason
  | .nodes sources =>
    return Value.nodes (sources.filterMap fun
      | .node id => some id
      | _ => none)

def setDefaults (indentation newline : Value) : Action Answer := do
  let defaults : TextDefaults :=
    { indentation := ← settled indentation, newline := ← settled newline }
  modify fun workspace => { workspace with defaults := defaults }
  return Value.null

def freeCommand (command : String) (arguments : List Value) : Action Answer := do
  match command, arguments with
  | "new", .text kind :: rest => return Value.node (← newNode kind rest)
  | "parse", [source] => parseRoot source .null
  | "parse", [source, options] => parseRoot source options
  | "parse_nodes", [source] => return Value.nodes (← parseNodes source .null)
  | "parse_nodes", [source, options] => return Value.nodes (← parseNodes source options)
  | "document", [source] => loadValue source .null .null
  | "document", [source, options] => loadValue source options .null
  | "document", [source, options, address] => loadValue source options address
  | "tag_loader", [source] => offerNode source
  | "defaults", [indentation] => setDefaults indentation .null
  | "defaults", [indentation, newline] => setDefaults indentation newline
  | "defaults", [] | "reset_defaults", _ => setDefaults .null .null
  | "new", _ | "parse", _ | "parse_nodes", _ | "document", _ | "tag_loader", _
  | "defaults", _ => throw .unfitValue
  | _, _ => noCommand

def performFree (command : String) (arguments : List Value) : Action Answer := do
  (← freeCommand command arguments).asObject

end XmlGrove.Script
