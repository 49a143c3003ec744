import XmlGrove.Grove.Describe
import XmlGrove.Script.Workspace

/-!
# Displaying values

How settled values are shown within other values and in messages. A text is shown as
it is in a message and between quotes within another value.
-/

namespace XmlGrove.Script

def quotedText (content : String) : String :=
  String.ofList (Text.quoted content.toList)

def boolText (value : Bool) : String := if value then "True" else "False"

def resultsText (grove : Grove) (ids : List NodeId) : Except Fault String :=
  (grove.describeAll ids).map Text.quotedList

def listText (shown : List String) : String := "[" ++ ", ".intercalate shown ++ "]"

/-- The display of a tuple of what is shown; a single item is followed by a comma. -/
def tupleText : List String → String
  | [single] => "(" ++ single ++ ",)"
  | shown => "(" ++ ", ".intercalate shown ++ ")"

def mappingText (shown : List String) : String := "\x7b" ++ ", ".intercalate shown ++ "\x7d"

mutual

def inner (grove : Grove) : Value → Except Fault String
  | .null => .ok "None"
  | .bool value => .ok (boolText value)
  | .int value => .ok (toString value)
  | .decimal value => .ok value.display
  | .text content => .ok (quotedText content)
  | .list items => (innerAll grove items).map listText
  | .tuple items => (innerAll grove items).map tupleText
  | .mapping entries => (innerEntries grove entries).map mappingText
  | .slice start stop step => do
    let startShown ← inner grove start
    let stopShown ← inner grove stop
    let stepShown ← inner grove step
    return "slice" ++ tupleText [startShown, stopShown, stepShown]
  | .node id => grove.describe id
  | .document _ => .ok "<sprig.Document object at 0x>"
  | .template name attributes children => do
    let nameShown ← inner grove name
    let attributesShown ← inner grove attributes
    let childrenShown ← innerAll grove children
    return "_TagDefinition(name=" ++ nameShown ++ ", attributes=" ++ attributesShown ++
      ", children=" ++ tupleText childrenShown ++ ")"
  | .results ids => resultsText grove ids
  | .attributes content => .ok content.display
  | .attributesOf _ | .object _ => .error .noMember

def innerAll (grove : Grove) : List Value → Except Fault (List String)
  | [] => .ok []
  | first :: rest => do
    let shown ← inner grove first
    let others ← innerAll grove rest
    return shown :: others

def innerEntries (grove : Grove) : List (Value × Value) → Except Fault (List String)
  | [] => .ok []
  | (key, value) :: rest => do
    let keyShown ← inner grove key
    let shown ← inner grove value
    let others ← innerEntries grove rest
    return (keyShown ++ ": " ++ shown) :: others

end

def outer (defaults : TextDefaults) (grove : Grove) : Value → Except Fault String
  | .text content => .ok content
  | .node id => defaults.nodeText grove id
  | .document id => defaults.documentText grove id
  | other => inner grove other

def Workspace.display (workspace : Workspace) (value : Value) : Except Fault String :=
  outer workspace.defaults workspace.grove (workspace.settled value)

def displayed (value : Value) : Action String := do
  MonadExcept.ofExcept ((← get).display value)

def described (value : Value) : Action String := do
  let workspace ← get
  MonadExcept.ofExcept (inner workspace.grove (workspace.settled value))

end XmlGrove.Script
