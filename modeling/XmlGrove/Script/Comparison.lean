import XmlGrove.Script.Answer

/-!
# Comparing values

Nodes are compared to nodes by their trees. Any other value is of another kind than a
node, and two of them can only be found to be equal.
-/

namespace XmlGrove.Script

def kindDescription (grove : Grove) : Value → String
  | .null => "<class 'NoneType'>"
  | .bool _ => "<class 'bool'>"
  | .int _ => "<class 'int'>"
  | .decimal _ => "<class 'float'>"
  | .text _ => "<class 'str'>"
  | .list _ => "<class 'list'>"
  | .tuple _ => "<class 'tuple'>"
  | .mapping _ => "<class 'dict'>"
  | .slice .. => "<class 'slice'>"
  | .node id => grove.kindDescription id
  | .document _ => "<class 'sprig.Document'>"
  | .template .. => "<class '_sprig.nodes._TagDefinition'>"
  | .results _ => "<class '_sprig.query.QueryResults'>"
  | .attributes _ | .attributesOf _ | .object _ => "<class '_sprig.nodes.TagAttributes'>"

/-- Tell whether a settled value is of the kind of another one. Truth values are
integers, and templates are tuples. -/
def isOfKindOf (grove : Grove) (left right : Value) : Bool :=
  match left, right with
  | .int _, .bool _ | .tuple _, .template .. => true
  | _, _ => kindDescription grove left == kindDescription grove right

def optionalDisplay (grove : Grove) : Value → Except Fault (Option String)
  | .null => .ok none
  | value => (inner grove value).map some

def kindReport (grove : Grove) (id : NodeId) (value : Value) :
    Except Fault Grove.ComparisonReport := do
  let nodeShown ← grove.describe id
  let shown ← optionalDisplay grove value
  let remark ← grove.parentRemark id
  let nodeKind := grove.kindDescription id
  let valueKind := kindDescription grove value
  return {
    kind := some .kind, left := some nodeShown, right := shown,
    text := s!"Nodes are of different type{remark} {nodeKind} != {valueKind}" }

/-- Compare two settled values. Other than nodes have no parent to be reported. -/
def compareSettled (grove : Grove) : Value → Value → Except Fault Grove.ComparisonReport
  | .node id, .node other => grove.compare id other
  | .node id, value => kindReport grove id value
  | .null, .null => .ok {}
  | .null, _ => .error .assertion
  | left, right =>
    if isOfKindOf grove left right && equals grove left right then .ok {}
    else .error .noMember

def compareValues (left right : Value) : Action Answer := do
  let workspace ← get
  return .compared (← MonadExcept.ofExcept
    (compareSettled workspace.grove (workspace.settled left) (workspace.settled right)))

end XmlGrove.Script
