import XmlGrove.Script.Comparison
import XmlGrove.Script.Copying

/-!
# Commands to any value

What any value can be asked for, and the faults that follow where a value has neither
items nor members.
-/

namespace XmlGrove.Script

/-! ## Traversals -/

/-- The truth value that a value equals, where the numbers zero and one do. -/
def traversalFlag (value : Value) : Action Bool := do
  let workspace ← get
  if workspace.equal value (.bool true) then return true
  if workspace.equal value (.bool false) then return false
  throw .noTraversal

def traversalOf (depthFirst fromTop : Value) : Action (Bool × Bool) := do
  requireKey depthFirst
  requireKey fromTop
  let depthFirst ← traversalFlag depthFirst
  let fromTop ← traversalFlag fromTop
  let _ ← MonadExcept.ofExcept (Grove.traversal depthFirst fromTop)
  return (depthFirst, fromTop)

/-- Traverse what is no node. It is visited as such, unless its descendants are asked
for. -/
def traverseValue (value depthFirst fromTop : Value) (filters : List Value) :
    Action Answer := do
  let order ← traversalOf depthFirst fromTop
  let filters ← requireFilters filters
  if order = (true, true) then throw .noMember
  let grove ← currentGrove
  let nowhere : NodeId := ⟨grove.entries.size⟩
  let passed := (grove.passing filters [nowhere]).length
  return Value.list (List.replicate passed value)

/-! ## Commands -/

def generalCommand (subject : Value) (command : String) (arguments : List Value) :
    Action Answer := do
  match command, arguments with
  | "str", _ => return Value.text (← displayed subject)
  | "repr", _ => return Value.text (← described subject)
  | "bool", _ => return Value.bool (← isTrue subject)
  | "eq", [other] =>
    let equal := (← get).equal subject other
    return Value.list [.bool equal, .bool !equal]
  | "is", [other] => return Value.bool (isSame subject other)
  | "copy", _ => return ← copyValue subject
  | "deepcopy", _ => return ← deepCopyValue subject
  | "compare", [other] => compareValues subject other
  | "traverse", depthFirst :: fromTop :: filters =>
    traverseValue subject depthFirst fromTop filters
  | "len", _ | "list", _ | "reversed", _ | "contains", _ | "getitem", _ | "setitem", _
  | "delitem", _ => throw .unfitValue
  | _, _ => noCommand

end XmlGrove.Script
