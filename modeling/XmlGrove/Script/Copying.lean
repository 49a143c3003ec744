import XmlGrove.Script.Construction

/-!
# Copying values

A shallow copy shares what is in the copied value, a deep one does not. Within a deep
copy a node that occurs several times has one clone.
-/

namespace XmlGrove.Script

/-! ## Shallow copies -/

def copyMembers (source target : ObjectId) : Action Unit :=
  modify fun workspace =>
    let copies := (workspace.membersOf (.object source)).map fun member =>
      { member with holder := .object target }
    { workspace with members := copies ++ workspace.members }

def copyValue (value : Value) : Action Value := do
  match value, ← opened value with
  | _, .node id => return .node (← edit (cloneNode false id))
  | _, .document id => return .document (← edit (cloneDocument id))
  | _, .attributesOf place => return .object (← newObject (.attributesOf place))
  | _, .list items => return .object (← newObject (.list items))
  | _, .mapping entries => return .object (← newObject (.mapping entries))
  | .object source, .results ids => do
    let target ← newObject (.results ids)
    copyMembers source target
    return .object target
  | _, _ => return value

/-! ## Deep copies -/

abbrev Clones := List (Identity × Value)

abbrev Copying := StateT Clones Action

def cloneOnce (identity : Identity) (clone : Action Value) : Copying Value := do
  match (← get).find? fun (known, _) => known = identity with
  | some (_, present) => return present
  | none => do
    let made ← clone
    modify ((identity, made) :: ·)
    return made

def copyNode (id : NodeId) : Copying Value :=
  cloneOnce (.node id) do return .node (← edit (cloneNode true id))

mutual

/-- A copy of a settled value that shares nothing with it that could be changed. -/
def deepCopy : Value → Copying Value
  | .node id => copyNode id
  | .document id =>
    cloneOnce (.document id) do return .document (← edit (cloneDocument id))
  | .list items => do asObject (.list (← deepCopyAll items))
  | .tuple items => do asObject (.tuple (← deepCopyAll items))
  | .mapping entries => do asObject (.mapping (← deepCopyEntries entries))
  | .template name attributes children => do
    let name ← deepCopy name
    let attributes ← deepCopy attributes
    let children ← deepCopyAll children
    return .template name attributes children
  | .results ids => do
    let clones ← ids.mapM copyNode
    asObject (.results (clones.filterMap Value.node?))
  | .attributes content => do
    return .attributesOf (.object (← newObject (.attributes content)))
  | other => return other

def deepCopyAll : List Value → Copying (List Value)
  | [] => return []
  | first :: rest => do
    let copy ← deepCopy first
    let others ← deepCopyAll rest
    return copy :: others

def deepCopyEntries : List (Value × Value) → Copying (List (Value × Value))
  | [] => return []
  | (key, value) :: rest => do
    let keyCopy ← deepCopy key
    let copy ← deepCopy value
    let others ← deepCopyEntries rest
    return (keyCopy, copy) :: others

end

def deepCopyValue (value : Value) : Action Value := do
  let (copy, _) ← (deepCopy (← settled value)).run []
  return copy

end XmlGrove.Script
