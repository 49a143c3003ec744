import XmlGrove.Script.Construction

/-!
# Terms

Terms denote the values that a script's steps are given. The value of a term can
depend on what is held in registers, and evaluating it can add nodes to the grove.
-/

namespace XmlGrove.Script

inductive Term where
  | null
  | bool (value : Bool)
  | int (value : Int)
  | decimal (value : Decimal)
  | text (value : String)
  | list (items : List Term)
  | tuple (items : List Term)
  | mapping (entries : List (String × Term))
  /-- A range, given by its stop, its start and its stop or by its step as well. -/
  | slice (bounds : List Term)
  /-- What is held in a register or below a node that is. -/
  | reference (path : String)
  | template (arguments : List Term)
  | create (kind : String) (arguments : List Term)
  | unknown

/-! ## References -/

def referenceParts (path : String) : String × List String :=
  match path.splitOn "/" with
  | [] => ("", [])
  | register :: way => (register, way)

def childAt? (grove : Grove) (value : Value) (index : Int) : Option Value :=
  match value with
  | .node id => (Sequence.get? (grove.children id) index).map .node
  | _ => none

def itemAt? (workspace : Workspace) (value : Value) (index : Int) : Option Value :=
  match workspace.opened value with
  | .list items | .tuple items => Sequence.get? items index
  | .results ids => (Sequence.get? ids index).map .node
  | _ => none

def followChildren (grove : Grove) : Value → List String → Option Value
  | value, [] => some value
  | value, step :: rest =>
    (step.toInt?.bind (childAt? grove value)).bind fun child => followChildren grove child rest

def followWay (workspace : Workspace) (value : Value) : List String → Option Value
  | [] => some value
  | step :: rest =>
    match step.toInt?.bind (itemAt? workspace value) with
    | some item => followChildren workspace.grove item rest
    | none => followChildren workspace.grove value (step :: rest)

def Workspace.resolve? (workspace : Workspace) (path : String) : Option Value :=
  let (name, way) := referenceParts path
  (workspace.register? name).bind fun value => followWay workspace value way

def resolve (path : String) : Action Value := do
  match (← get).resolve? path with
  | some value => return value
  | none => throw .danglingReference

/-! ## Evaluation -/

def sliceOf : List Value → Except Fault Value
  | [stop] => .ok (.slice .null stop .null)
  | [start, stop] => .ok (.slice start stop .null)
  | [start, stop, step] => .ok (.slice start stop step)
  | _ => .error .unfitValue

namespace Term

mutual

def evaluate : Term → Action Value
  | .null => return .null
  | .bool value => return .bool value
  | .int value => return .int value
  | .decimal value => return .decimal value
  | .text value => return .text value
  | .list items => do asObject (.list (← evaluateAll items))
  | .tuple items => do asObject (.tuple (← evaluateAll items))
  | .mapping entries => do asObject (.mapping (← evaluateEntries entries))
  | .slice bounds => do
    let values ← evaluateAll bounds
    MonadExcept.ofExcept (sliceOf values)
  | .reference path => resolve path
  | .template arguments => do
    let values ← evaluateAll arguments
    newTemplate values
  | .create kind arguments => do
    let values ← evaluateAll arguments
    return .node (← newNode kind values)
  | .unknown => throw .noKey

def evaluateAll : List Term → Action (List Value)
  | [] => return []
  | first :: rest => do
    let value ← evaluate first
    let others ← evaluateAll rest
    return value :: others

def evaluateEntries : List (String × Term) → Action (List (Value × Value))
  | [] => return []
  | (key, term) :: rest => do
    let value ← evaluate term
    let others ← evaluateEntries rest
    return (.text key, value) :: others

end

end Term

end XmlGrove.Script
