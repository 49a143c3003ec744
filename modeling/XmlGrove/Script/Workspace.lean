import XmlGrove.Loading.Loader

/-!
# Workspaces

A workspace is what the steps of a script work on: a grove, objects that hold values
which can be changed, values that are held in named registers, and the options that
apply where nodes become texts.
-/

namespace XmlGrove.Script

inductive Identity where
  | node (id : NodeId)
  | document (id : DocumentId)
  | object (id : ObjectId)
  deriving Repr, DecidableEq

structure TextDefaults where
  newline : Value := .null
  indentation : Value := .null

structure Member where
  holder : Identity
  name : String
  value : Value

structure Workspace where
  grove : Grove := {}
  notes : List String := []
  objects : Array Value := #[]
  members : List Member := []
  registers : List (String × Value) := []
  defaults : TextDefaults := {}

/-- A step's activity. A failing one keeps what it did before it failed. -/
abbrev Action := ExceptT Fault (StateM Workspace)

def currentGrove : Action Grove := return (← get).grove

def edit (operation : Edit α) : Action α := do
  let workspace ← get
  let (result, grove) := operation.run.run workspace.grove
  set { workspace with grove := grove }
  MonadExcept.ofExcept result

def look (view : Grove → Except Fault α) : Action α := do
  MonadExcept.ofExcept (view (← currentGrove))

def load (activity : Loading.Load α) : Action α := do
  let workspace ← get
  let start : Loading.State := { grove := workspace.grove, notes := workspace.notes }
  let (result, state) := activity.run.run start
  set { workspace with grove := state.grove, notes := state.notes }
  MonadExcept.ofExcept result

def asLoading (action : Action α) : Loading.Load α := do
  let state ← get
  let start : Workspace := { grove := state.grove, notes := state.notes }
  let (result, workspace) := action.run.run start
  set { state with grove := workspace.grove, notes := workspace.notes }
  MonadExcept.ofExcept result

namespace Workspace

/-! ## Objects -/

def held (workspace : Workspace) (id : ObjectId) : Value :=
  workspace.objects[id.index]?.getD .null

def opened (workspace : Workspace) : Value → Value
  | .object id => workspace.held id
  | value => value

def replace (workspace : Workspace) (id : ObjectId) (value : Value) : Workspace :=
  { workspace with objects := workspace.objects.setIfInBounds id.index value }

def attributesAt (workspace : Workspace) : AttributesPlace → Attributes
  | .tag owner => ((workspace.grove.tag? owner).map Prod.snd).getD {}
  | .object id =>
    match workspace.held id with
    | .attributes content => content
    | _ => {}

/-- What an object holds, settled as far as a bound on the objects within each other
allows. -/
def settledWithin (workspace : Workspace) : Nat → ObjectId → Value
  | 0, _ => .null
  | bound + 1, id =>
    (workspace.held id).settle (workspace.settledWithin bound) workspace.attributesAt

/-- A value, settled. Objects that do not hold themselves are not deeper within each
other than there are objects. -/
def settled (workspace : Workspace) (value : Value) : Value :=
  value.settle (workspace.settledWithin workspace.objects.size) workspace.attributesAt

/-! ## Members -/

def member? (workspace : Workspace) (holder : Identity) (name : String) : Option Value :=
  (workspace.members.find? fun member => member.holder = holder ∧ member.name = name).map
    (·.value)

def addMember (workspace : Workspace) (holder : Identity) (name : String) (value : Value) :
    Workspace :=
  { workspace with members := ⟨holder, name, value⟩ :: workspace.members }

/-- The members that were added to a holder, with their latest values first. -/
def membersOf (workspace : Workspace) (holder : Identity) : List Member :=
  workspace.members.filter fun member => member.holder = holder

/-! ## Registers -/

def register? (workspace : Workspace) (name : String) : Option Value :=
  workspace.registers.lookup name

def hold (workspace : Workspace) (name : String) (value : Value) : Workspace :=
  { workspace with
    registers := (name, value) :: workspace.registers.filter fun (present, _) => present ≠ name }

def sortedRegisters (workspace : Workspace) : List (String × Value) :=
  workspace.registers.mergeSort fun left right => left.1 ≤ right.1

end Workspace

def newObject (value : Value) : Action ObjectId := do
  let workspace ← get
  set { workspace with objects := workspace.objects.push value }
  return ⟨workspace.objects.size⟩

def asObject (value : Value) : Action Value := do
  if value.isCompound then return .object (← newObject value) else return value

def opened (value : Value) : Action Value := return (← get).opened value

def settled (value : Value) : Action Value := return (← get).settled value

def settledAll (values : List Value) : Action (List Value) :=
  return values.map (← get).settled

/-! ## Text defaults -/

def newlineOf : Value → Except Fault Text.Newline
  | .null => .ok .unset
  | .text content =>
    match Text.Newline.ofText? content with
    | some newline => .ok newline
    | none => .error .unacceptable
  | _ => .error .unfitValue

inductive Indentation where
  | regular (layout : Layout)
  /-- Something void that is no text. Tags can't be indented by it, while other nodes
  are marked by what it is displayed as. -/
  | void (mark : Option String)
  deriving Repr, DecidableEq

namespace Indentation

def ofValue : Value → Except Fault Indentation
  | .null => .ok (.regular .canonical)
  | .text content => (Layout.ofIndentation (some content)).map .regular
  | .int 0 | .bool false => .ok (.void (some "0"))
  | .decimal number =>
    if number.isZero then .ok (.void (some number.display)) else .error .noMember
  | .list [] => .ok (.void (some "[]"))
  | .tuple [] => .ok (.void (some "()"))
  | .mapping [] | .results [] => .ok (.void none)
  | _ => .error .noMember

def nodePieces (grove : Grove) (id : NodeId) : Indentation → Except Fault (List String)
  | regular layout => grove.nodePieces layout id
  | void mark =>
    match grove.leaf? id, mark with
    | some (.text content), _ => .ok (Leaf.text content).pieces
    | some content, some shown => .ok [shown ++ content.markup ++ "\n"]
    | _, _ => .error .unfitValue

def documentPieces (grove : Grove) (id : DocumentId) :
    Indentation → Except Fault (List String)
  | regular layout => grove.documentPieces layout id
  | void _ => .error .unfitValue

end Indentation

namespace TextDefaults

def render (defaults : TextDefaults) (pieces : Indentation → Except Fault (List String)) :
    Except Fault String := do
  let newline ← newlineOf defaults.newline
  let indentation ← Indentation.ofValue defaults.indentation
  return newline.renderInMemory (← pieces indentation)

def nodeText (defaults : TextDefaults) (grove : Grove) (id : NodeId) : Except Fault String :=
  defaults.render (·.nodePieces grove id)

def documentText (defaults : TextDefaults) (grove : Grove) (id : DocumentId) :
    Except Fault String :=
  defaults.render (·.documentPieces grove id)

end TextDefaults

end XmlGrove.Script
