import XmlGrove.Grove.Outline
import XmlGrove.Script.Answer

/-!
# Reports

What is reported about the values that a script yields. Nodes and documents are
told apart by numbers, which are given out in the order in which they are
reported for the first time.
-/

namespace XmlGrove.Script

/-! ## Numbers -/

/-- What was reported so far; the position in the list is the number. -/
structure Numbering where
  known : List Identity := []
  deriving Repr, DecidableEq

namespace Numbering

def number (numbering : Numbering) (identity : Identity) : Nat × Numbering :=
  match numbering.known.idxOf? identity with
  | some position => (position, numbering)
  | none => (numbering.known.length, ⟨numbering.known ++ [identity]⟩)

end Numbering

abbrev Reporting := StateT Numbering (Except Fault)

def numberOf (identity : Identity) : Reporting Nat := fun numbering =>
  .ok (numbering.number identity)

/-! ## Values -/

inductive Shown where
  | null
  | bool (value : Bool)
  | int (value : Int)
  | decimal (value : Decimal)
  | text (value : String)
  | list (items : List Shown)
  | node (number : Nat) (label : Tree.Label)
  | document (number : Nat) (rootName : String)
  | comparison (report : Grove.ComparisonReport)

def showNode (grove : Grove) (id : NodeId) : Reporting Shown := do
  match grove.label? id with
  | some label => return .node (← numberOf (.node id)) label
  | none => return .null

def showNodes (grove : Grove) (ids : List NodeId) : Reporting Shown :=
  .list <$> ids.mapM (showNode grove)

def showOptionalNode (grove : Grove) : Option NodeId → Reporting Shown
  | some id => showNode grove id
  | none => return .null

def showDocument (grove : Grove) (id : DocumentId) : Reporting Shown :=
  return .document (← numberOf (.document id)) (grove.rootName id)

def showOptionalDocument (grove : Grove) : Option DocumentId → Reporting Shown
  | some id => showDocument grove id
  | none => return .null

def showAttributes (attributes : Attributes) : Shown :=
  .list (attributes.pairs.map fun (name, content) => .list [.text name, .text content])

mutual

def showValue (grove : Grove) : Value → Reporting Shown
  | .null | .slice .. | .attributesOf _ | .object _ => return .null
  | .bool value => return .bool value
  | .int value => return .int value
  | .decimal value => return .decimal value
  | .text value => return .text value
  | .list items | .tuple items => .list <$> showValues grove items
  | .mapping entries => .list <$> showEntries grove entries
  | .node id => showNode grove id
  | .document id => showDocument grove id
  | .template name attributes children => do
    let nameShown ← showValue grove name
    let attributesShown ← showValue grove attributes
    let childrenShown ← showValues grove children
    return .list [nameShown, attributesShown, .list childrenShown]
  | .results ids => showNodes grove ids
  | .attributes content => return showAttributes content

def showValues (grove : Grove) : List Value → Reporting (List Shown)
  | [] => return []
  | first :: rest => do
    let shown ← showValue grove first
    let others ← showValues grove rest
    return shown :: others

def showEntries (grove : Grove) : List (Value × Value) → Reporting (List Shown)
  | [] => return []
  | (key, value) :: rest => do
    let keyShown ← showValue grove key
    let shown ← showValue grove value
    let others ← showEntries grove rest
    return .list [keyShown, shown] :: others

end

def showAnswer (workspace : Workspace) : Answer → Reporting Shown
  | .plain value => showValue workspace.grove (workspace.settled value)
  | .compared report => return .comparison report

/-! ## States -/

inductive Snapshot where
  | tree (rows : List (Nat × Tree.Label))
  | document (outline : DocumentOutline)

/-- The outline of a tree; it is a fault to ask for it where a node in the tree has no
list of children. -/
def treeOutline (grove : Grove) (id : NodeId) : Except Fault (List (Nat × Tree.Label)) :=
  match grove.outline? id with
  | some rows => .ok rows
  | none => .error .noMember

def outlineOf (workspace : Workspace) (id : DocumentId) : Except Fault DocumentOutline :=
  match workspace.grove.documentOutline? id with
  | none => .error .noMember
  | some outline =>
    .ok { outline with
      version := workspace.settled outline.version
      encoding := workspace.settled outline.encoding }

def snapshot? (workspace : Workspace) : Value → Except Fault (Option Snapshot)
  | .node id => do
    match workspace.grove.documentOf? id with
    | some document => return some (.document (← outlineOf workspace document))
    | none => return some (.tree (← treeOutline workspace.grove (workspace.grove.top id)))
  | .document id => return some (.document (← outlineOf workspace id))
  | _ => .ok none

/-! ## Registers -/

structure NodeReport where
  number : Nat
  parent : Shown
  document : Shown
  depth : Nat
  index : Option Nat
  rows : List (Nat × Tree.Label)

inductive RegisterReport where
  | node (report : NodeReport)
  | document (outline : DocumentOutline)

def reportNode (grove : Grove) (id : NodeId) : Reporting NodeReport := do
  let number ← numberOf (.node id)
  let parent ← showOptionalNode grove (grove.parent? id)
  let document ← showOptionalDocument grove (grove.documentOf? id)
  let index ← MonadExcept.ofExcept (grove.index id)
  let rows ← MonadExcept.ofExcept (treeOutline grove id)
  return {
    number := number, parent := parent, document := document, depth := grove.depth id,
    index := index, rows := rows }

def reportRegister? (workspace : Workspace) : Value → Reporting (Option RegisterReport)
  | .node id => return some (.node (← reportNode workspace.grove id))
  | .document id => do
    return some (.document (← MonadExcept.ofExcept (outlineOf workspace id)))
  | _ => return none

def reportRegisters (workspace : Workspace) :
    List (String × Value) → Reporting (List (String × RegisterReport))
  | [] => return []
  | (name, value) :: rest => do
    let report ← reportRegister? workspace value
    let others ← reportRegisters workspace rest
    return (report.map fun found => (name, found)).toList ++ others

end XmlGrove.Script
