import XmlGrove.Grove.Outline
import XmlGrove.Script.Command
import XmlGrove.Script.Term

/-!
# Inspecting parsed trees

A parsed text is planted in a grove of its own, where its nodes are queried,
selected, visited and compared.
-/

namespace XmlGrove.Script

structure Specimen where
  grove : Grove
  root : NodeId
  notes : List String := []

namespace Specimen

def extend (grove : Grove) (options : ParserOptions) (text : String) :
    Except Fault Specimen := do
  match (Input.text text).parse options with
  | .error fault => throw fault
  | .ok (document, note) =>
    let (root, planted) := (plantBelow none document.root).run grove
    return { grove := planted, root := root, notes := note.toList }

def ofText (options : ParserOptions) (text : String) : Except Fault Specimen :=
  extend {} options text

def locateBelow (grove : Grove) (id : NodeId) : List Int → Except Fault NodeId
  | [] => .ok id
  | index :: rest =>
    match grove.childList? id with
    | none => .error .unfitValue
    | some children =>
      match Sequence.get? children index with
      | none => .error .noIndex
      | some child => locateBelow grove child rest

def locate (specimen : Specimen) (way : List Int) : Except Fault NodeId :=
  locateBelow specimen.grove specimen.root way

/-! ## Queries -/

def addresses (grove : Grove) : List NodeId → Except Fault (List (String × String))
  | [] => .ok []
  | first :: rest => do
    let path ← grove.locationPath first
    let others ← addresses grove rest
    return (grove.nameText first, path) :: others

def search (specimen : Specimen) (context : NodeId)
    (find : Grove → NodeId → Except Fault (List NodeId)) :
    Except Fault (List (String × String)) := do
  if specimen.grove.isTag context then
    addresses specimen.grove (← find specimen.grove context)
  else throw .noMember

def query (specimen : Specimen) (context : NodeId) (expressions : List String) :
    List (Except Fault (List (String × String))) :=
  expressions.map fun expression =>
    specimen.search context fun grove id =>
      (Path.Expression.parse expression.toList).map fun parsed => grove.select parsed id

def select (specimen : Specimen) (context : NodeId) (expressions : List String) :
    List (Except Fault (List (String × String))) :=
  expressions.map fun expression =>
    specimen.search context fun grove id => grove.cssSelect Css.readGroup id expression

/-! ## Traversals -/

def visit (specimen : Specimen) (context : NodeId) (order : Grove → NodeId → List NodeId)
    (filters : List Value) : Except Fault (List Tree.Label) := do
  let filters ← filtersOf filters
  let grove := specimen.grove
  return (grove.passing filters (order grove context)).filterMap grove.label?

/-! ## Comparisons -/

def compareTexts (options : ParserOptions) (left right : String) :
    Except Fault (Grove.ComparisonReport × List String) := do
  let first ← ofText options left
  let both ← extend first.grove options right
  let report ← both.grove.compare first.root both.root
  return (report, first.notes ++ both.notes)

/-! ## Templates -/

def templateOutline (arguments : List Term) : Except Fault (List (Nat × Tree.Label)) :=
  let construct : Action NodeId := do
    let definition ← newTemplate (← Term.evaluateAll arguments)
    newTag (.text "root") .null (.list [definition]) .null
  let (result, workspace) := construct.run.run {}
  result.map fun root => (workspace.grove.outline? root).getD []

end Specimen

end XmlGrove.Script
