import XmlGrove.Script.Command

/-!
# Renditions

A rendition shows how a document is written in the several ways there are.
-/

namespace XmlGrove.Script

structure RenditionRequest where
  source : String
  options : ParserOptions := {}
  defaults : TextDefaults := {}

structure Rendition where
  text : Except Fault String
  rootText : Except Fault String
  serialized : Except Fault String
  rootSerialized : Except Fault String
  /-- The texts that the first descendants of the root are used as. -/
  nodeTexts : List (Except Fault String)
  written : Except Fault String
  notes : List String

namespace Rendition

def shownDescendants : Nat := 12

def outcome (workspace : Workspace) (action : Action Value) : Except Fault String :=
  match action.run.run workspace with
  | (.ok (.text content), _) => .ok content
  | (.ok _, _) => .error .unfitValue
  | (.error fault, _) => .error fault

def ofDocument (workspace : Workspace) (document : DocumentId) (root : NodeId) : Rendition :=
  let grove := workspace.grove
  let defaults := workspace.defaults
  { text := defaults.documentText grove document,
    rootText := defaults.nodeText grove root,
    serialized := outcome workspace (serializeDocument document defaults.indentation),
    rootSerialized := outcome workspace (serializeNode root defaults.indentation),
    nodeTexts :=
      ((grove.descendants root).take shownDescendants).map fun id => defaults.nodeText grove id,
    written := outcome workspace do
      return .text (← writeDocument document defaults.indentation defaults.newline),
    notes := workspace.notes }

def run (request : RenditionRequest) : Except Fault Rendition :=
  let activity : Action (DocumentId × NodeId) := do
    let loaders := Loading.standardLoaders {}
    let source := Loading.LoadSource.input (.text request.source)
    let document ← load (Loading.loadDocument loaders request.options none source)
    return (document, ← edit (requireRoot document))
  let (result, workspace) := activity.run.run { defaults := request.defaults }
  result.map fun (document, root) => ofDocument workspace document root

end Rendition

end XmlGrove.Script
