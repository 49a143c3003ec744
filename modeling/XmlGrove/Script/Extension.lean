import XmlGrove.Grove.Outline
import XmlGrove.Loading.Registry
import XmlGrove.Loading.Web
import XmlGrove.Script.Term

/-!
# Loading with extensions

Extensions add loaders for texts that start in a certain way. What such a loader
yields is a sample text or a list of nodes that it holds.
-/

namespace XmlGrove.Script

open Loading (Constraint Loader LoadSource Outcome Registry)

inductive Holdings where
  | samples (texts : List (String × String))
  | nodes (terms : List Term)

structure Extension where
  name : String
  constraint : Constraint
  start : String
  excuse : String
  holdings : Holdings

namespace Extension

def sourcesOf (terms : List Term) : Action (List Source) := do
  requireSources (← Term.evaluateAll terms)

def fetch (extension : Extension) (address : String) : Loading.Load Outcome := do
  match extension.holdings with
  | .nodes terms => return .nodes (← asLoading (sourcesOf terms))
  | .samples texts =>
    Loading.configure fun configuration =>
      { configuration with sourceUrl := some (.text address) }
    let name := String.ofList (address.toList.drop extension.start.length)
    match texts.lookup name with
    | some sample => Loading.loadInput (.input (.text sample))
    | none => throw .noKey

def tryLoad (extension : Extension) : LoadSource → Loading.Load Outcome
  | .input (.text address) =>
    if extension.start.toList.isPrefixOf address.toList then extension.fetch address
    else return .excuse extension.excuse
  | _ => return .excuse extension.excuse

def loader (extension : Extension) : Loader := ⟨extension.name, extension.tryLoad⟩

def addTo (loaders : List Loader) (extension : Extension) : Except Fault (List Loader) := do
  let registry : Registry := ⟨loaders.map (·.name)⟩
  let position ← registry.position extension.constraint
  return loaders.insertIdx (min position loaders.length) extension.loader

end Extension

/-! ## Loading -/

structure LoadRequest where
  source : LoadSource
  options : Value := .null
  sourceUrl : Option Value := none
  cloned : Bool := false
  web : Loading.Web := {}
  extensions : List Extension := []

structure LoadReport where
  outline : DocumentOutline
  clone : Option DocumentOutline
  sourceUrl : Value
  options : List Value
  contentType : Option (Option String)
  text : Except Fault String
  notes : List String

namespace LoadRequest

def load (request : LoadRequest) : Action (DocumentId × Option DocumentId) := do
  let options ← requireOptions request.options
  let standard := Loading.standardLoaders request.web.services
  let loaders ← MonadExcept.ofExcept (request.extensions.foldlM Extension.addTo standard)
  let document ← Script.load
    (Loading.loadDocument loaders options request.sourceUrl request.source)
  if request.cloned then return (document, some (← edit (cloneDocument document)))
  else return (document, none)

def describe (request : LoadRequest) (workspace : Workspace) (loaded : DocumentId)
    (clone : Option DocumentId) : Except Fault LoadReport := do
  let grove := workspace.grove
  let last := clone.getD loaded
  match grove.documentOutline? loaded, grove.document? last with
  | some outline, some document =>
    return {
      outline := outline, clone := clone.bind grove.documentOutline?,
      sourceUrl := document.sourceUrl, options := optionValues request.options,
      contentType := document.contentType,
      text := workspace.defaults.documentText grove last, notes := workspace.notes }
  | _, _ => throw .noMember

def run (request : LoadRequest) : Except Fault LoadReport := do
  let (result, workspace) := request.load.run.run {}
  let (loaded, clone) ← result
  request.describe workspace loaded clone

end LoadRequest

end XmlGrove.Script
