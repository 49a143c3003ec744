import XmlGrove.Grove.Document
import XmlGrove.Loading.Elements
import XmlGrove.Loading.Excuse
import XmlGrove.Loading.Uri
import XmlGrove.Parse.Input

/-!
# Loaders

A loader makes nodes of a source, or it excuses itself. The loaders are tried one
after the other, and what one of them notes in the configuration stays there,
even if it fails then.
-/

namespace XmlGrove.Loading

open Encoding (Bytes)

/-! ## Sources -/

structure File where
  path : String
  content : Option Bytes
  isFolder : Bool := false
  deriving Repr, DecidableEq

structure Stream where
  content : Input
  position : Nat := 0
  seekable : Bool := true
  /-- The absolute path of the file that is read, if it is known and still there. -/
  path : Option String := none
  deriving Repr, DecidableEq

inductive LoadSource where
  | input (content : Input)
  | file (content : File)
  | stream (content : Stream)
  | elements (content : ElementSource)
  | node (id : NodeId)
  | other

/-! ## Loading as an activity -/

structure Configuration where
  options : ParserOptions := {}
  sourceUrl : Option Value := none
  declaration : Option NodeId := none
  version : String := Declaration.defaultVersion
  encoding : String := Declaration.defaultEncoding
  contentType : Option (Option String) := none

structure State where
  grove : Grove
  configuration : Configuration := {}
  notes : List String := []

abbrev Load := ExceptT Fault (StateM State)

def edit (operation : Edit α) : Load α := do
  let state ← get
  let (result, grove) := operation.run.run state.grove
  set { state with grove := grove }
  MonadExcept.ofExcept result

def configure (change : Configuration → Configuration) : Load Unit :=
  modify fun state => { state with configuration := change state.configuration }

inductive Outcome where
  | nodes (sources : List Source)
  | excuse (text : String)

structure Loader where
  name : String
  load : LoadSource → Load Outcome

def plantDocument (document : ParsedDocument) : Edit (Option NodeId × List NodeId) := do
  let declaration ← document.declaration.mapM fun content =>
    plant (.leaf (.instruction Name.xml content))
  let nodes ← document.nodes.mapM plant
  return (declaration, nodes)

def parseInput (options : ParserOptions) (input : Input) : Load Outcome := do
  match input.parse options with
  | .error fault => throw fault
  | .ok (document, note) =>
    modify fun state => { state with notes := state.notes ++ note.toList }
    let (declaration, nodes) ← edit (plantDocument document)
    configure fun configuration =>
      { configuration with
        declaration := declaration, version := document.version,
        encoding := document.encoding }
    return .nodes (nodes.map .node)

def parseConfigured (input : Input) : Load Outcome := do
  parseInput (← get).configuration.options input

/-! ## The loaders -/

/-- Uses a tag node that has no parent, or clones the root of a document. -/
def loadNode : LoadSource → Load Outcome
  | .node id => do
    let grove := (← get).grove
    if !grove.isTag id then return .excuse Excuse.noNode
    match grove.parentLink? id with
    | none => return .nodes [.node id]
    | some parent =>
      if grove.isAnchor parent then return .nodes [.node (← edit (cloneNode true id))]
      else return .excuse Excuse.attachedNode
  | _ => return .excuse Excuse.noNode

/-- Note where a document comes from, unless that is known. -/
def noteOrigin (path : String) : Load Unit :=
  configure fun configuration =>
    if configuration.sourceUrl.isSome then configuration
    else { configuration with sourceUrl := some (.text (fileUri path)) }

def loadFile : LoadSource → Load Outcome
  | .file file => do
    noteOrigin file.path
    if file.path.contains (Char.ofNat 0) then throw .unacceptable
    else if file.isFolder then throw .folder
    else
      match file.content with
      | none => throw .fileMissing
      | some data => parseConfigured (.bytes data)
  | _ => return .excuse Excuse.noFile

def Stream.read (stream : Stream) : Except Fault Bytes :=
  match stream.content with
  | .bytes data => .ok (if stream.seekable then data else data.drop stream.position)
  | .text content => if content = "" then .ok [] else .error .unfitValue

def loadStream : LoadSource → Load Outcome
  | .stream stream => do
    match stream.path with
    | some path => noteOrigin path
    | none => pure ()
    let data ← MonadExcept.ofExcept stream.read
    parseConfigured (.bytes data)
  | _ => return .excuse Excuse.noStream

/-- The options for what was fetched. The encoding that was declared along with it counts,
unless one is expected anyway. -/
def effectiveOptions (options : ParserOptions) (fetched : Fetched) :
    Except Fault ParserOptions := do
  if options.encoding.isSome || options.unfitEncoding then return options
  else return { options with encoding := ← fetched.charset }

def fetchableStarts : List String := ["http://", "https://"]

def loadUrl (services : Services) : LoadSource → Load Outcome
  | .input (.text address) => do
    if !fetchableStarts.any fun start => address.toLower.startsWith start then
      return .excuse Excuse.noUrl
    else
      let fetched ← MonadExcept.ofExcept (services.fetch address)
      configure fun configuration =>
        { configuration with
          sourceUrl := some (.text address), contentType := some fetched.contentType }
      let options ←
        MonadExcept.ofExcept (effectiveOptions (← get).configuration.options fetched)
      parseInput options (.bytes fetched.body)
  | _ => return .excuse Excuse.noUrl

def convertTree (namer : Namer) (options : ParserOptions) (preceding : List Item)
    (item : Item) : Edit (List NodeId) := do
  let before ← convertItems namer options preceding
  let root ← convertElement namer options item
  return before ++ [root]

def loadElements (services : Services) : LoadSource → Load Outcome
  | .elements source => do
    let options := (← get).configuration.options
    match locate? source.root source.before source.way with
    | none => throw .noIndex
    | some (item, preceding) =>
      if source.isTree then
        let header := source.header.getD ""
        configure fun configuration =>
          { configuration with
            declaration := none, version := Declaration.version header,
            encoding := Declaration.encoding header }
        let nodes ← edit (convertTree services.namer options preceding item)
        return .nodes (nodes.map .node)
      else if item.isElement then
        return .nodes [.node (← edit (convertElement services.namer options item))]
      else return .excuse Excuse.noElements
  | _ => return .excuse Excuse.noElements

def loadInput : LoadSource → Load Outcome
  | .input content => parseConfigured content
  | _ => return .excuse Excuse.noInput

def nodeLoader : Loader := ⟨"tag_node_loader", loadNode⟩

def standardLoaders (services : Services) : List Loader :=
  [⟨"path_loader", loadFile⟩, ⟨"buffer_loader", loadStream⟩, ⟨"web_loader", loadUrl services⟩,
    ⟨"lxml_loader", loadElements services⟩, ⟨"text_loader", loadInput⟩]

/-! ## Loading documents -/

def tryLoaders (source : LoadSource) (excuses : List (String × (String ⊕ Fault))) :
    List Loader → Load (List Source)
  | [] => throw (.loading excuses)
  | first :: rest => do
    let attempt ← tryCatch (Except.ok <$> first.load source) fun fault => pure (.error fault)
    match attempt with
    | .ok (.nodes sources) => return sources
    | .ok (.excuse text) => tryLoaders source (excuses ++ [(first.name, .inl text)]) rest
    | .error fault => tryLoaders source (excuses ++ [(first.name, .inr fault)]) rest

def loadDocument (loaders : List Loader) (options : ParserOptions)
    (sourceUrl : Option Value) (source : LoadSource) : Load DocumentId := do
  configure fun _ => { options := options, sourceUrl := sourceUrl }
  let sources ← tryLoaders source [] (nodeLoader :: loaders)
  let configuration := (← get).configuration
  edit (createDocument
    { sources := sources, declaration := configuration.declaration,
      version := configuration.version, encoding := configuration.encoding,
      sourceUrl := configuration.sourceUrl.getD .null, options := configuration.options,
      contentType := configuration.contentType })

end XmlGrove.Loading
