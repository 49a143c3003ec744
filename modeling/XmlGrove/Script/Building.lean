import XmlGrove.Grove.Outline
import XmlGrove.Script.Command

/-!
# Building documents

A builder appends nodes to the tag node that is on top of its stack. The bottom
of the stack is the root of the document that is built.
-/

namespace XmlGrove.Script

structure Builder where
  document : DocumentId
  current : NodeId
  outer : List NodeId := []
  deriving Repr, DecidableEq

inductive BuildStep where
  | call (method : String) (arguments : List Value)
  | within (arguments : List Value) (steps : List BuildStep)
  | group (steps : List BuildStep)
  /-- Add an element, and leave it because of a fault. -/
  | abandon (arguments : List Value)

structure BuildReport where
  method : String
  fault : Option Fault
  currentPath : Except Fault String
  rootText : Except Fault String

namespace Builder

/-- Go back to the tag node that was current before. The root is never left. -/
def leave (builder : Builder) : Builder :=
  match builder.outer with
  | [] => builder
  | parent :: rest => { builder with current := parent, outer := rest }

def enter (builder : Builder) (id : NodeId) : Builder :=
  { builder with current := id, outer := builder.current :: builder.outer }

theorem leave_enter (builder : Builder) (id : NodeId) : (builder.enter id).leave = builder :=
  rfl

/-! ## Methods -/

def append (builder : Builder) (node : Action NodeId) : Action Builder := do
  let id ← node
  let _ ← edit (appendChild builder.current (.node id))
  return builder

def appendToPrologue (builder : Builder) (node : Action NodeId) : Action Builder := do
  let id ← node
  edit (Prologue.append builder.document id)
  return builder

def element (builder : Builder) (name attributes content : Value) : Action Builder := do
  let id ← newTag name attributes .null content
  let _ ← edit (appendChild builder.current (.node id))
  return builder.enter id

def elementOf (builder : Builder) : List Value → Action Builder
  | [name] => builder.element name .null .null
  | [name, attributes] => builder.element name attributes .null
  | [name, attributes, content] => builder.element name attributes content
  | _ => throw .unfitValue

def call (builder : Builder) (method : String) (arguments : List Value) : Action Builder := do
  match method, arguments with
  | "attribute", [name, value] =>
    setAttribute (.tag builder.current) name value
    return builder
  | "attributes", [value] =>
    updateAttributes (.tag builder.current) value
    return builder
  | "cdata", [content] => builder.append (newLeaf .cdata content)
  | "comment", [content] => builder.append (newLeaf .comment content)
  | "text", [content] => builder.append (newLeaf .text content)
  | "instruction", [target, content] => builder.append (newInstruction target content)
  | "document_comment", [content] => builder.appendToPrologue (newLeaf .comment content)
  | "processing_instruction", [target, content] =>
    builder.appendToPrologue (newInstruction target content)
  | "element", _ => builder.elementOf arguments
  | "parent", [] => return builder.leave
  | "attribute", _ | "attributes", _ | "cdata", _ | "comment", _ | "text", _
  | "instruction", _ | "document_comment", _ | "processing_instruction", _ | "parent", _
  | "current", _ | "document", _ => throw .unfitValue
  | _, _ => throw .noMember

end Builder

/-! ## Running steps -/

structure Site where
  workspace : Workspace
  builder : Builder

namespace Site

def attempt (site : Site) (activity : Builder → Action Builder) : Option Fault × Site :=
  match (activity site.builder).run.run site.workspace with
  | (.ok builder, workspace) => (none, ⟨workspace, builder⟩)
  | (.error fault, workspace) => (some fault, { site with workspace := workspace })

def leave (site : Site) : Site := { site with builder := site.builder.leave }

def report (site : Site) (method : String) (fault : Option Fault) : BuildReport :=
  let grove := site.workspace.grove
  { method := method, fault := fault, currentPath := grove.locationPath site.builder.current,
    rootText :=
      match grove.documentRoot? site.builder.document with
      | some root => site.workspace.defaults.nodeText grove root
      | none => .error .noMember }

end Site

namespace BuildStep

mutual

/-- Take a step. Its report is followed by those about the steps in it. -/
def run (site : Site) : BuildStep → List BuildReport × Site
  | .call method arguments =>
    let (fault, after) := site.attempt fun builder => builder.call method arguments
    ([after.report method fault], after)
  | .within arguments steps =>
    match site.attempt fun builder => builder.elementOf arguments with
    | (some fault, after) => ([after.report "with" (some fault)], after)
    | (none, entered) =>
      let (reports, last) := runAll entered steps
      let after := last.leave
      (after.report "with" none :: reports, after)
  | .group steps =>
    let (reports, last) := runAll site steps
    let after := last.leave
    (after.report "with_element" none :: reports, after)
  | .abandon arguments =>
    match site.attempt fun builder => builder.elementOf arguments with
    | (some fault, after) => ([after.report "raise_in_with" (some fault)], after)
    | (none, entered) =>
      let after := entered.leave
      ([after.report "raise_in_with" (some .noKey)], after)

def runAll (site : Site) : List BuildStep → List BuildReport × Site
  | [] => ([], site)
  | first :: rest =>
    let (reports, after) := run site first
    let (others, last) := runAll after rest
    (reports ++ others, last)

end

end BuildStep

/-! ## Whole buildings -/

inductive Foundation where
  | root (name attributes version encoding : Value)
  | source (text : String)

namespace Foundation

def builderFor (document : DocumentId) : Action Builder := do
  return { document := document, current := ← edit (requireRoot document) }

def lay : Foundation → Action Builder
  | .root name attributes version encoding => do
    let root ← newTag name attributes .null .null
    let loaders := Loading.standardLoaders {}
    let document ← load (Loading.loadDocument loaders {} none (.node root))
    setDocumentProperty document "version" version
    setDocumentProperty document "encoding" encoding
    builderFor document
  | .source text => do
    let loaders := Loading.standardLoaders {}
    let document ← load (Loading.loadDocument loaders {} none (.input (.text text)))
    builderFor document

end Foundation

structure BuildingReport where
  steps : List BuildReport
  text : Except Fault String
  outline : Option DocumentOutline
  notes : List String

def build (foundation : Foundation) (steps : List BuildStep) : Except Fault BuildingReport :=
  let (result, workspace) := foundation.lay.run.run {}
  result.map fun builder =>
    let (reports, site) := BuildStep.runAll ⟨workspace, builder⟩ steps
    let grove := site.workspace.grove
    { steps := reports, text := site.workspace.defaults.documentText grove builder.document,
      outline := grove.documentOutline? builder.document, notes := site.workspace.notes }

end XmlGrove.Script
