import XmlGrove.Grove.Document

/-!
# Outlines of nodes and documents

An outline shows what a node or a document holds, without any identity: two
outlines are equal if and only if what they show is.
-/

namespace XmlGrove

structure DocumentOutline where
  declaration : Option Tree.Label
  version : Value
  encoding : Value
  prologue : List Tree.Label
  root : List (Nat × Tree.Label)

namespace Grove

def outline? (grove : Grove) (id : NodeId) : Option (List (Nat × Tree.Label)) :=
  (grove.view? id).map Tree.outline

def documentOutline? (grove : Grove) (id : DocumentId) : Option DocumentOutline :=
  match grove.document? id, (grove.documentRoot? id).bind grove.outline? with
  | some document, some root =>
    some
      { declaration := document.declaration.bind grove.label?,
        version := document.version, encoding := document.encoding,
        prologue := (grove.prologue id).filterMap grove.label?, root := root }
  | _, _ => none

def rootName (grove : Grove) (id : DocumentId) : String :=
  ((grove.documentRoot? id).bind grove.tag?).elim "" fun (name, _) => name.text

end Grove

end XmlGrove
