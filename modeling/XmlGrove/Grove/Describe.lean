import XmlGrove.Grove.Lineage

/-!
# Describing nodes

A description shows what a node is and, for a tag node, where it is. The place of
what tells nodes of equal content apart is held by an empty mark.
-/

namespace XmlGrove.Grove

/-- What ends a description: the mark of the node's identity, left blank. -/
def identityMark : String := "[0x]"

def describeLeaf (content : Leaf) : String :=
  let shown := match content with
    | .text content => s!"text=\x22{content}\x22"
    | .comment content | .cdata content => s!"\x22{content}\x22"
    | .instruction target content => s!"\x22{target}\x22, \x22{content}\x22"
  s!"<{content.kind.label}({shown}) {identityMark}>"

def describe (grove : Grove) (id : NodeId) : Except Fault String :=
  match grove.leaf? id, grove.tag? id with
  | some content, _ => .ok (describeLeaf content)
  | none, some (name, attributes) =>
    (grove.locationPath id).map fun path =>
      let kind := NodeKind.tag.label
      let shown := attributes.display
      s!"<{kind}(\x22{name}\x22, {shown}, {path}) {identityMark}>"
  | none, none => .error .noMember

def describeAll (grove : Grove) : List NodeId → Except Fault (List String)
  | [] => .ok []
  | first :: rest => do
    let description ← grove.describe first
    let others ← grove.describeAll rest
    return description :: others

end XmlGrove.Grove
