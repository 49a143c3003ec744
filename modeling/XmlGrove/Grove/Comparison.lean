import XmlGrove.Difference
import XmlGrove.Grove.Describe

/-!
# Comparing nodes

Two nodes of a grove are compared along with what is below them, pair by pair in
document order. The report names the first two nodes that differ, and says in which
respect they do.
-/

namespace XmlGrove

structure Contrast where
  kind : DifferenceKind
  left : NodeId
  right : NodeId
  deriving Repr, DecidableEq

namespace Grove

def descend? (grove : Grove) (id : NodeId) : List Nat → Option NodeId
  | [] => some id
  | index :: rest => (grove.children id)[index]?.bind fun child => grove.descend? child rest

/-- In which respect two nodes differ, apart from what is below them. -/
def contrastKind? (grove : Grove) (left right : NodeId) :
    Except Fault (Option DifferenceKind) :=
  match grove.label? left, grove.label? right with
  | some (.leaf leftContent), some (.leaf rightContent) =>
    if leftContent.kind ≠ rightContent.kind then .ok (some .kind)
    else if leftContent ≠ rightContent then .ok (some .content)
    else .ok none
  | some (.tag leftName leftAttributes), some (.tag rightName rightAttributes) =>
    if leftName ≠ rightName then .ok (some .name)
    else if !leftAttributes.sameAs rightAttributes then .ok (some .attributes)
    else
      match grove.childList? left, grove.childList? right with
      | some leftChildren, some rightChildren =>
        if leftChildren.length ≠ rightChildren.length then .ok (some .childCount)
        else .ok none
      | _, _ => .error .noMember
  | some _, some _ => .ok (some .kind)
  | _, _ => .error .noMember

/-- The first pair of nodes that differ, where pairs are pending to be compared. The
children of two nodes come next, ahead of all that is pending. -/
def contrastWithin (grove : Grove) :
    Nat → List (NodeId × NodeId) → Except Fault (Option Contrast)
  | _, [] => .ok none
  | 0, _ :: _ => .error .noMember
  | bound + 1, (left, right) :: pending => do
    match ← grove.contrastKind? left right with
    | some respect => return some ⟨respect, left, right⟩
    | none =>
      let children := (grove.children left).zip (grove.children right)
      grove.contrastWithin bound (children ++ pending)

/-- The first two nodes at the same place below two nodes that differ. There are no
more pairs than the square of the number of nodes. -/
def contrast? (grove : Grove) (left right : NodeId) : Except Fault (Option Contrast) :=
  grove.contrastWithin (grove.entries.size * grove.entries.size + 1) [(left, right)]

/-! ## Reports -/

def parentRemark (grove : Grove) (id : NodeId) : Except Fault String :=
  match grove.parent? id with
  | none => .ok ":"
  | some parent =>
    (grove.locationPath parent).map fun path => s!", parent node has location_path {path}:"

def kindDescription (grove : Grove) (id : NodeId) : String :=
  ((grove.kind? id).map NodeKind.description).getD ""

def nameText (grove : Grove) (id : NodeId) : String :=
  ((grove.tag? id).map fun (name, _) => name.text).getD ""

def attributesDisplay (grove : Grove) (id : NodeId) : String :=
  ((grove.tag? id).map fun (_, attributes) => attributes.display).getD ""

/-- The descriptions of two lists of children side by side; what is missing on one
side is shown as void. -/
def describeSideBySide (grove : Grove) :
    List NodeId → List NodeId → Except Fault String
  | [], [] => .ok ""
  | left :: leftRest, [] => do
    let shown ← grove.describe left
    let others ← grove.describeSideBySide leftRest []
    return s!"\n\n{shown}\nNone" ++ others
  | [], right :: rightRest => do
    let shown ← grove.describe right
    let others ← grove.describeSideBySide [] rightRest
    return s!"\n\nNone\n{shown}" ++ others
  | left :: leftRest, right :: rightRest => do
    let leftShown ← grove.describe left
    let rightShown ← grove.describe right
    let others ← grove.describeSideBySide leftRest rightRest
    return s!"\n\n{leftShown}\n{rightShown}" ++ others

def describeContrast (grove : Grove) (contrast : Contrast) : Except Fault String :=
  let left := contrast.left
  let right := contrast.right
  match contrast.kind with
  | .content => do
    let remark ← grove.parentRemark left
    let leftShown ← grove.describe left
    let rightShown ← grove.describe right
    return s!"Nodes\x27 content differ{remark}\n{leftShown}\n{rightShown}"
  | .kind => do
    let remark ← grove.parentRemark left
    let leftKind := grove.kindDescription left
    let rightKind := grove.kindDescription right
    return s!"Nodes are of different type{remark} {leftKind} != {rightKind}"
  | .attributes => do
    let path ← grove.locationPath left
    let leftShown := grove.attributesDisplay left
    let rightShown := grove.attributesDisplay right
    return s!"Attributes of tag nodes at {path} differ:\n{leftShown}\n{rightShown}"
  | .childCount => do
    let path ← grove.locationPath left
    let shown ← grove.describeSideBySide (grove.children left) (grove.children right)
    return s!"Child nodes of tag nodes at {path} differ:" ++ shown
  | .name => do
    let path ← grove.locationPath left
    let leftName := grove.nameText left
    let rightName := grove.nameText right
    return s!"Names of tag nodes at {path} differ: {leftName} != {rightName}"

def equalityReport : String := "Trees are equal."

structure ComparisonReport where
  kind : Option DifferenceKind := none
  left : Option String := none
  right : Option String := none
  text : String := equalityReport
  deriving Repr, DecidableEq

def reportContrast (grove : Grove) (contrast : Contrast) : Except Fault ComparisonReport := do
  let leftShown ← grove.describe contrast.left
  let rightShown ← grove.describe contrast.right
  let text ← grove.describeContrast contrast
  return ⟨some contrast.kind, some leftShown, some rightShown, text⟩

def compare (grove : Grove) (left right : NodeId) : Except Fault ComparisonReport := do
  match ← grove.contrast? left right with
  | none => return {}
  | some contrast => grove.reportContrast contrast

end Grove

end XmlGrove
