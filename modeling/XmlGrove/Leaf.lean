import XmlGrove.Fault
import XmlGrove.Name
import XmlGrove.Text.Search

/-!
# Leaves

The nodes that have no child nodes: text, comments, CDATA sections and
processing instructions.
-/

namespace XmlGrove

inductive Leaf where
  | text (content : String)
  | comment (content : String)
  | cdata (content : String)
  | instruction (target : Name) (content : String)
  deriving Repr, DecidableEq

namespace Leaf

def kind : Leaf → NodeKind
  | text _ => .text
  | comment _ => .comment
  | cdata _ => .cdata
  | instruction _ _ => .instruction

def content : Leaf → String
  | text content | comment content | cdata content | instruction _ content => content

def withContent (leaf : Leaf) (content : String) : Leaf :=
  match leaf with
  | text _ => text content
  | comment _ => comment content
  | cdata _ => cdata content
  | instruction target _ => instruction target content

@[simp] theorem kind_withContent (leaf : Leaf) (content : String) :
    (leaf.withContent content).kind = leaf.kind := by
  cases leaf <;> rfl

/-! The content of a leaf must not hold what ends its markup, else the leaf could
not be written. Text has no end of its own. -/

/-- What ends the markup of a kind of leaf, and the fault of content that holds
it. -/
def terminator? : NodeKind → Option (String × Fault)
  | .comment => some ("-->", .commentEnd)
  | .cdata => some ("]]>", .cdataEnd)
  | .instruction => some ("?>", .instructionEnd)
  | .text | .tag => none

def isTerminatedBy (kind : NodeKind) (content : String) : Bool :=
  match terminator? kind with
  | none => false
  | some (ending, _) => Text.occurs ending.toList content.toList

def isWritable (leaf : Leaf) : Bool :=
  !isTerminatedBy leaf.kind leaf.content

def checked (leaf : Leaf) : Except Fault Leaf :=
  match terminator? leaf.kind with
  | none => .ok leaf
  | some (ending, fault) =>
    if Text.occurs ending.toList leaf.content.toList then .error fault else .ok leaf

theorem checked_eq_ok_iff {leaf accepted : Leaf} :
    leaf.checked = .ok accepted ↔ leaf = accepted ∧ leaf.isWritable = true := by
  rw [checked, isWritable, isTerminatedBy]
  cases terminator? leaf.kind with
  | none => simp
  | some ending =>
    by_cases occurring : Text.occurs ending.1.toList leaf.content.toList = true
    · simp [occurring]
    · simp [occurring]

end Leaf

end XmlGrove
