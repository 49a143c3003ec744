import XmlGrove.Tree

/-!
# Comparing trees

Two trees are compared node by node, in document order. The first difference is
reported, along with the way of child indices that leads to it in both trees.
-/

namespace XmlGrove

inductive DifferenceKind where
  | content
  | kind
  | attributes
  | childCount
  | name
  deriving Repr, DecidableEq

structure Difference where
  /-- The child indices that lead from the roots to the differing nodes. -/
  way : List Nat
  kind : DifferenceKind
  deriving Repr, DecidableEq

namespace Difference

def below (index : Nat) (difference : Difference) : Difference :=
  { difference with way := index :: difference.way }

end Difference

namespace Tree

mutual

def difference? : Tree → Tree → Option Difference
  | leaf left, leaf right =>
    if left.kind ≠ right.kind then some ⟨[], .kind⟩
    else if left ≠ right then some ⟨[], .content⟩
    else none
  | tag leftName leftAttributes leftChildren, tag rightName rightAttributes rightChildren =>
    if leftName ≠ rightName then some ⟨[], .name⟩
    else if !leftAttributes.sameAs rightAttributes then some ⟨[], .attributes⟩
    else if leftChildren.length ≠ rightChildren.length then some ⟨[], .childCount⟩
    else differenceAmong? 0 leftChildren rightChildren
  | leaf _, tag .. | tag .., leaf _ => some ⟨[], .kind⟩

/-- The first difference between two lists of sibling trees, the first of which
have the given index. -/
def differenceAmong? (index : Nat) : List Tree → List Tree → Option Difference
  | left :: leftRest, right :: rightRest =>
    match difference? left right with
    | some difference => some (difference.below index)
    | none => differenceAmong? (index + 1) leftRest rightRest
  | [], _ | _ :: _, [] => none

end

end Tree

end XmlGrove
