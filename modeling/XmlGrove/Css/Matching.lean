import XmlGrove.Css.Selector
import XmlGrove.Fault
import XmlGrove.Grove.Traverse
import XmlGrove.Path.Evaluation

/-!
# Matching selectors

Which nodes a selector selects. Not all selectors are supported; whether one is
depends on the selector alone, and not on the nodes that it is applied to. How
texts are read as selectors is left to a parameter.
-/

namespace XmlGrove

namespace Css

/-! ## Supported selectors -/

def namespacesFeature : String := "Namespace prefixes"

def Selector.unsupported? : Selector → Option String
  | .element space _ => space.map fun _ => namespacesFeature
  | .hash base _ | .className base _ => base.unsupported?
  | .attribute base space _ comparison =>
    if space.isSome then some namespacesFeature
    else
      base.unsupported?.or <|
        match comparison with
        | .exists | .operator "=" .. | .operator "~=" .. => none
        | .operator symbol .. => some s!"The attribute operator `{symbol}`"
  | .combined left combinator right =>
    left.unsupported?.or <| right.unsupported?.or <|
      if combinator = ' ' || combinator = '>' then none
      else some s!"The combinator `{combinator}`"
  | other =>
    let shown := other.display
    some s!"The construct `{shown}`"

def Member.unsupported? (member : Member) : Option String :=
  if member.isPseudoElement then some "Pseudo-elements" else member.selector.unsupported?

/-- How a text is understood as a group of selectors. -/
abbrev GroupReader := String → Except Fault (List Member)

def compile (reader : GroupReader) (expression : String) : Except Fault (List Selector) := do
  let members ← reader expression
  match members.findSome? Member.unsupported? with
  | some feature => throw (.unsupportedSelector feature expression)
  | none => return members.map (·.selector)

end Css

/-! ## Selected nodes -/

namespace Grove

open Css

def attributeWords (grove : Grove) (id : NodeId) (name : String) : List String :=
  (Text.fields ((grove.attribute? id name).getD "").toList).map String.ofList

/-- Tell whether an attribute of a node passes a comparison. Flags are ignored. -/
def passesComparison (grove : Grove) (id : NodeId) (name : String) :
    Comparison → Bool
  | .exists => (grove.attribute? id name).isSome
  | .operator "=" value _ => grove.attribute? id name == some value
  | .operator "~=" value _ => (grove.attributeWords id name).contains value
  | .operator .. => false

def isMatchedBy (grove : Grove) : Selector → NodeId → Bool
  | .element _ none, id => grove.isTag id
  | .element _ (some name), id =>
    if name = "*" then grove.isTag id else grove.hasName id name
  | .hash base value, id =>
    grove.isMatchedBy base id && grove.attribute? id "id" == some value
  | .className base name, id =>
    grove.isMatchedBy base id && (grove.attributeWords id "class").contains name
  | .attribute base _ name comparison, id =>
    grove.isMatchedBy base id && grove.passesComparison id name comparison
  | .combined left combinator right, id =>
    grove.isMatchedBy right id &&
      if combinator = '>' then (grove.parent? id).any (grove.isMatchedBy left)
      else (grove.ancestors id).any (grove.isMatchedBy left)
  | .pseudo .. , _ | .function .. , _ | .negation .. , _ | .matching .. , _
  | .unweighted .. , _ | .relation .. , _ => false

def cssSelect (grove : Grove) (reader : GroupReader) (context : NodeId)
    (expression : String) : Except Fault (List NodeId) :=
  (compile reader expression).map fun selectors =>
    (grove.descendants context).filter fun id =>
      grove.isTag id && selectors.any fun selector => grove.isMatchedBy selector id

end Grove

end XmlGrove
