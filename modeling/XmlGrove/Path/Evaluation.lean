import XmlGrove.Grove.Lineage
import XmlGrove.Path.Expression

/-!
# Evaluating path expressions

A step leads from a list of tag nodes to another one. The order is that of the
nodes from which the results derive, and a node can occur several times.
-/

namespace XmlGrove.Grove

open XmlGrove.Path

def childTags (grove : Grove) (id : NodeId) : List NodeId :=
  (grove.children id).filter grove.isTag

def textContent (grove : Grove) (id : NodeId) : String :=
  String.join ((grove.children id).filterMap grove.text?)

def attribute? (grove : Grove) (id : NodeId) (name : String) : Option String :=
  (grove.tag? id).bind fun (_, attributes) => attributes.get? name

def hasName (grove : Grove) (id : NodeId) (name : String) : Bool :=
  (grove.tag? id).any fun (present, _) => present.text == name

def testedChildren (grove : Grove) (test : ChildTest) (id : NodeId) : List NodeId :=
  match test with
  | .any => grove.childTags id
  | .named name => (grove.childTags id).filter fun child => grove.hasName child name

def selectBy (grove : Grove) (predicate : Predicate) (candidates : List NodeId) :
    List NodeId :=
  match predicate with
  | .attributeEquals name value =>
    candidates.filter fun id => grove.attribute? id name == some value
  | .hasAttribute name => candidates.filter fun id => (grove.attribute? id name).isSome
  | .textEquals value => candidates.filter fun id => grove.textContent id == value
  | .position number =>
    if 0 < number then (candidates[number.toNat - 1]?).toList else []
  | .unsupported _ => []

def takeStep (grove : Grove) (ids : List NodeId) (step : Step) : List NodeId :=
  match step with
  | .children test => ids.flatMap (grove.testedChildren test)
  | .filtered test predicate =>
    grove.selectBy predicate (ids.flatMap (grove.testedChildren test))
  | .self => ids
  | .parent => ids.filterMap grove.parent?
  | .nowhere => []

/-- The nodes whose lists of children a step reads. A comparison with a text reads those of
the candidates, too. -/
def listedBy (grove : Grove) (ids : List NodeId) : Step → List NodeId
  | .children _ => ids
  | .filtered test (.textEquals _) => ids ++ ids.flatMap (grove.testedChildren test)
  | .filtered _ _ => ids
  | .self | .parent | .nowhere => []

def needsChildren (grove : Grove) (ids : List NodeId) : List Step → Bool
  | [] => false
  | step :: rest =>
    ((grove.listedBy ids step).any fun id => (grove.childList? id).isNone) ||
      grove.needsChildren (grove.takeStep ids step) rest

def origin (grove : Grove) (expression : Expression) (context : NodeId) : NodeId :=
  if expression.absolute then grove.root context else context

/-- The nodes that an expression selects, from a context node. An expression
without steps selects nothing. -/
def select (grove : Grove) (expression : Expression) (context : NodeId) : List NodeId :=
  if expression.steps.isEmpty then []
  else expression.steps.foldl grove.takeStep [grove.origin expression context]

def query (grove : Grove) (context : NodeId) (text : String) : List NodeId :=
  grove.select (.read text.toList) context

end XmlGrove.Grove
