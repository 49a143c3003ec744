import XmlGrove.Fault
import XmlGrove.Grove.Identity

/-!
# Templates

A template defines a tag node that is to be constructed where it is used. Its
children are sources of nodes, among them other templates.
-/

namespace XmlGrove

/-- The name that a template or an attribute was given. Whether it can be one matters
when a node is constructed; of what is no text only the display is known then, if
there is one. -/
inductive GivenName where
  | text (name : String)
  | other (display : Except Fault String)

mutual

/-- The definition of a tag node. An attribute without a value was given one that is
no text. -/
inductive Template where
  | define (name : GivenName) (attributes : List (GivenName × Option String))
      (children : List Source)

inductive Source where
  | text (content : String)
  | node (id : NodeId)
  | template (definition : Template)
  | unfit

end

end XmlGrove
