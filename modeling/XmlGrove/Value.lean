import XmlGrove.Attributes
import XmlGrove.Decimal
import XmlGrove.Grove.Template

/-!
# Values

What operations are given and what they yield, where that is not known to be of
one certain type.

Some values can be changed. Such a value is held as an object, and what refers to
it sees the changes. A value is settled when there are neither objects in it nor
references to attributes, but what these hold at some time.
-/

namespace XmlGrove

structure ObjectId where
  index : Nat
  deriving Repr, DecidableEq

/-- Where attributes are: at a tag node, or in an object. -/
inductive AttributesPlace where
  | tag (owner : NodeId)
  | object (id : ObjectId)
  deriving Repr, DecidableEq

inductive Value where
  | null
  | bool (value : Bool)
  | int (value : Int)
  | decimal (value : Decimal)
  | text (value : String)
  | list (items : List Value)
  | tuple (items : List Value)
  | mapping (entries : List (Value × Value))
  | slice (start stop step : Value)
  | node (id : NodeId)
  | document (id : DocumentId)
  /-- A template with a mapping of attributes, or none. -/
  | template (name attributes : Value) (children : List Value)
  | results (nodes : List NodeId)
  | attributes (content : Attributes)
  /-- The attributes at some place, whatever they are when they are looked at. -/
  | attributesOf (place : AttributesPlace)
  | object (id : ObjectId)

namespace Value

/-! ## Views -/

/-- The integer that a value stands for; truth values are integers as well. -/
def integer? : Value → Option Int
  | bool true => some 1
  | bool false => some 0
  | int value => some value
  | _ => none

def number? : Value → Option Decimal
  | decimal value => some value
  | other => other.integer?.map Decimal.ofInt

def text? : Value → Option String
  | text value => some value
  | _ => none

def node? : Value → Option NodeId
  | node id => some id
  | _ => none

def nodes (ids : List NodeId) : Value := list (ids.map node)

def textMapping (pairs : List (String × String)) : Value :=
  mapping (pairs.map fun (key, content) => (text key, text content))

def isCompound : Value → Bool
  | list _ | tuple _ | mapping _ | results _ => true
  | _ => false

/-! ## Settling -/

mutual

/-- A value with what objects hold instead of the objects, and with attributes
instead of references to them. -/
def settle (hold : ObjectId → Value) (attributesAt : AttributesPlace → Attributes) :
    Value → Value
  | object id => hold id
  | attributesOf place => attributes (attributesAt place)
  | list items => list (settleAll hold attributesAt items)
  | tuple items => tuple (settleAll hold attributesAt items)
  | mapping entries => mapping (settleEntries hold attributesAt entries)
  | slice start stop step =>
    slice (settle hold attributesAt start) (settle hold attributesAt stop)
      (settle hold attributesAt step)
  | template name given children =>
    template (settle hold attributesAt name) (settle hold attributesAt given)
      (settleAll hold attributesAt children)
  | other => other

def settleAll (hold : ObjectId → Value) (attributesAt : AttributesPlace → Attributes) :
    List Value → List Value
  | [] => []
  | first :: rest => settle hold attributesAt first :: settleAll hold attributesAt rest

def settleEntries (hold : ObjectId → Value) (attributesAt : AttributesPlace → Attributes) :
    List (Value × Value) → List (Value × Value)
  | [] => []
  | (key, content) :: rest =>
    (settle hold attributesAt key, settle hold attributesAt content) ::
      settleEntries hold attributesAt rest

end

end Value

end XmlGrove
