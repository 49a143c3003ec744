import XmlGrove.Grove.Traverse
import XmlGrove.Script.Display
import XmlGrove.Sequence

/-!
# What values are taken for

Operations take values of any type and find out what they are: whether they are
true, what they hold, and whether they are equal to others.
-/

namespace XmlGrove.Script

/-! ## Contents -/

def charactersOf (content : String) : List Value :=
  content.toList.map fun character => .text character.toString

def sequenceOf? : Value → Option (List Value)
  | .list items | .tuple items => some items
  | .text content => some (charactersOf content)
  | .results ids => some (ids.map .node)
  | .template name attributes children => some [name, attributes, .tuple children]
  | _ => none

namespace Workspace

def entries? (workspace : Workspace) (value : Value) : Option (List (Value × Value)) :=
  match workspace.opened value with
  | .mapping entries => some entries
  | .attributesOf place =>
    some ((workspace.attributesAt place).pairs.map fun (name, content) =>
      (.text name, .text content))
  | _ => none

def items (workspace : Workspace) (value : Value) : Except Fault (List Value) :=
  match workspace.opened value with
  | .node id =>
    match workspace.grove.childList? id with
    | some children => .ok (children.map .node)
    | none => if workspace.grove.isTag id then .error .noMember else .error .unfitValue
  | other =>
    match sequenceOf? other, workspace.entries? other with
    | some found, _ => .ok found
    | none, some entries => .ok (entries.map Prod.fst)
    | none, none => .error .unfitValue

def isTrue (workspace : Workspace) (value : Value) : Except Fault Bool :=
  match workspace.opened value with
  | .null => .ok false
  | .bool set => .ok set
  | .int number => .ok (number != 0)
  | .decimal number => .ok !number.isZero
  | .text content => .ok (content != "")
  | .list items | .tuple items => .ok !items.isEmpty
  | .results ids => .ok !ids.isEmpty
  | .mapping entries => .ok !entries.isEmpty
  | .attributesOf place => .ok !(workspace.attributesAt place).entries.isEmpty
  | .node id =>
    match workspace.grove.childList? id with
    | some children => .ok !children.isEmpty
    | none => if workspace.grove.isTag id then .error .noMember else .ok true
  | _ => .ok true

end Workspace

def requireItems (value : Value) : Action (List Value) := do
  MonadExcept.ofExcept ((← get).items value)

def isTrue (value : Value) : Action Bool := do
  MonadExcept.ofExcept ((← get).isTrue value)

/-! ## Keys -/

mutual

/-- Tell whether a settled value can be the key of a mapping: what equals others by its
content, and can change, can't. -/
def canBeKey (grove : Grove) : Value → Bool
  | .list _ | .mapping _ | .slice .. | .results _ => false
  | .attributes _ | .attributesOf _ | .object _ => false
  | .tuple items => canAllBeKeys grove items
  | .template name attributes children =>
    canBeKey grove name && canBeKey grove attributes && canAllBeKeys grove children
  | .node id => grove.isTag id
  | .null | .bool _ | .int _ | .decimal _ | .text _ | .document _ => true

def canAllBeKeys (grove : Grove) : List Value → Bool
  | [] => true
  | first :: rest => canBeKey grove first && canAllBeKeys grove rest

end

def requireKey (value : Value) : Action Unit := do
  unless canBeKey (← currentGrove) (← settled value) do throw .unfitValue

/-! ## Numbers -/

def requireIndex (value : Value) : Action Int :=
  match value.integer? with
  | some index => return index
  | none => throw .unfitValue

def requirePlace (value : Value) : Action Int := do
  let index ← requireIndex value
  if Sequence.isBeyondItems index then throw .indexTooLarge
  return index

def rangeBound : Value → Except Fault (Option Int)
  | .null => .ok none
  | value =>
    match value.integer? with
    | some bound => .ok (some bound)
    | none => .error .unfitValue

def rangeOf (start stop step : Value) : Except Fault Sequence.Range := do
  let step ← rangeBound step
  if step = some 0 then throw .unacceptable
  let start ← rangeBound start
  let stop ← rangeBound stop
  return { start := start, stop := stop, step := step }

def rangePositions (start stop step : Value) (length : Nat) : Except Fault (List Nat) := do
  match (← rangeOf start stop step).positions? length with
  | some positions => return positions
  | none => throw .unacceptable

def subscript (items : List α) (item : α → Value) (several : List α → Value) :
    Value → Except Fault Value
  | .slice start stop step => do
    let positions ← rangePositions start stop step items.length
    return several (positions.filterMap (items[·]?))
  | value =>
    match value.integer? with
    | none => .error .unfitValue
    | some index =>
      match Sequence.get? items index with
      | some found => .ok (item found)
      | none => .error .noIndex

/-! ## Equality -/

def isNode (id : NodeId) : Value → Bool
  | .node other => other == id
  | _ => false

def areNodes : List NodeId → List Value → Bool
  | [], [] => true
  | id :: ids, value :: values => isNode id value && areNodes ids values
  | _, _ => false

/-- Tell whether a node equals a value: itself, or a leaf of the same kind that holds
the same. A text node also equals its content. -/
def nodeEquals (grove : Grove) (id : NodeId) : Value → Bool
  | .node other => grove.equal id other
  | .text content => grove.text? id == some content
  | _ => false

def areAttributes (attributes : Attributes) (entries : List (Value × Value)) : Bool :=
  entries.length == attributes.entries.length &&
    entries.all fun
      | (.text name, .text content) => attributes.get? name == some content
      | _ => false

def sameNumber (left right : Value) : Bool :=
  match left.number?, right.number? with
  | some leftNumber, some rightNumber => leftNumber.equals rightNumber
  | _, _ => false

mutual

def equals (grove : Grove) : Value → Value → Bool
  | .null, .null => true
  | .text left, .text right => left == right
  | .list left, .list right | .tuple left, .tuple right => equalAll grove left right
  | .template name attributes children, .template otherName otherAttributes others
  | .template name attributes children, .tuple [otherName, otherAttributes, .tuple others] =>
    equals grove name otherName && equals grove attributes otherAttributes &&
      equalAll grove children others
  | .tuple items, .template name attributes children =>
    equalAll grove items [name, attributes, .tuple children]
  | .mapping left, .mapping right =>
    left.length == right.length && equalEntries grove right left
  | .node left, right => nodeEquals grove left right
  | left, .node right => nodeEquals grove right left
  | .document left, .document right => left == right
  | .results left, right => ((sequenceOf? right).map (areNodes left)).getD false
  | left, .results right => ((sequenceOf? left).map (areNodes right)).getD false
  | .attributes left, .attributes right => left.sameAs right
  | .attributes attributes, .mapping entries | .mapping entries, .attributes attributes =>
    areAttributes attributes entries
  | .slice start stop step, .slice otherStart otherStop otherStep =>
    equals grove start otherStart && equals grove stop otherStop && equals grove step otherStep
  | left, right => sameNumber left right

def equalAll (grove : Grove) : List Value → List Value → Bool
  | [], [] => true
  | left :: leftRest, right :: rightRest =>
    equals grove left right && equalAll grove leftRest rightRest
  | _, _ => false

def equalEntries (grove : Grove) (others : List (Value × Value)) :
    List (Value × Value) → Bool
  | [] => true
  | (key, value) :: rest =>
    (others.any fun (otherKey, other) => equals grove key otherKey && equals grove value other) &&
      equalEntries grove others rest

end

def Workspace.equal (workspace : Workspace) (left right : Value) : Bool :=
  equals workspace.grove (workspace.settled left) (workspace.settled right)

def isSame : Value → Value → Bool
  | .null, .null => true
  | .bool left, .bool right => left == right
  | .int left, .int right => left == right
  | .text left, .text right => left == right
  | .node left, .node right => left == right
  | .document left, .document right => left == right
  | .attributesOf left, .attributesOf right => left == right
  | .object left, .object right => left == right
  | _, _ => false

/-! ## Options -/

def withEncoding (workspace : Workspace) (options : ParserOptions) (value : Value) :
    Except Fault ParserOptions :=
  match value with
  | .null => .ok { options with encoding := none, unfitEncoding := false }
  | .text name => .ok { options with encoding := some name, unfitEncoding := false }
  | other =>
    (workspace.isTrue other).map fun unfit =>
      { options with encoding := none, unfitEncoding := unfit }

def withOption (workspace : Workspace) (options : ParserOptions) (name value : Value) :
    Except Fault ParserOptions :=
  match name with
  | .text "encoding" => withEncoding workspace options value
  | .text "preserve_whitespace" =>
    (workspace.isTrue value).map fun set => { options with preserveWhitespace := set }
  | .text "remove_comments" =>
    (workspace.isTrue value).map fun set => { options with removeComments := set }
  | .text "remove_processing_instructions" =>
    (workspace.isTrue value).map fun set => { options with removeInstructions := set }
  | _ => .error .unfitValue

def Workspace.options (workspace : Workspace) (value : Value) : Except Fault ParserOptions :=
  match workspace.opened value with
  | .null => .ok {}
  | .mapping entries =>
    entries.foldlM (fun options (name, value) => withOption workspace options name value) {}
  | _ => .error .unfitValue

def namedValue? (name : String) : List (Value × Value) → Option Value
  | [] => none
  | (.text present, value) :: rest => if present = name then some value else namedValue? name rest
  | _ :: rest => namedValue? name rest

def optionValues (options : Value) : List Value :=
  let given := match options with
    | .mapping entries => entries
    | _ => []
  [("encoding", Value.null), ("preserve_whitespace", .bool false),
    ("remove_comments", .bool false), ("remove_processing_instructions", .bool false)].map
    fun (name, default) => (namedValue? name given).getD default

def requireOptions (value : Value) : Action ParserOptions := do
  MonadExcept.ofExcept ((← get).options value)

/-! ## Filters -/

def filterNamed? : String → Option Grove.Filter
  | "tag" => some (.ofKind .tag)
  | "text" => some (.ofKind .text)
  | "comment" => some (.ofKind .comment)
  | "cdata" => some (.ofKind .cdata)
  | "pi" => some (.ofKind .instruction)
  | "root" => some .isRoot
  | _ => none

mutual

def filterOf : Value → Except Fault Grove.Filter
  | .text name =>
    match filterNamed? name with
    | some filter => .ok filter
    | none => .error .noKey
  | .mapping [(.text "any", .list members)] => (filtersOf members).map .anyOf
  | .mapping [(.text "not", .list members)] => (filtersOf members).map .not
  | .mapping [(.text "name", .text name)] => .ok (.named name)
  | .mapping _ => .error .noKey
  | _ => .error .unfitValue

def filtersOf : List Value → Except Fault (List Grove.Filter)
  | [] => .ok []
  | first :: rest => do
    let filter ← filterOf first
    let others ← filtersOf rest
    return filter :: others

end

def requireFilters (values : List Value) : Action (List Grove.Filter) := do
  MonadExcept.ofExcept (filtersOf (← settledAll values))

end XmlGrove.Script
