import XmlGrove.Script.GeneralCommand

/-!
# Commands to sequences

What lists, tuples, texts and the results of queries can be asked for, and how lists
are changed.
-/

namespace XmlGrove.Script

/-! ## Looking for items -/

def positionOf? (workspace : Workspace) (items : List Value) (value : Value)
    (positions : List Nat) : Option Nat :=
  positions.find? fun position =>
    (items[position]?).any fun item => workspace.equal item value

def countOf (workspace : Workspace) (items : List Value) (value : Value) : Nat :=
  (items.filter fun item => workspace.equal item value).length

def searchBound (value : Value) : Except Fault Value :=
  if value.integer?.isSome then .ok value else .error .unfitValue

/-- The positions among which an item is looked for; without bounds these are all. -/
def searchPositions (length : Nat) : List Value → Except Fault (List Nat)
  | [] => .ok (List.range length)
  | [start] => do rangePositions (← searchBound start) .null .null length
  | [start, stop] => do
    rangePositions (← searchBound start) (← searchBound stop) .null length
  | _ => .error .unfitValue

def sequenceCommand (subject : Value) (items : List Value) (several : List Value → Value)
    (command : String) (arguments : List Value) : Action Answer := do
  let workspace ← get
  match command, arguments with
  | "len", _ => return Value.int items.length
  | "list", _ => return Value.list items
  | "reversed", _ => return Value.list items.reverse
  | "getitem", [index] => return ← MonadExcept.ofExcept (subscript items id several index)
  | "contains", [value] => return Value.bool (0 < countOf workspace items value)
  | "count", [value] => return Value.int (countOf workspace items value)
  | "index", value :: bounds =>
    let positions ← MonadExcept.ofExcept (searchPositions items.length bounds)
    match positionOf? workspace items value positions with
    | some position => return Value.int position
    | none => throw .unacceptable
  | "index", _ | "count", _ => throw .unfitValue
  | "setitem", [index, _] | "delitem", [index] =>
    throw (if index.integer?.any Sequence.isBeyondItems then .noIndex else .unfitValue)
  | _, _ => generalCommand subject command arguments

/-! ## Changing lists -/

def withoutPositions (items : List Value) (positions : List Nat) : List Value :=
  (items.zipIdx.filter fun (_, position) => !positions.contains position).map Prod.fst

def withReplacements (items : List Value) : List (Nat × Value) → List Value
  | [] => items
  | (position, value) :: rest => withReplacements (items.set position value) rest

/-- Items with others instead of those in a range. Where the range has gaps there must
be as many as are replaced. -/
def replaceRange (items : List Value) (range : Sequence.Range) (values : List Value) :
    Except Fault (List Value) :=
  match range.positions? items.length with
  | none => .error .unacceptable
  | some positions =>
    if range.step.getD 1 = 1 then
      let length : Int := items.length
      let start := ((range.start.map (Sequence.Range.clip length 0 length)).getD 0).toNat
      .ok (items.take start ++ values ++ items.drop (start + positions.length))
    else if positions.length = values.length then
      .ok (withReplacements items (positions.zip values))
    else .error .unacceptable

def assign (items : List Value) (subscript value : Value) : Action (List Value) := do
  match subscript with
  | .slice start stop step =>
    let range ← MonadExcept.ofExcept (rangeOf start stop step)
    let values ← requireItems value
    MonadExcept.ofExcept (replaceRange items range values)
  | index =>
    match Sequence.position? items.length (← requireIndex index) with
    | some position => return items.set position value
    | none => throw .noIndex

def remove (items : List Value) (subscript : Value) : Action (List Value) := do
  match subscript with
  | .slice start stop step =>
    return withoutPositions items
      (← MonadExcept.ofExcept (rangePositions start stop step items.length))
  | index =>
    match Sequence.position? items.length (← requireIndex index) with
    | some position => return items.eraseIdx position
    | none => throw .noIndex

def takeItem (items : List Value) (index : Value) : Action (Value × List Value) := do
  let place ← requirePlace index
  match Sequence.position? items.length place, Sequence.get? items place with
  | some position, some item => return (item, items.eraseIdx position)
  | _, _ => throw .noIndex

def listCommand (id : ObjectId) (items : List Value) (command : String)
    (arguments : List Value) : Action Answer := do
  let update (changed : List Value) : Action Answer := do
    modify (·.replace id (.list changed))
    return Value.null
  match command, arguments with
  | "setitem", [subscript, value] => update (← assign items subscript value)
  | "delitem", [subscript] => update (← remove items subscript)
  | "append", [value] => update (items ++ [value])
  | "insert", [index, value] => do
    let place ← requirePlace index
    update (items.insertIdx (insertionPosition items.length place) value)
  | "extend", [values] => update (items ++ (← requireItems values))
  | "remove", [value] =>
    match positionOf? (← get) items value (List.range items.length) with
    | some position => update (items.eraseIdx position)
    | none => throw .unacceptable
  | "pop", [] | "pop", [_] => do
    let (item, others) ← takeItem items (arguments.head?.getD (.int (-1)))
    let _ ← update others
    return item
  | "reverse", [] => update items.reverse
  | "clear", [] => update []
  | "append", _ | "insert", _ | "extend", _ | "remove", _ | "pop", _ | "reverse", _
  | "clear", _ => throw .unfitValue
  | _, _ => sequenceCommand (.object id) items .list command arguments

/-! ## Other sequences -/

def templateCommand (subject name attributes : Value) (children : List Value)
    (command : String) (arguments : List Value) : Action Answer := do
  match command with
  | "name" => return name
  | "attributes" => return attributes
  | "children" => return Value.tuple children
  | _ =>
    sequenceCommand subject [name, attributes, .tuple children] .tuple command arguments

/-- Those occurrences of a fragment in a text that do not overlap. -/
def occurrences (fragment : List Char) : Nat → List Char → Nat
  | 0, _ => 0
  | bound + 1, text =>
    match Text.cut? fragment text with
    | none => 0
    | some (_, after) => 1 + occurrences fragment bound after

def searchedPart (text : List Char) (bounds : List Value) :
    Except Fault (Option (Nat × List Char)) := do
  let (start, stop) ← match bounds with
    | [] => pure (none, none)
    | [start] => pure (← rangeBound start, none)
    | [start, stop] => pure (← rangeBound start, ← rangeBound stop)
    | _ => throw .unfitValue
  let length : Int := text.length
  let first := max 0 (Sequence.fromStart length (start.getD 0))
  let last := min length (max 0 (Sequence.fromStart length (stop.getD length)))
  if length < first || last < first then return none
  else return some (first.toNat, (text.take last.toNat).drop first.toNat)

def textCommand (content : String) (command : String) (arguments : List Value) :
    Action Answer := do
  let joined (parts : List Value) : Value := .text (String.join (parts.filterMap Value.text?))
  match command, arguments with
  | "contains", [.text fragment] =>
    return Value.bool (Text.occurs fragment.toList content.toList)
  | "count", .text fragment :: bounds =>
    match ← MonadExcept.ofExcept (searchedPart content.toList bounds) with
    | none => return Value.int 0
    | some (_, part) =>
      if fragment = "" then return Value.int (part.length + 1)
      else return Value.int (occurrences fragment.toList part.length part)
  | "index", .text fragment :: bounds =>
    match ← MonadExcept.ofExcept (searchedPart content.toList bounds) with
    | none => throw .unacceptable
    | some (preceding, part) =>
      match Text.cut? fragment.toList part with
      | some (before, _) => return Value.int (preceding + before.length)
      | none => throw .unacceptable
  | "contains", _ | "count", _ | "index", _ => throw .unfitValue
  | _, _ => sequenceCommand (.text content) (charactersOf content) joined command arguments

/-! ## Query results -/

/-- A number that is counted from the start, where negative ones count from the end. -/
def counted (length : Nat) (number : Decimal) : Decimal :=
  if number.isBelow 0 then number.plus length else number

/-- Where looking for a result starts. What precedes all results is the start, and a
number with a fraction remains one. -/
def resultStart (length : Nat) (value : Value) : Except Fault Value :=
  match value.number?, value.integer? with
  | none, _ => .error .unfitValue
  | some number, some index =>
    if number.isBelow 0 then .ok (.int (max 0 (length + index))) else .ok value
  | some number, none =>
    let place := counted length number
    .ok (if place.isBelow 0 then .int 0 else .decimal place)

def resultStop (length : Nat) : Value → Except Fault (Option Decimal)
  | .null => .ok none
  | value =>
    match value.number? with
    | some number => .ok (some (counted length number))
    | none => .error .unfitValue

def findResult (ids : List NodeId) (value : Value) (stop : Option Decimal) :
    Nat → Nat → Except Fault Nat
  | 0, _ => .error .unacceptable
  | bound + 1, position =>
    if stop.any fun last => !last.isAbove position then .error .unacceptable
    else
      match ids[position]? with
      | none => .error .unacceptable
      | some id =>
        if isNode id value then .ok position
        else findResult ids value stop bound (position + 1)

/-- The index of a node among results. A start that is a truth value is found as such,
and one with a fraction is no index, unless looking stops there anyway. -/
def resultIndex (ids : List NodeId) (value start stop : Value) : Except Fault Value := do
  let first ← resultStart ids.length start
  let last ← resultStop ids.length stop
  match first with
  | .decimal place =>
    if last.any fun number => number.compare place != .gt then throw .unacceptable
    else throw .unfitValue
  | _ =>
    let position := (first.integer?.getD 0).toNat
    let found ← findResult ids value last (ids.length + 1) position
    if found = position then return first else return .int found

def setResultsMember (id : ObjectId) (name : String) (value : Value) : Action Unit :=
  match name with
  | "first" | "last" | "size" | "as_tuple" => throw .noMember
  | _ => modify (·.addMember (.object id) name value)

def passingNodes (ids : List NodeId) (filters : List Value) : Action (List NodeId) := do
  let filters ← requireFilters filters
  return (← currentGrove).passing filters ids

def resultsCommand (id : ObjectId) (ids : List NodeId) (command : String)
    (arguments : List Value) : Action Answer := do
  match command, arguments with
  | "first", _ => return optionalNode ids.head?
  | "last", _ => return optionalNode ids.getLast?
  | "size", _ => return Value.int ids.length
  | "as_list", [] => return Value.nodes ids
  | "as_list", _ => throw .unfitValue
  | "as_tuple", _ => return nodeTuple ids
  | "filtered_by", _ => return Value.results (← passingNodes ids arguments)
  | "index", [value] =>
    return ← MonadExcept.ofExcept (resultIndex ids value (.int 0) .null)
  | "index", [value, start] =>
    return ← MonadExcept.ofExcept (resultIndex ids value start .null)
  | "index", [value, start, stop] =>
    return ← MonadExcept.ofExcept (resultIndex ids value start stop)
  | "set", [.text name, value] =>
    setResultsMember id name value
    return Value.null
  | "set", _ => throw .unfitValue
  | _, _ => sequenceCommand (.object id) (ids.map .node) .tuple command arguments

end XmlGrove.Script
