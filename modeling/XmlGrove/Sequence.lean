import XmlGrove.Fault

/-!
# Positions in sequences

How an index or a range denotes positions in a sequence of a given length.
Negative numbers count from the end.
-/

namespace XmlGrove.Sequence

/-! ## Indices -/

def fromStart (length index : Int) : Int :=
  if index < 0 then length + index else index

def greatestIndex : Int := 0x7fff_ffff_ffff_ffff

def isBeyondItems (index : Int) : Bool :=
  greatestIndex < index || index < -greatestIndex - 1

def position? (length : Nat) (index : Int) : Option Nat :=
  let counted := fromStart length index
  if 0 ≤ counted ∧ counted < length then some counted.toNat else none

def get? (items : List α) (index : Int) : Option α :=
  (position? items.length index).bind fun position => items[position]?

example : get? ["a", "b", "c"] (-1) = some "c" := rfl

example : get? ["a", "b", "c"] 3 = none := rfl

/-! ## Ranges -/

structure Range where
  start : Option Int := none
  stop : Option Int := none
  step : Option Int := none
  deriving Repr, DecidableEq

namespace Range

/-- The position that a bound of a range denotes, clipped to the given limits. -/
def clip (length lower upper bound : Int) : Int :=
  max lower (min upper (fromStart length bound))

def count (step stop : Int) : Nat → Int → List Nat
  | 0, _ => []
  | bound + 1, current =>
    if (0 < step && current < stop) || (step < 0 && stop < current) then
      current.toNat :: count step stop bound (current + step)
    else []

/-- The positions in a range, in the range's order. No range has the step zero. -/
def positions? (range : Range) (length : Nat) : Option (List Nat) :=
  let step := range.step.getD 1
  if step = 0 then none
  else
    let lower : Int := if step < 0 then -1 else 0
    let upper : Int := if step < 0 then length - 1 else length
    let first := if step < 0 then upper else lower
    let last := if step < 0 then lower else upper
    let start := (range.start.map (clip length lower upper)).getD first
    let stop := (range.stop.map (clip length lower upper)).getD last
    some (count step stop length start)

end Range

def slice? (items : List α) (range : Range) : Option (List α) :=
  (range.positions? items.length).map fun positions => positions.filterMap (items[·]?)

example : slice? [0, 1, 2, 3, 4] { start := some 1, stop := some (-1) } = some [1, 2, 3] := rfl

example : slice? [0, 1, 2] { step := some (-1) } = some [2, 1, 0] := rfl

/-! ## Ends -/

inductive Collection (α : Type u) where
  | sequence (items : List α)
  /-- What remains of items that are handed out one by one, each one once. -/
  | iterator (remaining : List α)
  | unordered

namespace Collection

def first : Collection α → Except Fault (Option α) × Collection α
  | sequence items => (.ok items.head?, sequence items)
  | iterator remaining => (.ok remaining.head?, iterator remaining.tail)
  | unordered => (.error .unordered, unordered)

def last : Collection α → Except Fault (Option α) × Collection α
  | sequence items => (.ok items.getLast?, sequence items)
  | iterator remaining => (.ok remaining.getLast?, iterator [])
  | unordered => (.error .unordered, unordered)

def takeRepeatedly (take : Collection α → Except Fault (Option α) × Collection α) :
    Nat → Collection α → List (Except Fault (Option α))
  | 0, _ => []
  | count + 1, collection =>
    let (result, rest) := take collection
    result :: takeRepeatedly take count rest

end Collection

end XmlGrove.Sequence
