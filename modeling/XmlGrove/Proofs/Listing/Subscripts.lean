import Mathlib.Data.List.Sort
import XmlGrove.Script.Coercion

/-!
# Subscripts

What an index or a range selects, told without a computation of positions: the item that is so far
from the start or the end, and the items at those positions between the bounds that are whole steps
away from the first one.
-/

namespace XmlGrove

namespace Sequence

variable {items : List α} {index : Int}

/-! ## Indices -/

/-- The item at an index. Negative ones count the items from the end. -/
def itemAt? (items : List α) (index : Int) : Option α :=
  if index < 0 then items.reverse[(-index - 1).toNat]? else items[index.toNat]?

theorem get?_eq_itemAt? (items : List α) (index : Int) :
    get? items index = itemAt? items index := by
  rw [get?, position?, itemAt?]
  by_cases negative : index < 0
  · rw [if_pos negative]
    by_cases inside : 0 ≤ items.length + index
    · have counted : fromStart items.length index = items.length + index := if_pos negative
      rw [counted, if_pos ⟨inside, by omega⟩, List.getElem?_reverse (by omega)]
      refine congrArg (items[·]?) ?_
      omega
    · rw [fromStart, if_pos negative, if_neg (by omega), List.getElem?_eq_none (by
        rw [List.length_reverse]
        omega)]
      rfl
  · have counted : fromStart items.length index = index := if_neg negative
    rw [if_neg negative, counted]
    by_cases inside : index < items.length
    · rw [if_pos ⟨by omega, inside⟩]
      rfl
    · rw [if_neg (by omega), List.getElem?_eq_none (by omega)]
      rfl

/-! ## Ranges -/

namespace Range

variable {step stop current : Int} {bound position length : Nat}

/-- The positions that a range stands for: forwards or backwards those between its bounds that are
whole steps away from the first one. Negative bounds count from the end, and no bound goes as far as
the items do. -/
def selected (range : Range) (length : Nat) : List Nat :=
  let step := range.step.getD 1
  if 0 < step then
    let first := max 0 (fromStart length (range.start.getD 0))
    let stop := fromStart length (range.stop.getD length)
    (List.range length).filter fun position =>
      first ≤ position ∧ position < stop ∧ step ∣ position - first
  else
    let first := min ((length : Int) - 1) (fromStart length (range.start.getD (-1)))
    let stop := (range.stop.map (fromStart length)).getD (-1)
    (List.range length).reverse.filter fun position =>
      position ≤ first ∧ stop < position ∧ step ∣ first - position

theorem mem_count_forwards (forwards : 0 < step) (start : 0 ≤ current)
    (enough : stop ≤ current + bound) :
    position ∈ count step stop bound current ↔
      current ≤ position ∧ (position : Int) < stop ∧ step ∣ position - current := by
  induction bound generalizing current with
  | zero =>
      rw [count]
      constructor
      · intro member
        cases member
      · rintro ⟨least, most, -⟩
        omega
  | succ bound induction =>
      rw [count]
      by_cases more : current < stop
      · rw [if_pos (by simp [forwards, more]), List.mem_cons, induction (by omega) (by omega)]
        constructor
        · rintro (rfl | ⟨least, most, whole⟩)
          · rw [Int.toNat_of_nonneg start, Int.sub_self]
            exact ⟨Int.le_refl _, more, Int.dvd_zero step⟩
          · refine ⟨by omega, most, ?_⟩
            have further := Int.dvd_add whole (Int.dvd_refl step)
            rwa [show (position : Int) - (current + step) + step = position - current by omega]
              at further
        · rintro ⟨least, most, whole⟩
          by_cases first : (position : Int) = current
          · exact .inl (by omega)
          · have far := Int.le_of_dvd (by omega) whole
            refine .inr ⟨by omega, most, ?_⟩
            have nearer := Int.dvd_sub whole (Int.dvd_refl step)
            rwa [show (position : Int) - current - step = position - (current + step) by omega]
              at nearer
      · rw [if_neg (by simp [more]; omega)]
        constructor
        · intro member
          cases member
        · rintro ⟨least, most, -⟩
          omega

theorem mem_count_backwards (backwards : step < 0) (start : -1 ≤ stop)
    (enough : current ≤ stop + bound) :
    position ∈ count step stop bound current ↔
      (position : Int) ≤ current ∧ stop < position ∧ step ∣ current - position := by
  induction bound generalizing current with
  | zero =>
      rw [count]
      constructor
      · intro member
        cases member
      · rintro ⟨most, least, -⟩
        omega
  | succ bound induction =>
      rw [count]
      by_cases more : stop < current
      · rw [if_pos (by simp [backwards, more]), List.mem_cons, induction (by omega)]
        constructor
        · rintro (rfl | ⟨most, least, whole⟩)
          · rw [Int.toNat_of_nonneg (by omega), Int.sub_self]
            exact ⟨Int.le_refl _, more, Int.dvd_zero step⟩
          · refine ⟨by omega, least, ?_⟩
            have further := Int.dvd_sub whole (Int.dvd_refl step)
            rwa [show current + step - position - step = current - (position : Int) by omega]
              at further
        · rintro ⟨most, least, whole⟩
          by_cases first : (position : Int) = current
          · exact .inl (by omega)
          · have far := Int.le_of_dvd (by omega) (Int.neg_dvd.2 whole)
            refine .inr ⟨by omega, least, ?_⟩
            have nearer := Int.dvd_add whole (Int.dvd_refl step)
            rwa [show current - (position : Int) + step = current + step - position by omega]
              at nearer
      · rw [if_neg (by simp [more]; omega)]
        constructor
        · intro member
          cases member
        · rintro ⟨most, least, -⟩
          omega

theorem pairwise_count_forwards (forwards : 0 < step) (start : 0 ≤ current)
    (enough : stop ≤ current + bound) : (count step stop bound current).Pairwise (· < ·) := by
  induction bound generalizing current with
  | zero => exact .nil
  | succ bound induction =>
      rw [count]
      split
      · refine .cons ?_ (induction (by omega) (by omega))
        intro position member
        have further := ((mem_count_forwards forwards (by omega) (by omega)).1 member).1
        omega
      · exact .nil

theorem pairwise_count_backwards (backwards : step < 0) (start : -1 ≤ stop)
    (enough : current ≤ stop + bound) : (count step stop bound current).Pairwise (· > ·) := by
  induction bound generalizing current with
  | zero => exact .nil
  | succ bound induction =>
      rw [count]
      split
      · refine .cons ?_ (induction (by omega))
        intro position member
        have further := (mem_count_backwards backwards start (by omega)).1 member
        omega
      · exact .nil

/-- Clipping the bounds makes no difference to what is between them. -/
theorem count_clipped_forwards (forwards : 0 < step) (start stop : Int) :
    count step (max 0 (min length stop)) length (max 0 (min length start)) =
      (List.range length).filter fun position : Nat =>
        max 0 start ≤ position ∧ position < stop ∧ step ∣ position - max 0 start := by
  apply List.Pairwise.eq_of_mem_iff (pairwise_count_forwards forwards (by omega) (by omega))
    (List.pairwise_lt_range.filter _)
  intro position
  rw [mem_count_forwards forwards (by omega) (by omega), List.mem_filter, List.mem_range,
    decide_eq_true_iff]
  by_cases early : start ≤ length
  · rw [show max 0 (min (length : Int) start) = max 0 start by omega]
    constructor
    · rintro ⟨least, most, whole⟩
      exact ⟨by omega, least, by omega, whole⟩
    · rintro ⟨inside, least, most, whole⟩
      exact ⟨least, by omega, whole⟩
  · constructor
    · rintro ⟨least, most, -⟩
      omega
    · rintro ⟨inside, least, -⟩
      omega

theorem count_clipped_backwards (backwards : step < 0) (start stop : Int) :
    count step (max (-1) (min ((length : Int) - 1) stop)) length
        (max (-1) (min ((length : Int) - 1) start)) =
      (List.range length).reverse.filter fun position : Nat =>
        position ≤ min ((length : Int) - 1) start ∧ stop < position ∧
          step ∣ min ((length : Int) - 1) start - position := by
  apply List.Pairwise.eq_of_mem_iff (pairwise_count_backwards backwards (by omega) (by omega))
    ((List.pairwise_reverse.2 List.pairwise_lt_range).filter _)
  intro position
  rw [mem_count_backwards backwards (by omega) (by omega), List.mem_filter, List.mem_reverse,
    List.mem_range, decide_eq_true_iff]
  by_cases early : -1 ≤ start
  · rw [show max (-1) (min ((length : Int) - 1) start) = min ((length : Int) - 1) start by omega]
    constructor
    · rintro ⟨most, least, whole⟩
      exact ⟨by omega, most, by omega, whole⟩
    · rintro ⟨inside, most, least, whole⟩
      exact ⟨most, by omega, whole⟩
  · constructor
    · rintro ⟨most, least, -⟩
      omega
    · rintro ⟨inside, most, -⟩
      omega

theorem positions?_eq_selected (range : Range) (length : Nat) :
    range.positions? length =
      if range.step = some 0 then none else some (range.selected length) := by
  have void : range.step.getD 1 = 0 ↔ range.step = some 0 := by
    cases range.step with
    | none => simp
    | some step => simp
  rw [positions?]
  simp only [void]
  by_cases standing : range.step = some 0
  · rw [if_pos standing, if_pos standing]
  rw [if_neg standing, if_neg standing, Option.some_inj, selected]
  have moving := mt void.1 standing
  generalize range.step.getD 1 = step at moving ⊢
  by_cases forwards : 0 < step
  · have upwards : ¬ step < 0 := by omega
    have start : (range.start.map (clip length 0 length)).getD 0 =
        max 0 (min (length : Int) (fromStart length (range.start.getD 0))) := by
      cases range.start with
      | none => simp [fromStart]
      | some bound => rfl
    have stop : (range.stop.map (clip length 0 length)).getD length =
        max 0 (min (length : Int) (fromStart length (range.stop.getD length))) := by
      cases range.stop with
      | none =>
          have counted : fromStart (length : Int) length = length := if_neg (by omega)
          rw [Option.map_none, Option.getD_none, counted]
          omega
      | some bound => rfl
    simp only [if_pos forwards, if_neg upwards, start, stop]
    exact count_clipped_forwards forwards _ _
  · have backwards : step < 0 := by omega
    have start : (range.start.map (clip length (-1) (length - 1))).getD (length - 1) =
        max (-1) (min ((length : Int) - 1) (fromStart length (range.start.getD (-1)))) := by
      cases range.start with
      | none => simp [fromStart]; omega
      | some bound => rfl
    have stop : (range.stop.map (clip length (-1) (length - 1))).getD (-1) =
        max (-1) (min ((length : Int) - 1)
          ((range.stop.map (fromStart length)).getD (-1))) := by
      cases range.stop with
      | none => simp
      | some bound => rfl
    simp only [if_neg forwards, if_pos backwards, start, stop]
    exact count_clipped_backwards backwards _ _

example : Range.selected { start := some (-1), step := some (-2) } 5 = [4, 2, 0] := by decide

end Range

end Sequence

namespace Script

variable {items : List α} {item : α → Value} {several : List α → Value}

theorem subscript_of_integer? {value : Value} {index : Int} (given : value.integer? = some index) :
    subscript items item several value =
      match Sequence.itemAt? items index with
      | some found => .ok (item found)
      | none => .error .noIndex := by
  have single : ∀ start stop step, value = .slice start stop step → False := by
    rintro start stop step rfl
    cases given
  rw [subscript.eq_2 _ _ _ _ single, given]
  cases selected : Sequence.itemAt? items index with
  | none => simp only [Sequence.get?_eq_itemAt?, selected]
  | some found => simp only [Sequence.get?_eq_itemAt?, selected]

theorem subscript_slice {start stop step : Value} {range : Sequence.Range}
    (first : rangeBound start = .ok range.start) (last : rangeBound stop = .ok range.stop)
    (apart : rangeBound step = .ok range.step) :
    subscript items item several (.slice start stop step) =
      if range.step = some 0 then .error .unacceptable
      else .ok (several ((range.selected items.length).filterMap (items[·]?))) := by
  rw [subscript, rangePositions, rangeOf, first, last, apart]
  by_cases standing : range.step = some 0
  · rw [if_pos standing]
    simp [standing, bind, Except.bind, throw, throwThe, MonadExceptOf.throw]
  · rw [if_neg standing]
    simp [standing, bind, Except.bind, pure, Except.pure, Sequence.Range.positions?_eq_selected]

end Script

end XmlGrove
