import Mathlib.Data.List.Induction
import XmlGrove.Proofs.Failure.Location
import XmlGrove.Sequence

/-!
# Moving over whole segments

A cursor can move over a segment of a text at once: the line feeds in it are counted, and the
column is taken from the last of them. Moving by any number is such a move over a range of the
text, and the line and column stay those of the place that it leads to.
-/

namespace XmlGrove

/-! ## Ranges of texts -/

namespace Sequence.Range

variable {stop : Int} {start : Nat}

/-- Positions that follow each other select a segment. -/
theorem filterMap_count (items : List α) (bound : Nat) (enough : stop ≤ start + bound)
    (inside : stop ≤ items.length) :
    (count 1 stop bound start).filterMap (items[·]?) =
      (items.drop start).take (stop - start).toNat := by
  induction bound generalizing start with
  | zero =>
      have none : (stop - start).toNat = 0 := by omega
      rw [count, none, List.take_zero, List.filterMap_nil]
  | succ bound induction =>
      rw [count]
      by_cases more : (start : Int) < stop
      · have available : start < items.length := by omega
        have one : (stop - start).toNat = (stop - (start + 1 : Nat)).toNat + 1 := by omega
        rw [if_pos (by simp [more]), Int.toNat_natCast, List.filterMap_cons,
          List.getElem?_eq_getElem available, List.drop_eq_getElem_cons available, one,
          List.take_succ_cons, ← induction (by omega)]
        rfl
      · have none : (stop - start).toNat = 0 := by omega
        rw [if_neg (by simp [more]), none, List.take_zero, List.filterMap_nil]

end Sequence.Range

namespace Text

/-- The characters between two bounds, which are those of a range: negative ones count from the
end, and none goes beyond it. -/
def between (text : List Char) (start stop : Int) : List Char :=
  (Sequence.slice? text { start, stop }).getD []

example : between "abcde".toList 2 (-1) = "cd".toList := rfl

theorem between_eq_take_drop {text : List Char} {start : Nat} (inside : start ≤ text.length)
    (stop : Int) :
    between text start stop = (text.drop start).take
      (Sequence.Range.clip text.length 0 text.length stop - start).toNat := by
  have first : Sequence.Range.clip text.length 0 text.length start = start := by
    rw [Sequence.Range.clip, Sequence.fromStart, if_neg (by omega)]
    omega
  have last : Sequence.Range.clip text.length 0 text.length stop ≤ text.length := by
    rw [Sequence.Range.clip]
    omega
  rw [← Sequence.Range.filterMap_count text text.length (by omega) last]
  simp [between, Sequence.slice?, Sequence.Range.positions?, first]

/-! ## Lines and columns -/

/-- The position of the last occurrence of a character in a text that holds it. -/
def lastPosition (character : Char) (text : List Char) : Nat :=
  text.length - 1 - text.reverse.idxOf character

theorem lastPosition_le (character : Char) (text : List Char) :
    lastPosition character text ≤ text.length := by
  rw [lastPosition]
  omega

theorem lastPosition_concat_self (character : Char) (text : List Char) :
    lastPosition character (text ++ [character]) = text.length := by
  simp [lastPosition]

theorem lastPosition_concat {character other : Char} (different : other ≠ character)
    (text : List Char) : lastPosition character (text ++ [other]) = lastPosition character text := by
  rw [lastPosition, lastPosition, List.reverse_concat, List.idxOf_cons,
    beq_false_of_ne different, cond_false, List.length_append, List.length_singleton]
  omega

end Text

namespace Location

/-- The location behind a segment that is looked at as a whole: each line feed in it begins
another line, and the column is counted from the last one. -/
def past (location : Location) (segment : List Char) : Location :=
  if 0 < segment.count '\n' then
    ⟨location.line + segment.count '\n', segment.length - Text.lastPosition '\n' segment⟩
  else ⟨location.line, location.column + segment.length⟩

example : past ⟨2, 7⟩ "a\nb\ncd".toList = ⟨4, 3⟩ := rfl

theorem past_concat (location : Location) (segment : List Char) (character : Char) :
    location.past (segment ++ [character]) = (location.past segment).step character := by
  by_cases feed : character = '\n'
  · rw [feed, past, past, Text.lastPosition_concat_self]
    by_cases earlier : 0 < segment.count '\n'
    · simp [earlier, step, Nat.add_assoc]
    · have none : segment.count '\n' = 0 := by omega
      simp [none, step]
  · have same : (segment ++ [character]).count '\n' = segment.count '\n' := by simp [feed]
    have bounded := Text.lastPosition_le '\n' segment
    rw [past, past, Text.lastPosition_concat feed, same, List.length_append,
      List.length_singleton]
    by_cases earlier : 0 < segment.count '\n'
    · rw [if_pos earlier, if_pos earlier, step, if_neg feed, Nat.sub_add_comm bounded]
    · rw [if_neg earlier, if_neg earlier, step, if_neg feed, Nat.add_assoc]

/-- Stepping through a segment leads to where it ends as a whole. -/
theorem after_eq_past (location : Location) (segment : List Char) :
    location.after segment = location.past segment := by
  induction segment using List.reverseRecOn with
  | nil => rfl
  | append_singleton segment character induction =>
      rw [after_append, induction, past_concat]
      rfl

end Location

/-! ## Cursors that keep track -/

namespace Cursor

variable {text segment : List Char} {cursor : Cursor}

/-- A cursor tells where it is in a text: what is before its position is read, what remains
follows it. The line counts the line feeds among what is read, the column the characters behind
the last of them. -/
structure KeepsTrack (text : List Char) (cursor : Cursor) : Prop where
  position_le : cursor.position ≤ text.length
  rest_eq : cursor.rest = text.drop cursor.position
  line_eq : cursor.location.line = 1 + (text.take cursor.position).count '\n'
  column_eq : cursor.location.column =
    1 + ((text.take cursor.position).reverse.takeWhile (· != '\n')).length

theorem keepsTrack_start (text : List Char) : (start text).KeepsTrack text where
  position_le := Nat.zero_le _
  rest_eq := rfl
  line_eq := rfl
  column_eq := rfl

theorem KeepsTrack.location_eq (tracked : cursor.KeepsTrack text) :
    cursor.location = .ofOffset text cursor.position := by
  rw [Location.ofOffset, ← tracked.line_eq, ← tracked.column_eq]

/-- Move over a segment that comes next, with its line feeds counted all at once. -/
def pass (segment : List Char) (cursor : Cursor) : Cursor :=
  ⟨cursor.rest.drop segment.length, cursor.position + segment.length,
    cursor.location.past segment⟩

theorem skip_eq_pass (cursor : Cursor) (count : Nat) :
    cursor.skip count = cursor.pass (cursor.rest.take count) := by
  rw [skip, pass, Location.after_eq_past]
  simp

theorem pass_nil (cursor : Cursor) : cursor.pass [] = cursor := by
  simp [pass, Location.past]

theorem KeepsTrack.pass (tracked : cursor.KeepsTrack text) (follows : segment <+: cursor.rest) :
    (cursor.pass segment).KeepsTrack text := by
  have bounded := tracked.position_le
  have fits := follows.length_le
  rw [tracked.rest_eq, List.length_drop] at fits
  have passed : text.take (cursor.position + segment.length) =
      text.take cursor.position ++ segment := by
    rw [tracked.rest_eq] at follows
    rw [List.take_add, List.prefix_iff_eq_take.1 follows, List.length_take, List.length_drop,
      Nat.min_eq_left fits]
  have reached : cursor.location.past segment =
      .ofOffset text (cursor.position + segment.length) := by
    rw [← Location.start_after_take, passed, Location.after_append, Location.start_after_take,
      Location.after_eq_past, tracked.location_eq]
  constructor
  · change cursor.position + segment.length ≤ text.length
    omega
  · change cursor.rest.drop segment.length = text.drop (cursor.position + segment.length)
    rw [tracked.rest_eq, List.drop_drop]
  · exact congrArg Location.line reached
  · exact congrArg Location.column reached

/-- Moving by a number is moving over the range of the text between the cursor and where the
number leads to. -/
theorem KeepsTrack.advance_eq (tracked : cursor.KeepsTrack text) (count : Int) :
    cursor.advance count =
      cursor.pass (Text.between text cursor.position (cursor.position + count)) := by
  have bounded := tracked.position_le
  have length : cursor.rest.length = text.length - cursor.position := by
    rw [tracked.rest_eq, List.length_drop]
  rw [Text.between_eq_take_drop bounded, ← tracked.rest_eq, Sequence.Range.clip,
    Sequence.fromStart, advance]
  split
  · rename_i forwards
    rw [if_neg (by omega), skip_eq_pass]
    congr 1
    rw [List.take_eq_take_iff]
    omega
  · rename_i backwards
    split
    · rename_i within
      have none : (max 0 (min (text.length : Int) (cursor.position + count)) -
          cursor.position).toNat = 0 := by
        omega
      rw [if_neg (by omega), none, List.take_zero, pass_nil]
    · -- Both count a number that leads to before the start from the end.
      rename_i around
      rw [if_pos (by omega), skip_eq_pass]
      congr 2
      omega

end Cursor

end XmlGrove
