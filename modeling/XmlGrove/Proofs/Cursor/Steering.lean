import XmlGrove.Proofs.Cursor.Reckoning
import XmlGrove.Script.CursorCall

/-!
# Steering cursors

However a cursor is steered through a text, with commands that fail among the others: it never
moves backwards or beyond the text, and its line and column stay those of its position. What a
single command can do is told once, and all that holds of whole runs follows from it.
-/

namespace XmlGrove.Cursor

variable {text : List Char} {cursor next : Cursor} {command : Command}
  {reading : Except ParsingFault Reading} {fault : ParsingFault}

/-! ## Single commands -/

/-- What a command can do to a cursor. One that succeeds passes over some text that comes next. A
literal text or a name that is missing leaves the cursor where it is, a missing delimiter behind
all that remains, and nothing else fails. A fault is located where the cursor is left. -/
inductive Proceeds (cursor : Cursor) :
    Command → Except ParsingFault Reading → Cursor → Prop
  | passed (command : Command) (reading : Reading) {segment : List Char}
      (follows : segment <+: cursor.rest) :
      Proceeds cursor command (.ok reading) (cursor.pass segment)
  | unexpected (literal : String) {fault : ParsingFault}
      (located : fault.location? = some cursor.location) :
      Proceeds cursor (.expect literal) (.error fault) cursor
  | unnamed {fault : ParsingFault} (located : fault.location? = some cursor.location) :
      Proceeds cursor .readName (.error fault) cursor
  | unterminated (delimiter construct : String) {fault : ParsingFault}
      (located : fault.location? = some (cursor.pass cursor.rest).location) :
      Proceeds cursor (.readUntil delimiter construct) (.error fault) (cursor.pass cursor.rest)

theorem Proceeds.skipped (cursor : Cursor) (command : Command) (reading : Reading)
    (count : Nat) : Proceeds cursor command (.ok reading) (cursor.skip count) := by
  rw [skip_eq_pass]
  exact .passed command reading (List.take_prefix count cursor.rest)

theorem Proceeds.stood (cursor : Cursor) (command : Command) (reading : Reading) :
    Proceeds cursor command (.ok reading) cursor := by
  have unmoved := Proceeds.skipped cursor command reading 0
  rwa [skip_zero] at unmoved

theorem toEnd_eq_pass (cursor : Cursor) : cursor.toEnd = cursor.pass cursor.rest := by
  rw [toEnd, skip_eq_pass, List.take_length]

theorem location?_of_expect {literal : String} (failed : cursor.expect literal = .error fault) :
    fault.location? = some cursor.location := by
  rw [expect] at failed
  split at failed
  · cases failed
  · cases failed
    rfl

theorem location?_of_readName (failed : cursor.readName = .error fault) :
    fault.location? = some cursor.location := by
  rw [readName] at failed
  split at failed
  · cases failed
    rfl
  · cases failed

theorem location?_of_readUntil {delimiter construct : String}
    (failed : cursor.readUntil delimiter construct = .error fault) :
    fault.location? = some cursor.toEnd.location := by
  rw [readUntil] at failed
  split at failed
  · cases failed
    rfl
  · cases failed

theorem exists_skip_of_readUntil {delimiter construct : String} {before : List Char}
    (read : cursor.readUntil delimiter construct = .ok (before, next)) :
    ∃ count, next = cursor.skip count := by
  rw [readUntil] at read
  split at read
  · cases read
  · cases read
    exact ⟨_, rfl⟩

theorem proceeds_perform (cursor : Cursor) (command : Command) :
    Proceeds cursor command (cursor.perform command).1 (cursor.perform command).2 := by
  cases command with
  | advance count =>
      rw [perform, advance]
      split
      · exact .skipped cursor _ _ _
      · split
        · exact .stood cursor _ _
        · exact .skipped cursor _ _ _
  | atEnd => exact .stood cursor _ _
  | current => exact .stood cursor _ _
  | location => exact .stood cursor _ _
  | startsWith literal => exact .stood cursor _ _
  | expect literal =>
      rw [perform]
      cases read : cursor.expect literal with
      | error fault => exact .unexpected literal (location?_of_expect read)
      | ok next =>
          rw [(expect_eq_ok_iff.1 read).2]
          exact .skipped cursor _ _ _
  | readName =>
      rw [perform]
      cases read : cursor.readName with
      | error fault => exact .unnamed (location?_of_readName read)
      | ok named =>
          rw [(readName_eq_ok_iff.1 read).1.2]
          exact .skipped cursor _ _ _
  | readText => exact .skipped cursor _ _ _
  | readUntil delimiter construct =>
      rw [perform]
      cases read : cursor.readUntil delimiter construct with
      | error fault =>
          have located := location?_of_readUntil read
          rw [toEnd_eq_pass] at located ⊢
          exact .unterminated delimiter construct located
      | ok found =>
          rcases exists_skip_of_readUntil read with ⟨count, behind⟩
          rw [behind]
          exact .skipped cursor _ _ _
  | skipBlanks => exact .skipped cursor _ _ _

theorem Proceeds.position_le (step : Proceeds cursor command reading next) :
    cursor.position ≤ next.position := by
  cases step with
  | passed => exact Nat.le_add_right _ _
  | unexpected => exact Nat.le_refl _
  | unnamed => exact Nat.le_refl _
  | unterminated => exact Nat.le_add_right _ _

theorem KeepsTrack.proceed (tracked : cursor.KeepsTrack text)
    (step : Proceeds cursor command reading next) : next.KeepsTrack text := by
  cases step with
  | passed command reading follows => exact tracked.pass follows
  | unexpected => exact tracked
  | unnamed => exact tracked
  | unterminated => exact tracked.pass (List.prefix_refl _)

/-- Where a command that fails leaves a cursor in a text. -/
def Command.StopsAt (text : List Char) (cursor next : Cursor) : Command → Prop
  | .expect _ | .readName => next = cursor
  | .readUntil _ _ => next.position = text.length
  | _ => False

theorem KeepsTrack.stopsAt (tracked : cursor.KeepsTrack text)
    (step : Proceeds cursor command (.error fault) next) :
    fault.location? = some next.location ∧ command.StopsAt text cursor next := by
  cases step with
  | unexpected literal located => exact ⟨located, rfl⟩
  | unnamed located => exact ⟨located, rfl⟩
  | unterminated delimiter construct located =>
      refine ⟨located, ?_⟩
      have bounded := tracked.position_le
      change cursor.position + cursor.rest.length = text.length
      rw [tracked.rest_eq, List.length_drop]
      omega

/-! ## Runs -/

/-- Execute several commands, one after the other. -/
def steer (cursor : Cursor) : List Command → Cursor
  | [] => cursor
  | command :: commands => (cursor.perform command).2.steer commands

theorem KeepsTrack.steer (tracked : cursor.KeepsTrack text) (commands : List Command) :
    (cursor.steer commands).KeepsTrack text := by
  induction commands generalizing cursor with
  | nil => exact tracked
  | cons command commands induction =>
      exact induction (tracked.proceed (proceeds_perform cursor command))

theorem position_le_steer (cursor : Cursor) (commands : List Command) :
    cursor.position ≤ (cursor.steer commands).position := by
  induction commands generalizing cursor with
  | nil => exact Nat.le_refl _
  | cons command commands induction =>
      exact Nat.le_trans (proceeds_perform cursor command).position_le (induction _)

/-- A cursor that was steered through a text is at the place that its line and column tell, and
is never steered back. Moving by a number takes it over the range of the text up to where that
number leads. A command that fails locates its fault where it leaves the cursor, which is the end
of the text if a delimiter is missing, and where the cursor was if anything else is. -/
theorem keepsTrack_of_steered (text : List Char) (commands : List Command) :
    let cursor := (start text).steer commands
    cursor.KeepsTrack text ∧
    (∀ more, cursor.position ≤ (cursor.steer more).position) ∧
    (∀ count, cursor.advance count =
      cursor.pass (Text.between text cursor.position (cursor.position + count))) ∧
    ∀ command fault next, cursor.perform command = (.error fault, next) →
      fault.location? = some next.location ∧ command.StopsAt text cursor next := by
  have tracked := (keepsTrack_start text).steer commands
  refine ⟨tracked, position_le_steer _, tracked.advance_eq, ?_⟩
  intro command fault next failed
  have step := proceeds_perform ((start text).steer commands) command
  rw [failed] at step
  exact tracked.stopsAt step

/-- A number that leads to before the start counts from the end, and what fails there changes
nothing. -/
example :
    (start "ab\ncd".toList).steer [.advance (-1), .expect "x"] = ⟨['d'], 4, ⟨2, 2⟩⟩ := by
  decide

/-! ## Calls -/

/-- A call that is no command changes nothing, so that calls lead to where commands do. -/
theorem exists_perform_eq_steer (call : Script.CursorCall) (cursor : Cursor) :
    ∃ commands, (call.perform cursor).2 = cursor.steer commands := by
  rw [Script.CursorCall.perform]
  cases call.command with
  | error fault => exact ⟨[], rfl⟩
  | ok command => exact ⟨[command], rfl⟩

/-- Whatever is called, each answer leaves a cursor on its track, and none leaves it in front of
where an earlier one did. -/
theorem KeepsTrack.performAll (tracked : cursor.KeepsTrack text)
    (calls : List Script.CursorCall) :
    (∀ answer ∈ Script.CursorCall.performAll cursor calls,
      answer.2.KeepsTrack text ∧ cursor.position ≤ answer.2.position) ∧
    (Script.CursorCall.performAll cursor calls).Pairwise
      fun earlier later => earlier.2.position ≤ later.2.position := by
  induction calls generalizing cursor with
  | nil =>
      rw [Script.CursorCall.performAll]
      exact ⟨fun answer member => (List.not_mem_nil member).elim, .nil⟩
  | cons call calls induction =>
      rcases exists_perform_eq_steer call cursor with ⟨commands, reached⟩
      have kept := tracked.steer commands
      have forwards := position_le_steer cursor commands
      rw [← reached] at kept forwards
      rcases induction kept with ⟨later, ordered⟩
      rw [Script.CursorCall.performAll]
      constructor
      · intro answer member
        rcases List.mem_cons.1 member with first | member
        · rw [first]
          exact ⟨kept, forwards⟩
        · have further := later answer member
          exact ⟨further.1, Nat.le_trans forwards further.2⟩
      · exact .cons (fun answer member => (later answer member).2) ordered

end XmlGrove.Cursor
