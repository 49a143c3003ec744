import XmlGrove.Proofs.Failure.Token

/-!
# Where parsing fails

All readers move one cursor through one text, and each fault is located by such a cursor. Hence
a fault is met at a place of the text, whose line and column can be told from the text before it.
-/

namespace XmlGrove

/-! ## Places in a text -/

namespace Location

/-- The place in a text that so many characters precede: its line counts the line feeds among
them, its column the characters behind the last line feed. -/
def ofOffset (text : List Char) (offset : Nat) : Location where
  line := 1 + (text.take offset).count '\n'
  column := 1 + ((text.take offset).reverse.takeWhile (· != '\n')).length

theorem start_after_reverse (reversed : List Char) :
    start.after reversed.reverse =
      ⟨1 + reversed.count '\n', 1 + (reversed.takeWhile (· != '\n')).length⟩ := by
  induction reversed with
  | nil => rfl
  | cons last reversed induction =>
      rw [List.reverse_cons, after_append, induction]
      by_cases feed : last = '\n'
      · simp [after, step, feed, Nat.add_assoc]
      · simp [after, step, feed, Nat.add_assoc]

/-- Stepping through a text ends at the place that its whole length denotes. -/
theorem start_after_take (text : List Char) (offset : Nat) :
    start.after (text.take offset) = ofOffset text offset := by
  have whole := start_after_reverse (text.take offset).reverse
  rwa [List.reverse_reverse, List.count_reverse] at whole

example : ofOffset "ab\nc".toList 4 = ⟨2, 2⟩ := rfl

end Location

/-- A cursor is somewhere in a text. -/
def Cursor.IsIn (text : List Char) (cursor : Cursor) : Prop :=
  ∃ offset, cursor = (start text).skip offset

/-- A fault is located at a place of a text. -/
def ParsingFault.IsIn (text : List Char) (fault : ParsingFault) : Prop :=
  ∃ offset, offset ≤ text.length ∧ fault.location? = some (.ofOffset text offset)

variable {text : List Char}

namespace Cursor

theorem isIn_start : (start text).IsIn text := ⟨0, (skip_zero _).symm⟩

theorem IsIn.skip {cursor : Cursor} (inside : cursor.IsIn text) (count : Nat) :
    (cursor.skip count).IsIn text := by
  rcases inside with ⟨offset, rfl⟩
  exact ⟨offset + count, skip_skip _ _ _⟩

theorem IsIn.skipBlanks {cursor : Cursor} (inside : cursor.IsIn text) :
    cursor.skipBlanks.IsIn text :=
  inside.skip _

theorem IsIn.fault {cursor : Cursor} (inside : cursor.IsIn text) {fault : ParsingFault}
    (located : fault.location? = some cursor.location) : fault.IsIn text := by
  rcases inside with ⟨offset, rfl⟩
  -- A cursor that was to move beyond the end is at the end.
  refine ⟨min offset text.length, Nat.min_le_right _ _, ?_⟩
  have taken : text.take (min offset text.length) = text.take offset := by
    simp [List.take_eq_take_iff]
  rw [located, ← Location.start_after_take, taken]
  rfl

end Cursor

/-! ## Readers -/

/-- What comes of reading is in a text: the place behind what was read, or the fault. -/
def Parse.Stays (text : List Char) (place : α → Cursor) : Except ParsingFault α → Prop
  | .ok value => (place value).IsIn text
  | .error fault => fault.IsIn text

namespace Parse

theorem Stays.of_error {place : α → Cursor} {reading : Except ParsingFault α}
    {fault : ParsingFault} (stays : Stays text place reading) (failed : reading = .error fault) :
    fault.IsIn text := by
  rwa [failed] at stays

theorem Stays.of_ok {place : α → Cursor} {reading : Except ParsingFault α} {value : α}
    (stays : Stays text place reading) (read : reading = .ok value) : (place value).IsIn text := by
  rwa [read] at stays

theorem Stays.bind {place : α → Cursor} {behind : β → Cursor} {first : Except ParsingFault α}
    {next : α → Except ParsingFault β} (stays : Stays text place first)
    (continued : ∀ value, (place value).IsIn text → Stays text behind (next value)) :
    Stays text behind (first >>= next) := by
  cases first with
  | error fault => exact stays
  | ok value => exact continued value stays

theorem Stays.map {place : α → Cursor} {behind : β → Cursor} {first : Except ParsingFault α}
    {pass : α → β} (stays : Stays text place first)
    (same : ∀ value, behind (pass value) = place value) :
    Stays text behind (first.map pass) := by
  cases first with
  | error fault => exact stays
  | ok value =>
      rw [Except.map, Stays, same]
      exact stays

variable {cursor : Cursor}

theorem stays_expect (inside : cursor.IsIn text) (literal : String) :
    Stays text id (cursor.expect literal) := by
  rw [Cursor.expect]
  split
  · exact inside.skip _
  · exact inside.fault rfl

theorem stays_readName (inside : cursor.IsIn text) :
    Stays text Prod.snd cursor.readName := by
  rw [Cursor.readName]
  split
  · exact inside.fault rfl
  · exact inside.skip _

theorem stays_readUntil (inside : cursor.IsIn text) (delimiter construct : String) :
    Stays text Prod.snd (cursor.readUntil delimiter construct) := by
  rw [Cursor.readUntil]
  split
  · exact (inside.skip _).fault rfl
  · exact inside.skip _

theorem stays_readComment (inside : cursor.IsIn text) :
    Stays text Prod.snd (readComment cursor) := by
  rw [readComment]
  apply (stays_expect inside _).bind
  intro opened inside
  apply (stays_readUntil inside _ _).bind
  intro read inside
  exact inside

theorem stays_readCData (inside : cursor.IsIn text) :
    Stays text Prod.snd (readCData cursor) := by
  rw [readCData]
  apply (stays_expect inside _).bind
  intro opened inside
  apply (stays_readUntil inside _ _).bind
  intro read inside
  exact inside

theorem stays_readInstruction (inside : cursor.IsIn text) :
    Stays text Prod.snd (readInstruction cursor) := by
  rw [readInstruction]
  apply (stays_expect inside _).bind
  intro opened inside
  apply (stays_readName inside).bind
  intro named inside
  apply (stays_readUntil inside.skipBlanks _ _).bind
  intro read inside
  exact inside

theorem stays_readQuoted (inside : cursor.IsIn text) :
    Stays text Prod.snd (readQuoted cursor) := by
  rw [readQuoted]
  split
  · split
    · apply (stays_readUntil (inside.skip 1) _ _).bind
      intro read inside
      exact inside
    · exact inside.fault rfl
  · exact inside.fault rfl

theorem stays_readAttribute (inside : cursor.IsIn text) :
    Stays text Prod.snd (readAttribute cursor) := by
  rw [readAttribute]
  apply (stays_readName inside).bind
  intro named inside
  apply (stays_expect inside.skipBlanks _).bind
  intro equated inside
  apply (stays_readQuoted inside.skipBlanks).bind
  intro quoted inside
  exact inside.skipBlanks

theorem stays_readAttributes (inside : cursor.IsIn text) (attributes : Attributes) :
    Stays text Prod.snd (readAttributes attributes cursor) := by
  fun_induction readAttributes attributes cursor with
  | case1 attributes cursor follows fault failed =>
      exact (stays_readAttribute inside).of_error failed
  | case2 attributes cursor follows name value next read induction =>
      exact induction ((stays_readAttribute inside).of_ok read)
  | case3 => exact inside

theorem stays_readStartTagEnd (inside : cursor.IsIn text) (name : Name)
    (attributes : Attributes) : Stays text Prod.snd (readStartTagEnd name attributes cursor) := by
  rw [readStartTagEnd]
  split
  · exact inside.skip _
  · apply (stays_expect inside _).bind
    intro closed inside
    exact inside

theorem stays_readStartTag (inside : cursor.IsIn text) :
    Stays text Prod.snd (readStartTag cursor) := by
  rw [readStartTag]
  apply (stays_expect inside _).bind
  intro opened inside
  apply (stays_readName inside).bind
  intro named inside
  apply (stays_readAttributes inside.skipBlanks _).bind
  intro listed inside
  exact stays_readStartTagEnd inside _ _

theorem stays_readEndTag (inside : cursor.IsIn text) :
    Stays text Prod.snd (readEndTag cursor) := by
  rw [readEndTag]
  apply (stays_expect inside _).bind
  intro opened inside
  apply (stays_readName inside).bind
  intro named inside
  apply (stays_expect inside.skipBlanks _).bind
  intro closed inside
  exact inside

/-! ## Content -/

variable {options : ParserOptions} {progress : Progress}

theorem stays_readToken (inside : cursor.IsIn text) :
    Stays text Prod.snd (readToken cursor) := by
  rw [readToken]
  split
  · exact inside.skip _
  · split
    · exact (stays_readEndTag inside).map fun _ => rfl
    · split
      · exact (stays_readComment inside).map fun _ => rfl
      · split
        · exact (stays_readCData inside).map fun _ => rfl
        · split
          · exact (stays_readInstruction inside).map fun _ => rfl
          · exact (stays_readStartTag inside).map fun _ => rfl

theorem stays_after {next : Cursor} (inside : next.IsIn text) (token : Token) :
    Stays text Outcome.cursor (progress.after options next token) := by
  cases token with
  | text characters => exact inside
  | endTag name =>
      rw [Progress.after]
      split
      · rw [Stays, cursor_close]
        exact inside
      · exact inside.fault rfl
  | leaf content =>
      rw [Progress.after]
      split
      · exact inside
      · exact inside
  | startTag tag =>
      cases tag with
      | empty name attributes => exact inside
      | opening name attributes => exact inside

theorem stays_step (inside : progress.cursor.IsIn text) :
    Stays text Outcome.cursor (step options progress) := by
  rw [step_eq, takeToken]
  split
  · exact inside.fault rfl
  · apply (stays_readToken inside).bind
    intro read inside
    exact stays_after inside read.1

theorem stays_readContent (inside : progress.cursor.IsIn text) :
    Stays text Prod.snd (readContent options progress) := by
  fun_induction readContent options progress with
  | case1 progress fault failed => exact (stays_step inside).of_error failed
  | case2 progress node cursor stepped => exact (stays_step inside).of_ok stepped
  | case3 progress next stepped induction =>
      exact induction ((stays_step inside).of_ok stepped)

theorem stays_readElement (inside : cursor.IsIn text) :
    Stays text Prod.snd (readElement options cursor) := by
  rw [readElement]
  split
  · rename_i failed
    exact (stays_readStartTag inside).of_error failed
  · rename_i read
    exact (stays_readStartTag inside).of_ok read
  · rename_i read
    apply stays_readContent
    exact (stays_readStartTag inside).of_ok read

/-! ## Documents -/

theorem stays_readOpening (inside : cursor.IsIn text) :
    Stays text Prod.snd (readOpening cursor) := by
  rw [readOpening]
  split
  · apply (stays_readInstruction inside).bind
    intro read inside
    dsimp only
    split
    · exact inside.skipBlanks
    · exact inside.skipBlanks
  · exact inside

theorem stays_readPrologue (inside : cursor.IsIn text) :
    Stays text Prod.snd (readPrologue options cursor) := by
  fun_induction readPrologue options cursor with
  | case1 cursor starts fault failed => exact (stays_readInstruction inside).of_error failed
  | case2 cursor starts target content next read induction =>
      have behind : next.IsIn text := (stays_readInstruction inside).of_ok read
      exact (induction behind.skipBlanks).map fun _ => rfl
  | case3 cursor different starts fault failed =>
      exact (stays_readComment inside).of_error failed
  | case4 cursor different starts content next read induction =>
      have behind : next.IsIn text := (stays_readComment inside).of_ok read
      exact (induction behind.skipBlanks).map fun _ => rfl
  | case5 => exact inside

/-- The fault that parsing a text meets is located in that text. -/
theorem isIn_of_document_eq_error {fault : ParsingFault}
    (failed : document options text = .error fault) : fault.IsIn text := by
  -- Behind the root nothing is read, so that any cursor does as the last one.
  suffices stays : Stays text (fun _ => Cursor.start text) (document options text) by
    exact stays.of_error failed
  rw [document]
  apply (stays_readOpening Cursor.isIn_start.skipBlanks).bind
  intro opening inside
  apply (stays_readPrologue inside).bind
  intro prologue inside
  have accepted : Stays text (fun _ => prologue.2) (refuseDocumentType prologue.2) := by
    rw [refuseDocumentType]
    split
    · exact inside.fault rfl
    · exact inside
  apply accepted.bind
  intro _ inside
  apply (stays_readElement inside).bind
  intro element inside
  have ended : Stays text (fun _ => Cursor.start text)
      (refuseTrailingContent element.2.skipBlanks) := by
    rw [refuseTrailingContent]
    split
    · exact Cursor.isIn_start
    · exact inside.skipBlanks.fault rfl
  apply ended.bind
  intro _ inside
  exact inside

end Parse

end XmlGrove
