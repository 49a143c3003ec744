import XmlGrove.Proofs.Failure.Token

/-!
# Which faults readers meet

A reader of markup misses a piece that the grammar demands, or it gets to the end of the input
before the construct ends that it reads. Other faults are met between pieces of markup only.
-/

namespace XmlGrove.Parse

/-- A reading that does not fail with a fault of another than the given kinds. -/
def FailsOnly (kinds : List ParsingFault.Kind) (reading : Except ParsingFault α) : Prop :=
  ∀ fault, reading = .error fault → fault.kind ∈ kinds

/-- The kinds of faults that are met within markup. -/
def lexicalKinds : List ParsingFault.Kind := [.grammar, .unexpectedEnd]

variable {kinds : List ParsingFault.Kind}

theorem failsOnly_ok (value : α) : FailsOnly kinds (.ok value : Except ParsingFault α) := by
  intro fault failed
  cases failed

theorem failsOnly_error {fault : ParsingFault} (member : fault.kind ∈ kinds) :
    FailsOnly kinds (.error fault : Except ParsingFault α) := by
  intro other failed
  cases failed
  exact member

theorem FailsOnly.mono {others : List ParsingFault.Kind} {reading : Except ParsingFault α}
    (limited : FailsOnly kinds reading) (subset : kinds ⊆ others) : FailsOnly others reading :=
  fun fault failed => subset (limited fault failed)

theorem FailsOnly.bind {first : Except ParsingFault α} {next : α → Except ParsingFault β}
    (limited : FailsOnly kinds first) (continued : ∀ value, FailsOnly kinds (next value)) :
    FailsOnly kinds (first >>= next) := by
  cases first with
  | error fault => exact failsOnly_error (limited fault rfl)
  | ok value => exact continued value

theorem FailsOnly.map {first : Except ParsingFault α} (limited : FailsOnly kinds first)
    (pass : α → β) : FailsOnly kinds (first.map pass) := by
  cases first with
  | error fault => exact failsOnly_error (limited fault rfl)
  | ok value => exact failsOnly_ok (pass value)

theorem bind_eq_error_iff {first : Except ParsingFault α} {next : α → Except ParsingFault β}
    {fault : ParsingFault} :
    (first >>= next) = .error fault ↔
      first = .error fault ∨ ∃ value, first = .ok value ∧ next value = .error fault := by
  cases first with
  | error other => simp [bind, Except.bind]
  | ok value => simp [bind, Except.bind]

theorem map_eq_error_iff {first : Except ParsingFault α} {pass : α → β} {fault : ParsingFault} :
    first.map pass = .error fault ↔ first = .error fault := by
  cases first with
  | error other => simp [Except.map]
  | ok value => simp [Except.map]

/-! ## Cursors -/

theorem failsOnly_expect (member : .grammar ∈ kinds) (cursor : Cursor) (literal : String) :
    FailsOnly kinds (cursor.expect literal) := by
  rw [Cursor.expect]
  split
  · exact failsOnly_ok _
  · exact failsOnly_error member

theorem failsOnly_readName (member : .grammar ∈ kinds) (cursor : Cursor) :
    FailsOnly kinds cursor.readName := by
  rw [Cursor.readName]
  split
  · exact failsOnly_error member
  · exact failsOnly_ok _

theorem failsOnly_readUntil (cursor : Cursor) (delimiter construct : String) :
    FailsOnly lexicalKinds (cursor.readUntil delimiter construct) := by
  rw [Cursor.readUntil]
  split
  · exact failsOnly_error (by decide : ParsingFault.Kind.unexpectedEnd ∈ lexicalKinds)
  · exact failsOnly_ok _

/-! ## Markup -/

theorem failsOnly_readEndTag (cursor : Cursor) : FailsOnly [.grammar] (readEndTag cursor) := by
  rw [readEndTag]
  apply (failsOnly_expect (by decide) cursor _).bind
  intro opened
  apply (failsOnly_readName (by decide) opened).bind
  intro named
  apply (failsOnly_expect (by decide) named.2.skipBlanks _).bind
  intro closed
  exact failsOnly_ok _

theorem failsOnly_readStartTagEnd (name : Name) (attributes : Attributes) (cursor : Cursor) :
    FailsOnly [.grammar] (readStartTagEnd name attributes cursor) := by
  rw [readStartTagEnd]
  split
  · exact failsOnly_ok _
  · apply (failsOnly_expect (by decide) cursor _).bind
    intro closed
    exact failsOnly_ok _

theorem failsOnly_readComment (cursor : Cursor) :
    FailsOnly lexicalKinds (readComment cursor) := by
  rw [readComment]
  apply (failsOnly_expect (by decide) cursor _).bind
  intro opened
  apply (failsOnly_readUntil opened _ _).bind
  intro read
  exact failsOnly_ok _

theorem failsOnly_readCData (cursor : Cursor) : FailsOnly lexicalKinds (readCData cursor) := by
  rw [readCData]
  apply (failsOnly_expect (by decide) cursor _).bind
  intro opened
  apply (failsOnly_readUntil opened _ _).bind
  intro read
  exact failsOnly_ok _

theorem failsOnly_readInstruction (cursor : Cursor) :
    FailsOnly lexicalKinds (readInstruction cursor) := by
  rw [readInstruction]
  apply (failsOnly_expect (by decide) cursor _).bind
  intro opened
  apply (failsOnly_readName (by decide) opened).bind
  intro named
  apply (failsOnly_readUntil named.2.skipBlanks _ _).bind
  intro read
  exact failsOnly_ok _

theorem failsOnly_readQuoted (cursor : Cursor) : FailsOnly lexicalKinds (readQuoted cursor) := by
  rw [readQuoted]
  split
  · split
    · apply (failsOnly_readUntil _ _ _).bind
      intro read
      exact failsOnly_ok _
    · exact failsOnly_error (by decide : ParsingFault.Kind.grammar ∈ lexicalKinds)
  · exact failsOnly_error (by decide : ParsingFault.Kind.grammar ∈ lexicalKinds)

theorem failsOnly_readAttribute (cursor : Cursor) :
    FailsOnly lexicalKinds (readAttribute cursor) := by
  rw [readAttribute]
  apply (failsOnly_readName (by decide) cursor).bind
  intro named
  apply (failsOnly_expect (by decide) named.2.skipBlanks _).bind
  intro equated
  apply (failsOnly_readQuoted equated.skipBlanks).bind
  intro quoted
  exact failsOnly_ok _

theorem failsOnly_readAttributes (attributes : Attributes) (cursor : Cursor) :
    FailsOnly lexicalKinds (readAttributes attributes cursor) := by
  fun_induction readAttributes attributes cursor with
  | case1 attributes cursor follows fault failed =>
      exact failsOnly_error (failsOnly_readAttribute cursor fault failed)
  | case2 attributes cursor follows name value next read induction => exact induction
  | case3 => exact failsOnly_ok _

theorem failsOnly_readStartTag (cursor : Cursor) :
    FailsOnly lexicalKinds (readStartTag cursor) := by
  rw [readStartTag]
  apply (failsOnly_expect (by decide) cursor _).bind
  intro opened
  apply (failsOnly_readName (by decide) opened).bind
  intro named
  apply (failsOnly_readAttributes _ named.2.skipBlanks).bind
  intro listed
  exact (failsOnly_readStartTagEnd _ _ _).mono (by decide)

theorem failsOnly_readToken (cursor : Cursor) : FailsOnly lexicalKinds (readToken cursor) := by
  rw [readToken]
  split
  · exact failsOnly_ok _
  · split
    · exact ((failsOnly_readEndTag cursor).mono (by decide)).map _
    · split
      · exact (failsOnly_readComment cursor).map _
      · split
        · exact (failsOnly_readCData cursor).map _
        · split
          · exact (failsOnly_readInstruction cursor).map _
          · exact (failsOnly_readStartTag cursor).map _

/-! ## What precedes the root -/

theorem failsOnly_readOpening (cursor : Cursor) :
    FailsOnly lexicalKinds (readOpening cursor) := by
  rw [readOpening]
  split
  · apply (failsOnly_readInstruction cursor).bind
    intro read
    dsimp only
    split
    · exact failsOnly_ok _
    · exact failsOnly_ok _
  · exact failsOnly_ok _

theorem failsOnly_readPrologue (options : ParserOptions) (cursor : Cursor) :
    FailsOnly lexicalKinds (readPrologue options cursor) := by
  fun_induction readPrologue options cursor with
  | case1 cursor starts fault failed =>
      exact failsOnly_error (failsOnly_readInstruction cursor fault failed)
  | case2 cursor starts target content next read induction => exact induction.map _
  | case3 cursor different starts fault failed =>
      exact failsOnly_error (failsOnly_readComment cursor fault failed)
  | case4 cursor different starts content next read induction => exact induction.map _
  | case5 => exact failsOnly_ok _

end XmlGrove.Parse
