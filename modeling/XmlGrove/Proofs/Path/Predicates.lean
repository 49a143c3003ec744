import XmlGrove.Path.Evaluation
import XmlGrove.Proofs.Grammar.Scanning

/-!
# Reading predicates

The text between a segment's first opening and its last closing bracket has one of four forms,
or it selects nothing. There are two exceptions: what stands between `text()` and the equals sign
is passed over, and a number with too many digits is not parsed at all.
-/

namespace XmlGrove

theorem Text.beforeLast?_append_cons {separator : Char} {text tail : List Char}
    (absent : separator ∉ tail) :
    Text.beforeLast? separator (text ++ separator :: tail) = some text := by
  have skipped : ∀ character ∈ tail.reverse, decide (character ≠ separator) = true := by
    intro character member
    have different : character ≠ separator := by
      rintro rfl
      exact absent (List.mem_reverse.1 member)
    simpa using different
  have reversed : (text ++ separator :: tail).reverse =
      tail.reverse ++ separator :: text.reverse := by
    simp
  rw [Text.beforeLast?, reversed, List.dropWhile_append_of_pos skipped]
  simp

namespace Path

open Grammar

/-! ## Forms -/

/-- A row of decimal digits. -/
def IsDigits (text : List Char) : Prop :=
  text ≠ [] ∧ ∀ character ∈ text, character.isDigit = true

/-- Digits behind at most one sign denote a number. -/
inductive Numeral : List Char → Int → Prop where
  | unsigned {digits : List Char} (written : IsDigits digits) :
      Numeral digits (Nat.ofDigitChars 10 digits 0)
  | positive {digits : List Char} (written : IsDigits digits) :
      Numeral ('+' :: digits) (Nat.ofDigitChars 10 digits 0)
  | negative {digits : List Char} (written : IsDigits digits) :
      Numeral ('-' :: digits) (-(Nat.ofDigitChars 10 digits 0 : Int))

/-- The documented forms of predicates. -/
inductive Documented : List Char → Predicate → Prop where
  | position {text : List Char} {number : Int} (written : Numeral text number) :
      Documented text (.position number)
  | hasAttribute {name : List Char} (unassigned : '=' ∉ name) :
      Documented ('@' :: name) (.hasAttribute (String.ofList name))
  | attributeEquals {name written : List Char} (named : name ≠ []) (unassigned : '=' ∉ name)
      (nonempty : written ≠ []) :
      Documented ('@' :: (name ++ '=' :: written))
        (.attributeEquals (String.ofList name) (String.ofList (stripQuotes written)))
  | textEquals {written : List Char} (nonempty : written ≠ []) :
      Documented ("text()=".toList ++ written)
        (.textEquals (String.ofList (stripQuotes written)))

/-- Something stands between `text()` and the first equals sign, and a value follows the
latter. -/
def Overread (text : List Char) (value : String) : Prop :=
  ∃ between written : List Char, text = "text()".toList ++ between ++ '=' :: written ∧
    between ≠ [] ∧ '=' ∉ between ∧ written ≠ [] ∧ value = String.ofList (stripQuotes written)

def Predicate.Supported : Predicate → Prop
  | .unsupported _ => False
  | _ => True

/-- A number with more digits than are converted. -/
def Overlong (text : List Char) : Prop :=
  (∃ number : Int, Numeral text number) ∧ digitLimit < text.countP Char.isDigit

/-- A text is parsed as the predicate whose documented form it has, and one of no such form
is parsed as what selects nothing from any candidates. -/
def ParsedAsDocumented (text : List Char) : Prop :=
  (∀ predicate : Predicate, predicate.Supported →
      (parsePredicate text = .ok predicate ↔ Documented text predicate)) ∧
    ((∀ predicate : Predicate, ¬ Documented text predicate) →
      ∃ predicate : Predicate, parsePredicate text = .ok predicate ∧
        ∀ (grove : Grove) (candidates : List NodeId), grove.selectBy predicate candidates = [])

/-! ## Numbers -/

theorem digitsValue_eq_ofDigitChars (digits : List Char) :
    digitsValue digits = Nat.ofDigitChars 10 digits 0 := by
  rw [Nat.ofDigitChars_eq_foldl]
  simp [digitsValue, Nat.mul_comm]

theorem isDigits_iff {text : List Char} :
    (!text.isEmpty && text.all Char.isDigit) = true ↔ IsDigits text := by
  simp [IsDigits]

theorem number?_of_numeral {text : List Char} {number : Int} (written : Numeral text number) :
    number? text = some number := by
  cases written with
  | positive digits | negative digits =>
      simp [number?, isDigits_iff.2 digits, digitsValue_eq_ofDigitChars]
  | unsigned digits =>
      have decided := isDigits_iff.2 digits
      rcases digits with ⟨nonempty, digits⟩
      cases text with
      | nil => exact absurd rfl nonempty
      | cons first rest =>
          have digit := digits first List.mem_cons_self
          -- A sign is no digit, so that all of the text is read as digits.
          have unsigned : first ≠ '-' ∧ first ≠ '+' := by
            constructor
            · rintro rfl
              cases digit
            · rintro rfl
              cases digit
          simp only [number?]
          split <;> simp_all [digitsValue_eq_ofDigitChars]

theorem numeral_of_number? {text : List Char} {number : Int} (read : number? text = some number) :
    Numeral text number := by
  simp only [number?] at read
  split at read
  all_goals
    simp only [Option.map_eq_some_iff, Option.bind_eq_bind, Option.bind_eq_some_iff,
      Option.ite_none_right_eq_some, Option.some.injEq, Option.pure_def,
      digitsValue_eq_ofDigitChars] at read
    rcases read with ⟨-, ⟨value, ⟨digits, rfl⟩, rfl⟩, rfl⟩
  · exact .negative (isDigits_iff.1 digits)
  · exact .positive (isDigits_iff.1 digits)
  · exact .unsigned (isDigits_iff.1 digits)

/-- What begins with neither a digit nor a sign is no number. -/
theorem number?_eq_none {first : Char} (rest : List Char) (digit : first.isDigit = false)
    (unsigned : first ≠ '-' ∧ first ≠ '+') : number? (first :: rest) = none := by
  simp [number?, unsigned, digit]

/-! ## The cascade of forms -/

theorem cut?_character_iff {character : Char} {text before after : List Char} :
    Text.cut? [character] text = some (before, after) ↔
      text = before ++ character :: after ∧ character ∉ before := by
  rw [Text.cut?_eq_some_iff (by simp), endsFirst_quote_iff]
  simp

theorem cut?_character_eq_none_iff {character : Char} {text : List Char} :
    Text.cut? [character] text = none ↔ character ∉ text := by
  constructor
  · intro uncut member
    rcases List.eq_append_cons_of_mem member with ⟨before, after, rfl, absent⟩
    rw [cut?_character_iff.2 ⟨rfl, absent⟩] at uncut
    cases uncut
  · intro absent
    cases cut : Text.cut? [character] text with
    | none => rfl
    | some sides =>
        rw [(cut?_character_iff.1 cut).1] at absent
        simp at absent

/-- A text without an equals sign that starts another text stands in front of its equals sign. -/
theorem prefix_of_prefix_append {text before after : List Char} (absent : '=' ∉ text)
    (starts : text <+: before ++ '=' :: after) : text <+: before := by
  rcases starts with ⟨rest, equal⟩
  rcases List.append_eq_append_iff.1 equal with ⟨between, rfl, -⟩ | ⟨inner, rfl, behind⟩
  · exact List.prefix_append text between
  · cases inner with
    | nil => simp
    | cons first inner =>
        rw [List.cons_append, List.cons.injEq] at behind
        simp [← behind.1] at absent

theorem readPredicate_at (rest : List Char) :
    readPredicate ('@' :: rest) = attributePredicate rest := by
  simp only [readPredicate, number?_eq_none rest (by decide : '@'.isDigit = false) (by decide)]

/-- With something in front of the equals sign or not, the value of a text is what follows. -/
theorem readPredicate_text {between written : List Char} (absent : '=' ∉ between)
    (nonempty : written ≠ []) :
    readPredicate ("text()".toList ++ between ++ '=' :: written) =
      .textEquals (String.ofList (stripQuotes written)) := by
  have cut : Text.cut? ['='] ("text()".toList ++ between ++ '=' :: written) =
      some ("text()".toList ++ between, written) :=
    cut?_character_iff.2 ⟨rfl, by simpa using absent⟩
  have starts : "text()".toList.isPrefixOf ("text()".toList ++ between ++ '=' :: written) := by
    simp
  have numberless : number? ("text()".toList ++ between ++ '=' :: written) = none :=
    number?_eq_none _ (by decide) (by decide)
  unfold readPredicate
  rw [numberless, cut]
  simp [nonempty]

theorem readPredicate_of_documented {text : List Char} {predicate : Predicate}
    (documented : Documented text predicate) : readPredicate text = predicate := by
  cases documented with
  | position written =>
      unfold readPredicate
      rw [number?_of_numeral written]
  | hasAttribute unassigned =>
      rw [readPredicate_at, attributePredicate, cut?_character_eq_none_iff.2 unassigned]
  | attributeEquals named unassigned nonempty =>
      rw [readPredicate_at, attributePredicate, cut?_character_iff.2 ⟨rfl, unassigned⟩]
      simp [named, nonempty]
  | textEquals nonempty => exact readPredicate_text (List.not_mem_nil (a := '=')) nonempty

theorem readPredicate_of_overread {text : List Char} {value : String}
    (overread : Overread text value) : readPredicate text = .textEquals value := by
  rcases overread with ⟨between, written, rfl, -, absent, nonempty, rfl⟩
  exact readPredicate_text absent nonempty

theorem attributePredicate_supported {text : List Char}
    (supported : (attributePredicate text).Supported) :
    Documented ('@' :: text) (attributePredicate text) := by
  cases cut : Text.cut? ['='] text with
  | none =>
      rw [attributePredicate, cut]
      exact .hasAttribute (cut?_character_eq_none_iff.1 cut)
  | some sides =>
      rcases sides with ⟨name, written⟩
      rcases cut?_character_iff.1 cut with ⟨rfl, unassigned⟩
      rw [attributePredicate, cut] at supported ⊢
      by_cases incomplete : name.isEmpty || written.isEmpty
      · simp [incomplete, Predicate.Supported] at supported
      · simp only [incomplete, Bool.false_eq_true, if_false]
        simp only [Bool.or_eq_true, List.isEmpty_iff, not_or] at incomplete
        exact .attributeEquals incomplete.1 unassigned incomplete.2

/-- What a text is read as has the text's documented form, unless it was overread. -/
theorem documented_or_overread {text : List Char} (supported : (readPredicate text).Supported) :
    Documented text (readPredicate text) ∨
      ∃ value : String, readPredicate text = .textEquals value ∧ Overread text value := by
  unfold readPredicate at supported ⊢
  split at supported
  · rename_i number read
    exact .inl (.position (numeral_of_number? read))
  · split at supported
    · exact .inl (attributePredicate_supported supported)
    · split at supported
      · rename_i before written cut
        by_cases reads : "text()".toList.isPrefixOf text && !written.isEmpty
        · rcases cut?_character_iff.1 cut with ⟨rfl, absent⟩
          simp only [reads, if_true]
          simp only [Bool.and_eq_true, List.isPrefixOf_iff_prefix, Bool.not_eq_true',
            List.isEmpty_eq_false_iff] at reads
          rcases prefix_of_prefix_append (by decide) reads.1 with ⟨between, rfl⟩
          by_cases direct : between = []
          · subst direct
            left
            simpa using Documented.textEquals reads.2
          · refine .inr ⟨_, rfl, between, written, rfl, direct, ?_, reads.2, rfl⟩
            simp at absent
            simp [absent]
        · simp only [reads] at supported
          exact absurd supported (by simp [Predicate.Supported])
      · exact absurd supported (by simp [Predicate.Supported])

theorem readPredicate_eq_iff {text : List Char} {predicate : Predicate}
    (supported : predicate.Supported) :
    readPredicate text = predicate ↔ Documented text predicate ∨
      ∃ value : String, predicate = .textEquals value ∧ Overread text value := by
  constructor
  · rintro rfl
    exact documented_or_overread supported
  · rintro (documented | ⟨value, rfl, overread⟩)
    · exact readPredicate_of_documented documented
    · exact readPredicate_of_overread overread

/-! ## What selects something -/

/-- An equals sign follows `text()` at once in the documented form. -/
theorem Overread.not_documented {text : List Char} {value : String}
    (overread : Overread text value) (predicate : Predicate) : ¬ Documented text predicate := by
  intro documented
  have same : predicate = .textEquals value := by
    rw [← readPredicate_of_documented documented, readPredicate_of_overread overread]
  subst same
  rcases overread with ⟨between, written, rfl, nonempty, absent, -, -⟩
  generalize whole : "text()".toList ++ between ++ '=' :: written = text at documented
  cases documented with
  | textEquals =>
      cases between with
      | nil => exact nonempty rfl
      | cons first between =>
          simp at whole absent
          exact absent.1 whole.1.symm

theorem selectBy_of_not_supported {predicate : Predicate} (unsupported : ¬ predicate.Supported)
    (grove : Grove) (candidates : List NodeId) : grove.selectBy predicate candidates = [] := by
  cases predicate with
  | unsupported expression => rfl
  | _ => exact absurd trivial unsupported

/-! ## Converted numbers -/

theorem parsePredicate_of_overlong {text : List Char} (overlong : Overlong text) :
    parsePredicate text = .error .unacceptable := by
  rcases overlong with ⟨⟨number, written⟩, exceeds⟩
  have read := readPredicate_of_documented (.position written)
  simp [parsePredicate, read, isConvertible, exceeds]

theorem parsePredicate_of_not_overlong {text : List Char} (short : ¬ Overlong text) :
    parsePredicate text = .ok (readPredicate text) := by
  rw [parsePredicate]
  split
  · rename_i number read
    have supported : (Predicate.position number).Supported := trivial
    have written : ∃ number : Int, Numeral text number := by
      rcases (readPredicate_eq_iff supported).1 read with documented | ⟨value, impossible, _⟩
      · cases documented with
        | position written => exact ⟨number, written⟩
      · cases impossible
    have within : text.countP Char.isDigit ≤ digitLimit :=
      Nat.le_of_not_lt fun exceeds => short ⟨written, exceeds⟩
    rw [isConvertible, decide_eq_true within, if_pos rfl, read]
  · rfl

/-- A text is parsed as documented unless it is overread or overlong. -/
theorem parsedAsDocumented_iff {text : List Char} :
    ParsedAsDocumented text ↔ (∀ value : String, ¬ Overread text value) ∧ ¬ Overlong text := by
  constructor
  · rintro ⟨forms, -⟩
    have short : ¬ Overlong text := by
      intro overlong
      rcases overlong.1 with ⟨number, written⟩
      have parsed := (forms (.position number) trivial).2 (.position written)
      rw [parsePredicate_of_overlong overlong] at parsed
      cases parsed
    refine ⟨fun value overread => ?_, short⟩
    have parsed := parsePredicate_of_not_overlong short
    rw [readPredicate_of_overread overread] at parsed
    exact overread.not_documented _ ((forms (.textEquals value) trivial).1 parsed)
  · rintro ⟨exact, short⟩
    rw [ParsedAsDocumented, parsePredicate_of_not_overlong short]
    constructor
    · intro predicate supported
      rw [Except.ok.injEq, readPredicate_eq_iff supported, or_iff_left]
      rintro ⟨value, -, overread⟩
      exact exact value overread
    · intro undocumented
      refine ⟨_, rfl, selectBy_of_not_supported ?_⟩
      intro supported
      rcases documented_or_overread supported with documented | ⟨value, -, overread⟩
      · exact undocumented _ documented
      · exact exact value overread

theorem Overread.not_overlong {text : List Char} {value : String}
    (overread : Overread text value) : ¬ Overlong text := by
  rintro ⟨⟨number, written⟩, -⟩
  exact overread.not_documented _ (.position written)

/-! ## Segments -/

/-- The predicate of a segment is what its first opening and its last closing bracket enclose. -/
theorem predicateIn?_bracketed {name text tail : List Char} (unopened : '[' ∉ name)
    (unclosed : ']' ∉ tail) :
    predicateIn? (name ++ '[' :: (text ++ ']' :: tail)) = some text := by
  rw [predicateIn?, cut?_character_iff.2 ⟨rfl, unopened⟩]
  exact Text.beforeLast?_append_cons unclosed

theorem readStep_bracketed {name text tail : List Char} (unopened : '[' ∉ name)
    (unclosed : ']' ∉ tail) :
    readStep (name ++ '[' :: (text ++ ']' :: tail)) =
      .filtered (readTest name) (readPredicate text) := by
  have unlike : ∀ segment : List Char, '[' ∉ segment →
      name ++ '[' :: (text ++ ']' :: tail) ≠ segment := by
    rintro segment absent rfl
    simp at absent
  have closes : (name ++ '[' :: (text ++ ']' :: tail)).contains ']' = true := by simp
  rw [readStep, if_neg (unlike _ (by decide)), if_neg (unlike _ (by decide)),
    if_neg (unlike _ (by decide)), cut?_character_iff.2 ⟨rfl, unopened⟩]
  simp only [closes, if_true, predicateText?, Text.beforeLast?_append_cons unclosed]

theorem parseStep_bracketed {name text tail : List Char} (unopened : '[' ∉ name)
    (unclosed : ']' ∉ tail) :
    parseStep (name ++ '[' :: (text ++ ']' :: tail)) =
      (parsePredicate text).map (.filtered (readTest name)) := by
  rw [parseStep, readStep_bracketed unopened unclosed, predicateIn?_bracketed unopened unclosed]

theorem exists_predicateIn?_of_readStep {segment : List Char} {test : ChildTest}
    {predicate : Predicate} (read : readStep segment = .filtered test predicate) :
    ∃ text, predicateIn? segment = some text ∧ predicate = readPredicate text := by
  rw [readStep] at read
  split at read
  · cases read
  split at read
  · cases read
  split at read
  · cases read
  split at read
  · cases read
  · rename_i name afterOpening cut
    split at read
    · split at read
      · rename_i text closed
        cases read
        exact ⟨text, by simpa [predicateIn?, cut] using closed, rfl⟩
      · cases read
    · cases read

/-- A segment with an overlong predicate is refused, and any other one is read. -/
theorem parseStep_cases (segment : List Char) :
    parseStep segment = .ok (readStep segment) ∨
      parseStep segment = .error .unacceptable ∧
        ∃ text, predicateIn? segment = some text ∧ Overlong text := by
  rw [parseStep]
  split
  · rename_i test predicate text read found
    rcases exists_predicateIn?_of_readStep read with ⟨other, own, rfl⟩
    rw [found, Option.some.injEq] at own
    subst own
    by_cases overlong : Overlong text
    · right
      rw [parsePredicate_of_overlong overlong]
      exact ⟨rfl, text, found, overlong⟩
    · left
      rw [parsePredicate_of_not_overlong overlong, read]
      rfl
  · exact .inl rfl

theorem mapM_parseStep_cases (segments : List (List Char)) :
    segments.mapM parseStep = .ok (segments.map readStep) ∨
      segments.mapM parseStep = .error .unacceptable ∧
        ∃ segment ∈ segments, ∃ text, predicateIn? segment = some text ∧ Overlong text := by
  induction segments with
  | nil => exact .inl rfl
  | cons first rest induction =>
      rw [List.mapM_cons]
      rcases parseStep_cases first with own | ⟨own, overlong⟩
      · rcases induction with others | ⟨others, segment, member, overlong⟩
        · left
          rw [own, others]
          rfl
        · right
          rw [own, others]
          exact ⟨rfl, segment, List.mem_cons_of_mem _ member, overlong⟩
      · right
        rw [own]
        exact ⟨rfl, first, List.mem_cons_self, overlong⟩

/-- A path with an overlong predicate is refused, and any other one is read. -/
theorem Expression.parse_cases (text : List Char) :
    Expression.parse text = .ok (.read text) ∨
      Expression.parse text = .error .unacceptable ∧
        ∃ segment ∈ Text.splitAtEach '/' (Text.trim text), ∃ predicate,
          predicateIn? segment = some predicate ∧ Overlong predicate := by
  simp only [Expression.parse, Expression.read]
  split
  · exact .inl rfl
  · rcases mapM_parseStep_cases ((Text.splitAtEach '/' (Text.trim text)).filter (!·.isEmpty)) with
      steps | ⟨refused, segment, member, overlong⟩
    · left
      rw [steps]
      rfl
    · right
      rw [refused]
      exact ⟨rfl, segment, (List.mem_filter.1 member).1, overlong⟩

/-- The forms of predicates that select something are the documented ones and one more: of a
text that is overread, the value behind the equals sign is compared. All other texts select
nothing, apart from overlong numbers, which are refused. A segment's predicate is what its outer
brackets enclose. -/
theorem parsePredicate_documented_iff (text : List Char) :
    (ParsedAsDocumented text ↔ (∀ value : String, ¬ Overread text value) ∧ ¬ Overlong text) ∧
      (∀ value : String, Overread text value → parsePredicate text = .ok (.textEquals value)) ∧
      (Overlong text → parsePredicate text = .error .unacceptable) ∧
      ∀ name tail : List Char, '[' ∉ name → ']' ∉ tail →
        parseStep (name ++ '[' :: (text ++ ']' :: tail)) =
          (parsePredicate text).map (.filtered (readTest name)) := by
  refine ⟨parsedAsDocumented_iff, ?_, parsePredicate_of_overlong, ?_⟩
  · intro value overread
    rw [parsePredicate_of_not_overlong overread.not_overlong, readPredicate_of_overread overread]
  · intro name tail unopened unclosed
    exact parseStep_bracketed unopened unclosed

/-- A quoted text value, in a segment that goes on after its predicate. -/
theorem parsePredicate_documented_iff_quoted :
    ParsedAsDocumented "text()='x'".toList ∧
      parseStep "a[text()='x']z".toList = .ok (.filtered (.named "a") (.textEquals "x")) := by
  rcases parsePredicate_documented_iff "text()='x'".toList with ⟨documented, -, -, step⟩
  constructor
  · rw [documented]
    constructor
    · rintro value ⟨between, written, equal, nonempty, absent, -⟩
      cases between with
      | nil => exact nonempty rfl
      | cons first between =>
          simp at equal absent
          exact absent.1 equal.1
    · rintro ⟨-, exceeds⟩
      exact absurd exceeds (by decide)
  · exact step ['a'] ['z'] (by decide) (by decide)

/-- `text()y=x` is of no documented form, but it selects the nodes whose text is `x`. -/
theorem not_parsedAsDocumented : ¬ ParsedAsDocumented "text()y=x".toList := by
  rw [parsedAsDocumented_iff]
  rintro ⟨exact, -⟩
  exact exact "x" ⟨['y'], ['x'], rfl, by decide, by decide, by decide, rfl⟩

end Path

end XmlGrove
