import XmlGrove.Proofs.Path.Predicates

/-!
# Reading location paths

A location path names the child to turn to at each level, along with its position among the
siblings of that name. Read as a path expression, it has one step for each of these turns.
-/

namespace XmlGrove

open Grammar

/-! ## Trimming and splitting -/

namespace Text

theorem splitAtEach_eq_splitOn (separator : Char) (text : List Char) :
    splitAtEach separator text = text.splitOn separator := by
  induction text with
  | nil => rfl
  | cons first rest induction =>
      rw [splitAtEach, List.splitOn_cons_eq_if_modifyHead, ← induction]
      by_cases equal : first = separator
      · simp [equal]
      · have nonempty : splitAtEach separator rest ≠ [] := by
          rw [induction]
          exact List.splitOn_ne_nil separator rest
        cases segments : splitAtEach separator rest with
        | nil => exact absurd segments nonempty
        | cons segment segments => simp [equal]

theorem trim_of_solid {text : List Char} (starts : StartsSolid text)
    (ends : StartsSolid text.reverse) : trim text = text := by
  rw [trim, trimStart_of_startsSolid starts, trimStart_of_startsSolid ends, List.reverse_reverse]

end Text

namespace Path

/-! ## Positions -/

theorem numeral_toDigits (number : Nat) : Numeral (Nat.toDigits 10 number) number := by
  have digits : ∀ character ∈ Nat.toDigits 10 number, character.isDigit = true :=
    fun character member => Nat.isDigit_of_mem_toDigits (by decide) (by decide) member
  have numeral := Numeral.unsigned ⟨Nat.toDigits_ne_nil, digits⟩
  rwa [Nat.ofDigitChars_ten_toDigits] at numeral

/-! ## Turns -/

/-- A turn to a child tag node, given by its name and its position among those of that name. -/
structure Turn where
  name : Name
  position : Nat

namespace Turn

variable (turn : Turn)

def text : String := s!"{turn.name}[{turn.position}]"

def step : Step := .filtered (.named turn.name.text) (.position turn.position)

theorem toList_text : turn.text.toList =
    turn.name.text.toList ++ '[' :: (Nat.toDigits 10 turn.position ++ [']']) := by
  simp [text, toString, String.toList_append]

theorem startsSolid_reverse_text (rest : List Char) :
    StartsSolid (turn.text.toList.reverse ++ rest) := by
  have ends : turn.text.toList.reverse = ']' :: ((Nat.toDigits 10 turn.position).reverse ++
      '[' :: turn.name.text.toList.reverse) := by
    simp [toList_text]
  rw [ends]
  exact startsOutside_cons_iff.2 (by decide)

theorem slash_not_mem_text : '/' ∉ turn.text.toList := by
  have named := turn.name.not_mem_of_not_isNameRest (by decide : isNameRest '/' = false)
  have numbered : '/' ∉ Nat.toDigits 10 turn.position := by
    intro member
    have digit := Nat.isDigit_of_mem_toDigits (by decide) (by decide) member
    cases digit
  simp [toList_text, named, numbered]

theorem readPredicate_position :
    readPredicate (Nat.toDigits 10 turn.position) = .position turn.position := by
  exact readPredicate_of_documented (.position (numeral_toDigits turn.position))

theorem readTest_name : readTest turn.name.text.toList = .named turn.name.text := by
  have different : turn.name.text.toList ≠ ['*'] := by
    intro equal
    have named := turn.name.not_mem_of_not_isNameRest (by decide : isNameRest '*' = false)
    simp [equal] at named
  rw [readTest, if_neg different, String.ofList_toList]

theorem readStep_text : readStep turn.text.toList = turn.step := by
  have unopened : '[' ∉ turn.name.text.toList :=
    turn.name.not_mem_of_not_isNameRest (by decide)
  rw [toList_text, readStep_bracketed unopened (by simp), readTest_name, readPredicate_position,
    step]

end Turn

/-! ## Location paths -/

/-- The location path that a sequence of turns makes up. -/
def pathOf (turns : List Turn) : String :=
  "/" ++ "/".intercalate (turns.map Turn.text)

/-- The steps that a sequence of turns is read as; without a turn, one stays at the root. -/
def stepsOf (turns : List Turn) : List Step :=
  if turns.isEmpty then [.self] else turns.map Turn.step

theorem toList_pathOf (turns : List Turn) : (pathOf turns).toList =
    '/' :: ['/'].intercalate (turns.map fun turn => turn.text.toList) := by
  simp [pathOf, String.toList_append, Function.comp_def]

theorem pathOf_cons (turn : Turn) {rest : List Turn} (more : rest ≠ []) :
    (pathOf (turn :: rest)).toList = '/' :: (turn.text.toList ++ (pathOf rest).toList) := by
  rw [toList_pathOf, toList_pathOf, List.map_cons,
    List.intercalate_cons_of_ne_nil (by simpa using more)]
  simp

theorem startsSolid_reverse_pathOf (turns : List Turn) :
    StartsSolid (pathOf turns).toList.reverse := by
  induction turns with
  | nil => exact startsOutside_cons_iff.2 (by decide)
  | cons turn rest induction =>
      by_cases last : rest = []
      · rw [last, toList_pathOf, List.map_singleton, List.intercalate_singleton, List.reverse_cons]
        exact turn.startsSolid_reverse_text ['/']
      · rw [pathOf_cons turn last, List.reverse_cons, List.reverse_append, List.append_assoc]
        exact induction.append (turn.startsSolid_reverse_text ['/'])

theorem trim_pathOf (turns : List Turn) :
    Text.trim (pathOf turns).toList = (pathOf turns).toList := by
  apply Text.trim_of_solid _ (startsSolid_reverse_pathOf turns)
  rw [toList_pathOf]
  exact startsOutside_cons_iff.2 (by decide)

theorem segments_pathOf {turns : List Turn} (more : turns ≠ []) :
    (Text.splitAtEach '/' (pathOf turns).toList).filter (!·.isEmpty) =
      turns.map fun turn => turn.text.toList := by
  have split : (['/'].intercalate (turns.map fun turn => turn.text.toList)).splitOn '/' =
      turns.map fun turn => turn.text.toList := by
    apply List.splitOn_intercalate
    · intro segment member
      rcases List.mem_map.1 member with ⟨turn, listed, rfl⟩
      exact turn.slash_not_mem_text
    · simpa using more
  rw [Text.splitAtEach_eq_splitOn, toList_pathOf, List.splitOn_cons_eq_if_modifyHead, split]
  have filled : ∀ segment ∈ turns.map fun turn => turn.text.toList, (!segment.isEmpty) = true := by
    intro segment member
    rcases List.mem_map.1 member with ⟨turn, listed, rfl⟩
    simp [Turn.toList_text]
  simpa using List.filter_eq_self.2 filled

/-- A location path is read as the turns that it is made of. -/
theorem read_pathOf (turns : List Turn) :
    Expression.read (pathOf turns).toList = ⟨true, stepsOf turns⟩ := by
  by_cases none : turns = []
  · rw [none]
    decide
  · have starts : (pathOf turns).toList.head? = some '/' := by rw [toList_pathOf, List.head?_cons]
    have longer : (pathOf turns).toList ≠ ['/'] := by
      intro equal
      have segments := segments_pathOf none
      rw [equal] at segments
      exact none (List.map_eq_nil_iff.1 segments.symm)
    simp only [Expression.read, trim_pathOf, segments_pathOf none, if_neg longer, starts, stepsOf,
      List.map_map, List.isEmpty_iff, if_neg none]
    have steps : (readStep ∘ fun turn : Turn => turn.text.toList) = Turn.step :=
      funext Turn.readStep_text
    simp [steps]

end Path

end XmlGrove
