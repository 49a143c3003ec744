import XmlGrove.Declaration
import XmlGrove.Proofs.Grammar.Scanning

/-!
# What derived declarations note

A declaration that is derived from a version and an encoding notes that version. It notes that
encoding, too, unless the version ends like the assignment of an encoding, whose value is then
what stands between the quotes behind it.
-/

namespace XmlGrove

open Text

theorem Text.trimStart_append (first second : List Char) :
    trimStart (first ++ second) =
      if trimStart first = [] then trimStart second else trimStart first ++ second := by
  unfold trimStart
  induction first with
  | nil => rfl
  | cons character rest induction =>
      rw [List.cons_append, List.dropWhile_cons, List.dropWhile_cons]
      split
      · exact induction
      · rfl

namespace Declaration

/-! ## Values -/

/-- A text without quotes. -/
def Unquoted (text : List Char) : Prop := ∀ character ∈ text, isQuote character = false

instance (text : List Char) : Decidable (Unquoted text) := List.decidableBAll _ text

theorem Unquoted.takeWhile_append {text rest : List Char} (unquoted : Unquoted text) :
    (text ++ '\x22' :: rest).takeWhile (!isQuote ·) = text := by
  rw [List.takeWhile_append_of_pos]
  · exact List.append_nil text
  · intro character member
    rw [unquoted character member]
    rfl

/-- The value in quotes that a text starts with, once blanks are skipped. -/
def quotedValue? (text : List Char) : Option (List Char) :=
  match trimStart text with
  | opening :: part =>
    let value := part.takeWhile (!isQuote ·)
    if isQuote opening && !value.isEmpty && value.length < part.length then some value else none
  | [] => none

theorem assignedValue?_of_equals {text rest : List Char} (sign : trimStart text = '=' :: rest) :
    assignedValue? text = quotedValue? rest := by
  rw [assignedValue?, sign]
  rfl

theorem assignedValue?_of_other {text rest : List Char} {other : Char}
    (sign : trimStart text = other :: rest) (different : other ≠ '=') :
    assignedValue? text = none := by
  rw [assignedValue?, sign]
  split
  · rename_i equal
    cases equal
    exact absurd rfl different
  · rfl

/-- What stands between a quote and the next one. -/
theorem quotedValue?_quote {part value : List Char}
    (quoted : part.takeWhile (!isQuote ·) = value) (nonempty : value ≠ [])
    (closed : value.length < part.length) : quotedValue? ('\x22' :: part) = some value := by
  have opened : trimStart ('\x22' :: part) = '\x22' :: part := rfl
  rw [quotedValue?, opened]
  dsimp only
  rw [quoted, if_pos]
  rw [Bool.and_eq_true, Bool.and_eq_true, decide_eq_true_iff, Bool.not_eq_true',
    List.isEmpty_eq_false_iff]
  exact ⟨⟨rfl, nonempty⟩, closed⟩

theorem quotedValue?_quoted {value : List Char} (unquoted : Unquoted value)
    (nonempty : value ≠ []) (rest : List Char) :
    quotedValue? ('\x22' :: (value ++ '\x22' :: rest)) = some value := by
  apply quotedValue?_quote unquoted.takeWhile_append nonempty
  rw [List.length_append, List.length_cons]
  omega

/-- A value in quotes behind an equals sign. -/
theorem assignedValue?_quoted {value : List Char} (unquoted : Unquoted value)
    (nonempty : value ≠ []) (rest : List Char) :
    assignedValue? ('=' :: '\x22' :: (value ++ '\x22' :: rest)) = some value := by
  rw [assignedValue?_of_equals rfl]
  exact quotedValue?_quoted unquoted nonempty rest

/-- Tell whether a text lacks but a value to assign one. -/
def awaitsValue (text : List Char) : Bool :=
  match trimStart text with
  | '=' :: rest => trimStart rest = []
  | _ => false

/-- In front of a quote, a text without quotes may assign a value that starts behind it. -/
theorem assignedValue?_append {text part : List Char} (unquoted : Unquoted text) :
    assignedValue? (text ++ '\x22' :: part) =
      if awaitsValue text then quotedValue? ('\x22' :: part) else none := by
  have opened : trimStart ('\x22' :: part) = '\x22' :: part := rfl
  have joined := trimStart_append text ('\x22' :: part)
  cases trimmed : trimStart text with
  | nil =>
      rw [trimmed, if_pos rfl] at joined
      rw [assignedValue?_of_other (joined.trans opened) (by decide), awaitsValue, trimmed]
      rfl
  | cons sign others =>
      rw [trimmed, if_neg (List.cons_ne_nil _ _), List.cons_append] at joined
      by_cases equal : sign = '='
      · rw [equal] at joined trimmed
        rw [assignedValue?_of_equals joined, awaitsValue, trimmed]
        change _ = if decide (trimStart others = []) = true then _ else _
        rw [quotedValue?, trimStart_append]
        cases ends : trimStart others with
        | nil =>
            rw [if_pos rfl, if_pos (by decide)]
            rfl
        | cons opening rest =>
            have member : opening ∈ text := by
              apply List.dropWhile_subset isBlank
              rw [← trimStart, trimmed]
              apply List.mem_cons_of_mem
              apply List.dropWhile_subset isBlank
              rw [← trimStart, ends]
              exact List.mem_cons_self
            rw [if_neg (List.cons_ne_nil _ _), if_neg (by simp), List.cons_append]
            dsimp only
            rw [unquoted opening member]
            rfl
      · rw [assignedValue?_of_other joined equal, awaitsValue, trimmed]
        split
        · rename_i same
          cases same
          exact absurd rfl equal
        · rfl

/-! ## Names -/

/-- Tell whether a text ends with a name and lacks but a value to assign one to it. -/
def endsInAssignment (name : List Char) : List Char → Bool
  | [] => false
  | character :: rest =>
    (name.isPrefixOf (character :: rest) &&
      awaitsValue ((character :: rest).drop name.length)) || endsInAssignment name rest

theorem isPrefixOf_append_cons {name text rest : List Char} {mark : Char} (apart : mark ∉ name) :
    name.isPrefixOf (text ++ mark :: rest) = name.isPrefixOf text := by
  rw [Bool.eq_iff_iff, List.isPrefixOf_iff_prefix, List.isPrefixOf_iff_prefix]
  constructor
  · intro front
    rcases List.prefix_or_prefix_of_prefix front (List.prefix_append text _) with
      inside | ⟨others, equal⟩
    · exact inside
    · rw [← equal, List.prefix_append_right_inj] at front
      cases others with
      | nil => simp [← equal]
      | cons first others =>
          rw [List.cons_prefix_cons] at front
          rw [← equal, front.1] at apart
          exact absurd (List.mem_append_right text List.mem_cons_self) apart
  · intro front
    exact front.trans (List.prefix_append text _)

theorem valueOf?_of_isPrefixOf {name text value : List Char} (starts : name.isPrefixOf text = true)
    (assigned : assignedValue? (text.drop name.length) = some value) :
    valueOf? name text = some value := by
  cases text with
  | nil =>
      rw [List.drop_nil] at assigned
      cases assigned
  | cons character rest => rw [valueOf?, if_pos starts, assigned, Option.some_or]

/-- A name is looked for in a text without quotes, and then behind the quote that follows it. -/
theorem valueOf?_append {name text part value : List Char} (apart : '\x22' ∉ name)
    (unquoted : Unquoted text) (awaited : quotedValue? ('\x22' :: part) = some value) :
    valueOf? name (text ++ '\x22' :: part) =
      if endsInAssignment name text then some value else valueOf? name ('\x22' :: part) := by
  induction text with
  | nil => rfl
  | cons character rest induction =>
      have others := induction fun other member => unquoted other (List.mem_cons_of_mem _ member)
      have starts : name.isPrefixOf (character :: rest ++ '\x22' :: part) = _ :=
        isPrefixOf_append_cons apart
      rw [List.cons_append] at starts ⊢
      rw [valueOf?, endsInAssignment, others, starts]
      by_cases front : name.isPrefixOf (character :: rest) = true
      · have within := (List.isPrefixOf_iff_prefix.1 front).length_le
        rw [if_pos front, front, Bool.true_and, ← List.cons_append,
          List.drop_append_of_le_length within, assignedValue?_append, awaited]
        · split
          · rename_i awaits
            rw [awaits]
            rfl
          · rename_i complete
            rw [Bool.not_eq_true] at complete
            rw [complete, Option.none_or, Bool.false_or]
        · exact fun other member => unquoted other (List.drop_subset _ _ member)
      · rw [if_neg front, Option.none_or]
        rw [Bool.not_eq_true] at front
        rw [front, Bool.false_and, Bool.false_or]

/-! ## Noted values -/

/-- A text that a declaration can note: it is not empty, and there are no quotes in it. -/
structure IsValue (text : String) : Prop where
  nonempty : text ≠ ""
  unquoted : Unquoted text.toList

theorem isValue_ofList {value : List Char} (nonempty : value ≠ []) (unquoted : Unquoted value) :
    IsValue (String.ofList value) where
  nonempty := by
    rw [ne_eq, ← String.toList_eq_nil_iff, String.toList_ofList]
    exact nonempty
  unquoted := by
    rw [String.toList_ofList]
    exact unquoted

theorem isValue_of_quotedValue? {text value : List Char}
    (quoted : quotedValue? text = some value) : IsValue (String.ofList value) := by
  rw [quotedValue?] at quoted
  split at quoted
  · rename_i opening part _
    dsimp only at quoted
    split at quoted
    · rename_i fit
      cases quoted
      rw [Bool.and_eq_true, Bool.and_eq_true, Bool.not_eq_true', List.isEmpty_eq_false_iff] at fit
      apply isValue_ofList fit.1.2
      intro character member
      have outside := List.all_eq_true.1 List.all_takeWhile character member
      rwa [Bool.not_eq_true'] at outside
    · cases quoted
  · cases quoted

theorem isValue_of_assignedValue? {text value : List Char}
    (assigned : assignedValue? text = some value) : IsValue (String.ofList value) := by
  rw [assignedValue?] at assigned
  split at assigned
  · exact isValue_of_quotedValue? assigned
  · cases assigned

theorem isValue_of_valueOf? {name text value : List Char}
    (found : valueOf? name text = some value) : IsValue (String.ofList value) := by
  induction text with
  | nil => cases found
  | cons character rest induction =>
      rw [valueOf?, Option.or_eq_some_iff] at found
      rcases found with here | ⟨_, later⟩
      · split at here
        · exact isValue_of_assignedValue? here
        · cases here
      · exact induction later

theorem isValue_getD {found : Option (List Char)} {usual : String} (fallback : IsValue usual)
    (values : ∀ value, found = some value → IsValue (String.ofList value)) :
    IsValue ((found.map String.ofList).getD usual) := by
  cases found with
  | none => exact fallback
  | some value => exact values value rfl

theorem isValue_default : IsValue defaultVersion ∧ IsValue defaultEncoding :=
  ⟨⟨by decide, by decide⟩, ⟨by decide, by decide⟩⟩

theorem isValue_version (content : String) : IsValue (Declaration.version content) :=
  isValue_getD isValue_default.1 fun _ => isValue_of_valueOf?

theorem isValue_encoding (content : String) : IsValue (Declaration.encoding content) :=
  isValue_getD isValue_default.2 fun _ => isValue_of_valueOf?

/-! ## Derived declarations -/

/-- Tell whether a version ends like the assignment of an encoding. -/
def feignsEncoding (version : String) : Bool :=
  endsInAssignment "encoding".toList version.toList

/-- The encoding that a derived declaration notes behind a version that feigns one. -/
def feignedEncoding : String := " encoding="

theorem toList_content (version encoding : String) :
    (content version encoding).toList = "version=".toList ++ '\x22' :: (version.toList ++
      '\x22' :: (" encoding=".toList ++ '\x22' :: (encoding.toList ++ ['\x22']))) := by
  simp only [content, String.toList_append, List.append_assoc]
  rfl

theorem IsValue.toList_ne_nil {text : String} (value : IsValue text) : text.toList ≠ [] := by
  rw [ne_eq, String.toList_eq_nil_iff]
  exact value.nonempty

/-- A derived declaration notes the version that it is derived from. -/
theorem version_content {version : String} (encoding : String) (value : IsValue version) :
    Declaration.version (content version encoding) = version := by
  have found : valueOf? "version".toList (content version encoding).toList =
      some version.toList := by
    rw [toList_content]
    apply valueOf?_of_isPrefixOf rfl
    exact assignedValue?_quoted value.unquoted value.toList_ne_nil _
  rw [Declaration.version, found]
  exact String.ofList_toList

/-- A derived declaration notes the encoding that it is derived from, unless its version feigns
another one. -/
theorem encoding_content {version encoding : String} (former : IsValue version)
    (latter : IsValue encoding) :
    Declaration.encoding (content version encoding) =
      if feignsEncoding version then feignedEncoding else encoding := by
  have found : valueOf? "encoding".toList (content version encoding).toList =
      some (if feignsEncoding version then feignedEncoding else encoding).toList := by
    rw [toList_content, valueOf?_append (by decide) (by decide)
      (quotedValue?_quoted former.unquoted former.toList_ne_nil _), if_neg (by decide)]
    change valueOf? "encoding".toList (version.toList ++ _) = _
    have unquoted : Unquoted " encoding=".toList := by decide
    have feigned := quotedValue?_quoted unquoted (by decide)
      (encoding.toList ++ ['\x22'])
    rw [valueOf?_append (by decide) former.unquoted feigned, feignsEncoding]
    split
    · rfl
    · change valueOf? "encoding".toList ("encoding".toList ++ '=' :: '\x22' ::
        (encoding.toList ++ ['\x22'])) = _
      apply valueOf?_of_isPrefixOf rfl
      exact assignedValue?_quoted latter.unquoted latter.toList_ne_nil _
  rw [Declaration.encoding, found]
  exact String.ofList_toList

end Declaration

end XmlGrove
