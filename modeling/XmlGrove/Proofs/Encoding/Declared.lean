import Mathlib.Data.Bool.AllAny
import Mathlib.Data.List.TakeWhile
import XmlGrove.Proofs.Document.Declaration
import XmlGrove.Proofs.Encoding.Marks
import XmlGrove.Proofs.RoundTrip.Parsed

/-!
# Encodings that are declared in data

The encoding that data declares is looked for in the bytes, and in the text that they stand for it
is noted by the declaration. Both searches find the same encoding.
-/

namespace XmlGrove

open Grammar Encoding

/-! ## Characters -/

/-- An ASCII character other than the information separators, which are blank in texts but not in
data. -/
def IsPlain (character : Char) : Prop :=
  character.toNat < 0x80 ∧ ¬ (0x1C ≤ character.toNat ∧ character.toNat ≤ 0x1F)

instance (character : Char) : Decidable (IsPlain character) := inferInstanceAs (Decidable (_ ∧ _))

theorem isBlankInData_of_isPlain {character : Char} (plain : IsPlain character) :
    isBlankInData character = Text.isBlank character := by
  have space : character = ' ' ↔ character.toNat = 0x20 := by
    rw [← Char.toNat_inj]
    rfl
  rcases plain with ⟨ascii, other⟩
  rw [Bool.eq_iff_iff]
  simp [isBlankInData, Text.isBlank, Text.blankRanges, space]
  omega

theorem dropWhile_isBlankInData {text : List Char} (plain : ∀ character ∈ text, IsPlain character)
    (rest : List Char) :
    (text ++ '?' :: rest).dropWhile isBlankInData = Text.trimStart text ++ '?' :: rest := by
  induction text with
  | nil => rfl
  | cons first text induction =>
      rw [List.forall_mem_cons] at plain
      rw [List.cons_append, Text.trimStart, List.dropWhile_cons, List.dropWhile_cons,
        isBlankInData_of_isPlain plain.1]
      split
      · exact induction plain.2
      · rfl

theorem isQuote_of_isEncodingCharacter {character : Char}
    (named : isEncodingCharacter character = true) : Declaration.isQuote character = false := by
  rw [Bool.eq_false_iff, ne_eq, Declaration.isQuote, Bool.or_eq_true, beq_iff_eq, beq_iff_eq]
  rintro (rfl | rfl)
  · cases named
  · cases named

/-! ## Assignments -/

theorem closesDeclaration_append {text : List Char} (inside : '>' ∉ text) (rest : List Char) :
    closesDeclaration (text ++ '?' :: '>' :: rest) = true := by
  have bounded : (text ++ '?' :: '>' :: rest).takeWhile (· != '>') = text ++ ['?'] := by
    rw [List.append_cons, List.takeWhile_append_of_pos]
    · simp
    · intro character member
      rw [bne_iff_ne]
      rintro rfl
      simp [inside] at member
  simp [closesDeclaration, bounded]

/-- The value in quotes that data starts with, if it is the name of an encoding. -/
def quotedName? (data : List Char) : Option (List Char) :=
  match data with
  | [] => none
  | opening :: part =>
    let name := part.takeWhile isEncodingCharacter
    match part.dropWhile isEncodingCharacter with
    | [] => none
    | closing :: after =>
      if isQuoteInData opening && !name.isEmpty && isQuoteInData closing &&
        closesDeclaration after then some name
      else none

theorem assignedEncoding?_of_equals {data rest : List Char}
    (sign : data.dropWhile isBlankInData = '=' :: rest) :
    assignedEncoding? data = quotedName? (rest.dropWhile isBlankInData) := by
  rw [assignedEncoding?, sign]
  rfl

theorem assignedEncoding?_of_other {data rest : List Char} {other : Char}
    (sign : data.dropWhile isBlankInData = other :: rest) (different : other ≠ '=') :
    assignedEncoding? data = none := by
  rw [assignedEncoding?, sign]
  split
  · rename_i equal
    cases equal
    exact absurd rfl different
  · rfl

/-- The value that a quote opens, if there is a quote behind it. -/
def closedValue? (opening : Char) (part : List Char) : Option (List Char) :=
  let value := part.takeWhile (!Declaration.isQuote ·)
  if Declaration.isQuote opening && !value.isEmpty && value.length < part.length then some value
  else none

/-- The name of an encoding ends where the value ends if that is such a name, and else in front of
another character than a quote. -/
theorem quotedName?_cons {part : List Char} (inside : '>' ∉ part) (opening : Char)
    (rest : List Char) :
    quotedName? (opening :: (part ++ '?' :: '>' :: rest)) =
      (closedValue? opening part).filter (·.all isEncodingCharacter) := by
  obtain ⟨name, after, rfl, named, ends⟩ : ∃ name after, part = name ++ after ∧
      (∀ character ∈ name, isEncodingCharacter character = true) ∧
      StartsOutside isEncodingCharacter after := by
    refine ⟨part.takeWhile isEncodingCharacter, _, List.takeWhile_append_dropWhile.symm, ?_,
      startsOutside_dropWhile _ part⟩
    exact fun character => List.all_eq_true.1 List.all_takeWhile character
  have unquoted : ∀ character ∈ name, (!Declaration.isQuote character) = true := by
    intro character member
    rw [isQuote_of_isEncodingCharacter (named character member)]
    rfl
  rw [quotedName?, closedValue?, List.append_assoc, List.takeWhile_append_of_pos named,
    List.takeWhile_append_of_pos unquoted, List.dropWhile_append_of_pos named]
  cases after with
  | nil => simp [isQuoteInData, isEncodingCharacter]
  | cons closing after =>
      have other := startsOutside_cons_iff.1 ends
      have within : '>' ∉ after := fun member =>
        inside (List.mem_append_right name (List.mem_cons_of_mem closing member))
      have closes := closesDeclaration_append within rest
      have quote : isQuoteInData = Declaration.isQuote := rfl
      by_cases quoted : Declaration.isQuote closing = true
      · -- The name is the value, and all of its characters fit.
        simp [other, quote, quoted, closes]
        split
        · simpa [Option.filter] using named
        · rfl
      · -- The character behind the name belongs to the value, which doesn't fit then.
        simp [other, quote, quoted, closes]
        split
        · simp [Option.filter, other]
        · rfl

theorem quotedName?_append {text : List Char} (inside : '>' ∉ text) (rest : List Char) :
    quotedName? (Text.trimStart text ++ '?' :: '>' :: rest) =
      (Declaration.quotedValue? text).filter (·.all isEncodingCharacter) := by
  rw [Declaration.quotedValue?]
  cases trimmed : Text.trimStart text with
  | nil => rfl
  | cons opening part =>
      have within : '>' ∉ part := by
        intro member
        apply inside
        apply List.dropWhile_subset Text.isBlank
        rw [← Text.trimStart, trimmed]
        exact List.mem_cons_of_mem opening member
      exact quotedName?_cons within opening rest

/-- An encoding is assigned in data that a declaration ends in exactly if it is assigned in the
content of that, and its name is one that data can give. -/
theorem assignedEncoding?_append {text : List Char}
    (plain : ∀ character ∈ text, IsPlain character) (inside : '>' ∉ text) (rest : List Char) :
    assignedEncoding? (text ++ '?' :: '>' :: rest) =
      (Declaration.assignedValue? text).filter (·.all isEncodingCharacter) := by
  have skipped := dropWhile_isBlankInData plain ('>' :: rest)
  cases trimmed : Text.trimStart text with
  | nil =>
      rw [trimmed] at skipped
      rw [assignedEncoding?_of_other skipped (by decide), Declaration.assignedValue?, trimmed]
      rfl
  | cons sign others =>
      have among : ∀ character ∈ others, character ∈ text := by
        intro character member
        apply List.dropWhile_subset Text.isBlank
        rw [← Text.trimStart, trimmed]
        exact List.mem_cons_of_mem sign member
      rw [trimmed, List.cons_append] at skipped
      by_cases equal : sign = '='
      · rw [equal] at skipped trimmed
        rw [assignedEncoding?_of_equals skipped, Declaration.assignedValue?_of_equals trimmed,
          dropWhile_isBlankInData fun character member => plain character (among character member)]
        exact quotedName?_append (fun member => inside (among '>' member)) rest
      · rw [assignedEncoding?_of_other skipped equal,
          Declaration.assignedValue?_of_other trimmed equal]
        rfl

/-! ## Searches -/

theorem assignedEncoding?_drop_append {text name : List Char}
    (plain : ∀ character ∈ text, IsPlain character) (inside : '>' ∉ text)
    (starts : name.isPrefixOf text = true) (rest : List Char) :
    assignedEncoding? ((text ++ '?' :: '>' :: rest).drop name.length) =
      (Declaration.assignedValue? (text.drop name.length)).filter
        (·.all isEncodingCharacter) := by
  have long := (List.isPrefixOf_iff_prefix.1 starts).length_le
  rw [List.drop_append_of_le_length long]
  exact assignedEncoding?_append
    (fun character member => plain character (List.mem_of_mem_drop member))
    (fun member => inside (List.mem_of_mem_drop member)) rest

/-- The search in data finds what the search in the content finds if that is the name of an
encoding. Where the latter finds nothing at a place, neither does the former. -/
theorem firstAssignedEncoding?_append {content : List Char}
    (plain : ∀ character ∈ content, IsPlain character) (inside : '>' ∉ content)
    (fits : ∀ name ∈ Declaration.valueOf? "encoding".toList content,
      name.all isEncodingCharacter = true) (rest : List Char) :
    firstAssignedEncoding? (content ++ '?' :: '>' :: rest) =
      Declaration.valueOf? "encoding".toList content := by
  induction content with
  | nil => rfl
  | cons character content induction =>
      have starts : "encoding".toList.isPrefixOf (character :: content ++ '?' :: '>' :: rest) =
          "encoding".toList.isPrefixOf (character :: content) :=
        Declaration.isPrefixOf_append_cons (by decide)
      have apart : '>' ≠ character ∧ '>' ∉ content := not_or.1 (mt List.mem_cons.2 inside)
      have others := induction (fun other member => plain other (List.mem_cons_of_mem _ member))
        apart.2
      have here (name : List Char) (named : name.isPrefixOf (character :: content) = true) :=
        assignedEncoding?_drop_append plain inside named rest
      rw [Declaration.valueOf?] at fits ⊢
      simp only [List.cons_append] at starts here ⊢
      rw [firstAssignedEncoding?, starts]
      by_cases named : "encoding".toList.isPrefixOf (character :: content) = true
      · simp only [if_pos named] at fits ⊢
        rw [← String.length_toList, here _ named]
        cases assigned : Declaration.assignedValue? ((character :: content).drop _) with
        | none =>
            rw [assigned] at fits
            simp only [Option.filter_none, if_neg apart.1.symm]
            exact others fits
        | some value =>
            rw [assigned] at fits
            have fit := fits value rfl
            simp only [Option.filter_some, if_pos fit]
            rfl
      · simp only [if_neg named] at fits ⊢
        rw [if_neg apart.1.symm]
        exact others fits

/-! ## Data -/

/-- Every byte order mark holds a byte that stands for no ASCII character. -/
theorem markedEncoding?_of_ascii {data : Bytes} (ascii : ∀ byte ∈ data, byte < 0x80) :
    markedEncoding? data = none := by
  have foreign : ∀ entry ∈ marks, ∃ byte ∈ entry.1, ¬ byte < 0x80 := by decide
  rw [markedEncoding?, Option.map_eq_none_iff, List.find?_eq_none]
  rintro ⟨mark, name⟩ listed starts
  rcases foreign _ listed with ⟨byte, member, other⟩
  exact other (ascii byte ((List.isPrefixOf_iff_prefix.1 starts).subset member))

theorem toNat_byte_of_isPlain {character : Char} (plain : IsPlain character) :
    (byte character.toNat).toNat = character.toNat :=
  toNat_byte (by have ascii := plain.1; omega)

theorem detect_of_plain {text : List Char} (plain : ∀ character ∈ text, IsPlain character) :
    detect (text.map fun character => byte character.toNat) =
      (declaredEncoding? (text.take declarationLimit)).map String.ofList := by
  have unmarked : markedEncoding? (text.map fun character => byte character.toNat) = none := by
    apply markedEncoding?_of_ascii
    intro data member
    rcases List.mem_map.1 member with ⟨character, listed, rfl⟩
    rw [UInt8.lt_iff_toNat_lt, toNat_byte_of_isPlain (plain character listed)]
    exact (plain character listed).1
  have decoded : ((text.map fun character => byte character.toNat).take declarationLimit).map
      (fun next => Char.ofNat next.toNat) = text.take declarationLimit := by
    rw [← List.map_take, List.map_map]
    refine (List.map_congr_left fun character member => ?_).trans (List.map_id _)
    change Char.ofNat (byte character.toNat).toNat = character
    rw [toNat_byte_of_isPlain (plain character (List.mem_of_mem_take member)), Char.ofNat_toNat]
  rw [detect, unmarked]
  dsimp only
  rw [decoded]

/-! ## Declarations -/

/-- Blanks in front of a content assign nothing. -/
theorem Declaration.valueOf?_append_of_blanks {name gap : List Char} (named : name ≠ [])
    (solid : StartsSolid name) (blank : Blanks gap) (content : List Char) :
    valueOf? name (gap ++ content) = valueOf? name content := by
  induction gap with
  | nil => rfl
  | cons first gap induction =>
      have elsewhere : name.isPrefixOf (first :: (gap ++ content)) = false := by
        cases name with
        | nil => exact absurd rfl named
        | cons initial name =>
            have different : initial ≠ first := by
              rintro rfl
              have solidFirst := startsOutside_cons_iff.1 solid
              rw [blank initial List.mem_cons_self] at solidFirst
              cases solidFirst
            simp [List.isPrefixOf, different]
      rw [List.cons_append, valueOf?, elsewhere]
      exact induction fun character member => blank character (List.mem_cons_of_mem first member)

/-- A text of ASCII characters that starts with a declaration, which data of that text holds within
the limit. -/
structure DeclaredText where
  before : List Char
  gap : List Char
  content : List Char
  after : List Char
  blank_before : Blanks before
  blank_gap : Blanks gap
  gap_ne_nil : gap ≠ []
  inside : '>' ∉ content
  plain : ∀ character ∈ before ++ (gap ++ (content ++ after)), IsPlain character
  limited : before.length + ("<?xml".length + (gap.length + (content.length + "?>".length))) ≤
    declarationLimit

namespace DeclaredText

def characters (text : DeclaredText) : List Char :=
  text.before ++ ("<?xml".toList ++ (text.gap ++ (text.content ++ ("?>".toList ++ text.after))))

def data (text : DeclaredText) : Bytes :=
  text.characters.map fun character => byte character.toNat

/-- The content of the declaration, which blanks in front do not belong to. -/
def declaration (text : DeclaredText) : String :=
  String.ofList (Text.trimStart text.content)

theorem plain_characters (text : DeclaredText) :
    ∀ character ∈ text.characters, IsPlain character := by
  have opening : ∀ character ∈ "<?xml".toList, IsPlain character :=
    List.all_iff_forall_prop.1 (by decide)
  have closing : ∀ character ∈ "?>".toList, IsPlain character :=
    List.all_iff_forall_prop.1 (by decide)
  have others := text.plain
  simp only [List.forall_mem_append] at others
  simp only [characters, List.forall_mem_append]
  exact ⟨others.1, opening, others.2.1, others.2.2.1, closing, others.2.2.2⟩

/-- The content without the blanks in front, and those. -/
theorem exists_split (text : DeclaredText) :
    ∃ gap body, Blanks (text.gap ++ gap) ∧ StartsSolid body ∧ text.content = gap ++ body ∧
      text.declaration = String.ofList body := by
  refine ⟨text.content.takeWhile Text.isBlank, Text.trimStart text.content, ?_,
    startsSolid_dropWhile _, List.takeWhile_append_dropWhile.symm, rfl⟩
  intro character member
  rcases List.mem_append.1 member with first | second
  · exact text.blank_gap character first
  · exact blanks_takeWhile text.content character second

/-- The declaration is read as such. -/
theorem readOpening_eq (text : DeclaredText) :
    ∃ next, Parse.readOpening (Cursor.start text.characters).skipBlanks =
      .ok (.declaration text.declaration, next) := by
  rcases text.exists_split with ⟨gap, body, blank, solid, split, declared⟩
  have munched : EndsName ((text.gap ++ gap) ++ body) := by
    cases first : text.gap with
    | nil => exact absurd first text.gap_ne_nil
    | cons character others =>
        rw [first] at blank
        exact startsOutside_cons_iff.2 (isNameRest_of_isBlank (blank character List.mem_cons_self))
  have elsewhere : ¬ "?>".toList <:+: body := by
    intro within
    have member : '>' ∈ body := within.subset (by decide)
    exact text.inside (split ▸ List.mem_append_right gap member)
  have ends : EndsFirst "?>".toList body := endsFirst_of_not_infix ['?'] (by decide) elsewhere
  have written := Instruction.intro Name.xml (text.gap ++ gap) body blank solid munched ends
  generalize equal : "<?".toList ++ (Name.xml.text.toList ++ _) = instruction at written
  have whole : (Cursor.start text.characters).rest =
      text.before ++ (instruction ++ text.after) := by
    rw [← equal]
    simp [Cursor.start, characters, split, Name.xml]
  have entered := Cursor.consumes_skip whole
  have follows := List.append_cancel_left (entered.1.symm.trans whole)
  have consumed := Cursor.consumes_skip follows
  have solidRest : StartsSolid ((Cursor.start text.characters).skip text.before.length).rest := by
    rw [follows, ← equal]
    exact startsOutside_cons_iff.2 (by decide)
  have starts := Parse.startsWith_of_instruction written consumed
  have read := Parse.readInstruction_eq_ok_iff.2 ⟨_, body, written, rfl, consumed⟩
  rw [Parse.skipBlanks_eq_of_consumes text.blank_before solidRest entered, Parse.readOpening,
    if_pos starts, declared]
  exact ⟨_, Parse.bind_eq_ok_iff.2 ⟨_, read, rfl⟩⟩

theorem exists_take (text : DeclaredText) :
    ∃ rest, text.characters.take declarationLimit =
      text.before ++ ("<?xml".toList ++ (text.gap ++ (text.content ++ '?' :: '>' :: rest))) := by
  generalize front : text.before ++ ("<?xml".toList ++ (text.gap ++
    (text.content ++ "?>".toList))) = declared
  have whole : text.characters = declared ++ text.after := by
    simp [characters, ← front]
  have short : declared.length ≤ declarationLimit := by
    have limited := text.limited
    simp only [← front, List.length_append, String.length_toList]
    exact limited
  refine ⟨text.after.take (declarationLimit - declared.length), ?_⟩
  rw [whole, List.take_append, List.take_of_length_le short, ← front]
  simp

theorem valueOf?_append_content (text : DeclaredText) {blanks : List Char}
    (blank : Blanks blanks) :
    Declaration.valueOf? "encoding".toList (blanks ++ text.content) =
      Declaration.valueOf? "encoding".toList text.declaration.toList := by
  have skipped (gap : List Char) (blank : Blanks gap) (content : List Char) :
      Declaration.valueOf? "encoding".toList (gap ++ content) =
        Declaration.valueOf? "encoding".toList content :=
    Declaration.valueOf?_append_of_blanks (by decide) (startsOutside_cons_iff.2 (by decide)) blank
      content
  rcases text.exists_split with ⟨gap, body, blankGap, _, split, declared⟩
  have read : text.declaration.toList = body := declared ▸ String.toList_ofList
  have blankFront : Blanks gap := fun character member =>
    blankGap character (List.mem_append_right text.gap member)
  rw [skipped blanks blank, split, skipped gap blankFront, read]

/-- The search in data comes to the declaration, whose end is within the limit. -/
theorem declaredEncoding?_eq (text : DeclaredText)
    (fits : ∀ name ∈ Declaration.valueOf? "encoding".toList text.declaration.toList,
      name.all isEncodingCharacter = true) :
    declaredEncoding? (text.characters.take declarationLimit) =
      Declaration.valueOf? "encoding".toList text.declaration.toList := by
  have others := text.plain
  simp only [List.forall_mem_append] at others
  have blankInData : ∀ character, IsPlain character → Text.isBlank character = true →
      isBlankInData character = true := fun character plain blank =>
    (isBlankInData_of_isPlain plain).trans blank
  have started : ∀ character ∈ text.before, isBlankInData character = true :=
    fun character member =>
      blankInData character (others.1 character member) (text.blank_before character member)
  rcases text.exists_take with ⟨rest, taken⟩
  cases separated : text.gap with
  | nil => exact absurd separated text.gap_ne_nil
  | cons separator blanks =>
      have blank := text.blank_gap
      rw [separated] at taken blank others
      have separates := blankInData separator (others.2.1 separator List.mem_cons_self)
        (blank separator List.mem_cons_self)
      have blankRest : Blanks blanks := fun character member =>
        blank character (List.mem_cons_of_mem separator member)
      have found : firstAssignedEncoding? ((blanks ++ text.content) ++ '?' :: '>' :: rest) =
          Declaration.valueOf? "encoding".toList text.declaration.toList := by
        rw [← text.valueOf?_append_content blankRest] at fits ⊢
        apply firstAssignedEncoding?_append _ _ fits
        · rw [List.forall_mem_append]
          exact ⟨fun character member => others.2.1 character (List.mem_cons_of_mem _ member),
            others.2.2.1⟩
        · intro member
          rcases List.mem_append.1 member with first | second
          · cases blankRest '>' first
          · exact text.inside second
      have opening : ∀ others, "<?xml".toList.isPrefixOf ("<?xml".toList ++ others) = true :=
        fun others => List.isPrefixOf_iff_prefix.2 (List.prefix_append _ others)
      have solid : ∀ others, ("<?xml".toList ++ others).dropWhile isBlankInData =
          "<?xml".toList ++ others := fun others => rfl
      have behind : ∀ others, ("<?xml".toList ++ others).drop "<?xml".length = others :=
        fun others => rfl
      rw [taken, declaredEncoding?, List.dropWhile_append_of_pos started, solid]
      simp only [opening, if_true, behind, List.cons_append]
      rw [if_pos separates, ← List.append_assoc]
      exact found

end DeclaredText

/-! ## Agreement -/

/-- The encoding that data declares is the one that the parser finds in the declaration that it
reads from the same text, if that can be the name of an encoding in data. A document that is parsed
from the text notes it, or the default where none is declared. -/
theorem detect_declared (text : DeclaredText)
    (fits : ∀ name ∈ Declaration.valueOf? "encoding".toList text.declaration.toList,
      name.all isEncodingCharacter = true) :
    (∃ next, Parse.readOpening (Cursor.start text.characters).skipBlanks =
      .ok (.declaration text.declaration, next)) ∧
    detect text.data =
      (Declaration.valueOf? "encoding".toList text.declaration.toList).map String.ofList ∧
    ∀ (options : ParserOptions) (parsed : ParsedDocument) (note : Option String),
      (Input.text (String.ofList text.characters)).parse options = .ok (parsed, note) →
        parsed.encoding = (detect text.data).getD Declaration.defaultEncoding := by
  have detected : detect text.data =
      (Declaration.valueOf? "encoding".toList text.declaration.toList).map String.ofList := by
    rw [DeclaredText.data, detect_of_plain text.plain_characters, text.declaredEncoding?_eq fits]
  rcases text.readOpening_eq with ⟨next, opened⟩
  refine ⟨⟨next, opened⟩, detected, ?_⟩
  intro options parsed note succeeds
  have read := Parse.document_of_parse succeeds
  rw [String.toList_ofList, Parse.document, opened] at read
  rcases Parse.bind_eq_ok_iff.1 read with ⟨_, first, read⟩
  cases first
  rcases Parse.bind_eq_ok_iff.1 read with ⟨⟨leaves, led⟩, _, read⟩
  rcases Parse.bind_eq_ok_iff.1 read with ⟨_, _, read⟩
  rcases Parse.bind_eq_ok_iff.1 read with ⟨⟨root, closed⟩, _, read⟩
  rcases Parse.bind_eq_ok_iff.1 read with ⟨_, _, read⟩
  cases read
  rw [detected]
  rfl

/-- A declaration that assigns an encoding in vain, then one, then another one. -/
def repeatedDeclaration : DeclaredText where
  before := "\n".toList
  gap := " ".toList
  content := "encoding=1 myencoding = \x22latin-1\x27 encoding=\x22utf-8\x22".toList
  after := "<r/>".toList
  blank_before := List.all_eq_true.1 (by decide)
  blank_gap := List.all_eq_true.1 (by decide)
  gap_ne_nil := by decide
  inside := by decide
  plain := List.all_iff_forall_prop.1 (by decide)
  limited := by decide

theorem detect_declared_repeatedDeclaration :
    (∀ name ∈ Declaration.valueOf? "encoding".toList repeatedDeclaration.declaration.toList,
      name.all isEncodingCharacter = true) ∧
    detect repeatedDeclaration.data = some "latin-1" ∧
    ∀ (options : ParserOptions) (parsed : ParsedDocument) (note : Option String),
      (Input.text (String.ofList repeatedDeclaration.characters)).parse options =
        .ok (parsed, note) → parsed.encoding = "latin-1" := by
  have found : Declaration.valueOf? "encoding".toList repeatedDeclaration.declaration.toList =
      some "latin-1".toList := by decide +kernel
  have fits : ∀ name ∈ Declaration.valueOf? "encoding".toList
      repeatedDeclaration.declaration.toList, name.all isEncodingCharacter = true := by
    rw [found]
    rintro _ ⟨⟩
    decide
  rcases detect_declared repeatedDeclaration fits with ⟨_, detected, noted⟩
  rw [found] at detected
  refine ⟨fits, detected, ?_⟩
  intro options parsed note succeeds
  rw [noted options parsed note succeeds, detected]
  rfl

end XmlGrove
