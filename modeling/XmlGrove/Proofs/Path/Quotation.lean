import XmlGrove.Proofs.Path.Composition

/-!
# Quoted values in predicates

A value that a predicate compares with can be put in quotes. All of it is then taken literally,
whatever brackets, equals signs, quotes and blanks it contains, except for slashes, at which a path
is split up beforehand.
-/

namespace XmlGrove

open Grammar

namespace Text

theorem splitAtEach_of_not_mem {separator : Char} {text : List Char} (absent : separator ∉ text) :
    splitAtEach separator text = [text] := by
  have apart : ∀ piece ∈ [text], separator ∉ piece := by
    simpa using absent
  have pieces := List.splitOn_intercalate separator apart (by simp)
  rw [List.intercalate_singleton] at pieces
  rw [splitAtEach_eq_splitOn, pieces]

end Text

namespace Path

/-! ## Texts of paths -/

/-- The written test for children with a name, or for all of them. -/
def writtenTest : Option Name → String
  | none => "*"
  | some name => name.text

/-- A value between two quotes. -/
def enclose (quote : Char) (value : String) : String :=
  String.singleton quote ++ value ++ String.singleton quote

/-- A path to children whose attribute has a value. -/
def attributePath (test : Option Name) (name : Name) (quote : Char) (value : String) : String :=
  writtenTest test ++ "[@" ++ name.text ++ "=" ++ enclose quote value ++ "]"

/-- A path to children whose text content is a value. -/
def textPath (test : Option Name) (quote : Char) (value : String) : String :=
  writtenTest test ++ "[text()=" ++ enclose quote value ++ "]"

/-! ## Reading -/

def testOf : Option Name → ChildTest
  | none => .any
  | some name => .named name.text

theorem toList_enclose (quote : Char) (value : String) :
    (enclose quote value).toList = quote :: (value.toList ++ [quote]) := by
  simp [enclose, String.toList_append]

/-- The outer quotes are all that is taken off. -/
theorem stripQuotes_enclose {quote : Char} (quoting : quote = '\x22' ∨ quote = '\x27')
    (value : String) : stripQuotes (enclose quote value).toList = value.toList := by
  rw [toList_enclose, stripQuotes]
  simp [quoting]

theorem readTest_writtenTest (test : Option Name) :
    readTest (writtenTest test).toList = testOf test := by
  cases test with
  | none => rfl
  | some name => exact Turn.readTest_name ⟨name, 0⟩

theorem not_mem_writtenTest (test : Option Name) {character : Char}
    (other : isNameRest character = false) (different : character ≠ '*') :
    character ∉ (writtenTest test).toList := by
  cases test with
  | none => simpa [writtenTest] using different
  | some name => exact name.not_mem_of_not_isNameRest other

theorem startsSolid_writtenTest (test : Option Name) (rest : List Char) :
    StartsSolid ((writtenTest test).toList ++ rest) := by
  cases test with
  | none => exact startsOutside_cons_iff.2 (by decide)
  | some name => exact name.startsSolid rest

/-- A test with a predicate in brackets is a path of one step. -/
theorem read_bracketed (test : Option Name) {predicate : List Char} (unslashed : '/' ∉ predicate) :
    Expression.read ((writtenTest test).toList ++ '[' :: (predicate ++ [']'])) =
      ⟨false, [.filtered (testOf test) (readPredicate predicate)]⟩ := by
  have unopened := not_mem_writtenTest test (by decide : isNameRest '[' = false) (by decide)
  have slashless := not_mem_writtenTest test (by decide : isNameRest '/' = false) (by decide)
  generalize whole : (writtenTest test).toList ++ '[' :: (predicate ++ [']']) = text
  have absent : '/' ∉ text := by
    simp [← whole, slashless, unslashed]
  have trimmed : Text.trim text = text := by
    rw [← whole]
    apply Text.trim_of_solid (startsSolid_writtenTest test _)
    simp only [List.reverse_append, List.reverse_cons, List.reverse_nil, List.nil_append,
      List.cons_append, List.append_assoc]
    exact startsOutside_cons_iff.2 (by decide)
  have longer : text ≠ ['/'] := by
    intro equal
    simp [equal] at absent
  have relative : (text.head? == some '/') = false := by
    rw [beq_eq_false_iff_ne]
    intro starts
    exact absent (List.mem_of_head? starts)
  have filled : text.isEmpty = false := by
    simp [← whole]
  have step : readStep text = .filtered (testOf test) (readPredicate predicate) := by
    rw [← whole, ← readTest_writtenTest, readStep_bracketed unopened (by simp)]
  simp only [Expression.read, trimmed, if_neg longer, relative, Text.splitAtEach_of_not_mem absent]
  simp [filled, step]

theorem read_attributePath (test : Option Name) (name : Name) {quote : Char}
    (quoting : quote = '\x22' ∨ quote = '\x27') {value : String} (unslashed : '/' ∉ value.toList) :
    Expression.read (attributePath test name quote value).toList =
      ⟨false, [.filtered (testOf test) (.attributeEquals name.text value)]⟩ := by
  have named : name.text.toList ≠ [] := by
    rcases name.exists_first with ⟨first, others, characters, _⟩
    simp [characters]
  have unassigned := name.not_mem_of_not_isNameRest (by decide : isNameRest '=' = false)
  have slashless := name.not_mem_of_not_isNameRest (by decide : isNameRest '/' = false)
  have quoted : (enclose quote value).toList ≠ [] := by
    simp [toList_enclose]
  have read := readPredicate_of_documented (.attributeEquals named unassigned quoted)
  rw [stripQuotes_enclose quoting, String.ofList_toList, String.ofList_toList] at read
  rw [← read, ← read_bracketed]
  · simp [attributePath, String.toList_append]
  · rcases quoting with rfl | rfl <;> simp [toList_enclose, slashless, unslashed]

theorem read_textPath (test : Option Name) {quote : Char}
    (quoting : quote = '\x22' ∨ quote = '\x27') {value : String} (unslashed : '/' ∉ value.toList) :
    Expression.read (textPath test quote value).toList =
      ⟨false, [.filtered (testOf test) (.textEquals value)]⟩ := by
  have quoted : (enclose quote value).toList ≠ [] := by
    simp [toList_enclose]
  have read := readPredicate_of_documented (.textEquals quoted)
  rw [stripQuotes_enclose quoting, String.ofList_toList] at read
  rw [← read, ← read_bracketed]
  · simp [textPath, String.toList_append]
  · rcases quoting with rfl | rfl <;> simp [toList_enclose, unslashed]

end Path

/-! ## Selecting -/

namespace Grove

open XmlGrove.Path

/-- A tag node has a given name, or any. -/
def passes (grove : Grove) (test : Option Name) (id : NodeId) : Bool :=
  (grove.tag? id).any fun (present, _) => test.all fun name => present = name

theorem testedChildren_testOf (grove : Grove) (test : Option Name) (id : NodeId) :
    grove.testedChildren (testOf test) id = (grove.children id).filter (grove.passes test) := by
  cases test with
  | none =>
      apply List.filter_congr
      intro child _
      rw [passes, isTag]
      cases grove.tag? child <;> rfl
  | some name =>
      rw [testOf, testedChildren, childTags, List.filter_filter]
      apply List.filter_congr
      intro child _
      rw [passes, isTag, hasName]
      cases tag : grove.tag? child with
      | none => rfl
      | some label =>
          have same : label.1.text = name.text ↔ label.1 = name :=
            ⟨Name.ext, fun equal => congrArg Name.text equal⟩
          rw [Bool.eq_iff_iff]
          simp [same]

/-- What a predicate in quotes selects from a node's children has that value as its attribute or
its text, and nothing else is selected. The children are read for that, and to compare the texts
also those of each child that is compared. -/
theorem selects_quoted (test : Option Name) (name : Name) {quote : Char}
    (quoting : quote = '\x22' ∨ quote = '\x27') {value : String} (unslashed : '/' ∉ value.toList)
    (grove : Grove) (id : NodeId) :
    (grove.Selects id (attributePath test name quote value)
        ((grove.children id).filter fun child =>
          grove.passes test child && grove.attribute? child name.text == some value) ↔
      (grove.childList? id).isSome) ∧
    (grove.Selects id (textPath test quote value)
        ((grove.children id).filter fun child =>
          grove.passes test child && grove.textContent child == value) ↔
      (grove.childList? id).isSome ∧
        ∀ child ∈ grove.children id, grove.passes test child →
          (grove.childList? child).isSome) := by
  constructor
  · simp only [Selects, query, read_attributePath test name quoting unslashed]
    simp [origin, select, takeStep, selectBy, needsChildren, listedBy, testedChildren_testOf,
      List.filter_filter, Bool.and_comm]
  · have listed : ∀ child, (grove.childList? child = none → grove.passes test child = false) ↔
        (grove.passes test child → (grove.childList? child).isSome) := by
      intro child
      cases grove.childList? child <;> simp
    simp only [Selects, query, read_textPath test quoting unslashed]
    simp [origin, select, takeStep, selectBy, needsChildren, listedBy, testedChildren_testOf,
      List.filter_filter, Bool.and_comm, listed]

/-- A collection with a part whose identifier consists of characters that paths are made of. -/
def labelledGrove : Grove :=
  (Operation.plant (.tag ⟨"rack", by decide⟩ {} [
    .tag ⟨"part", by decide⟩ (.ofList [(⟨"id", by decide⟩, " ]=\x27[@\x22 ")]) [.text ""],
    .text "between",
    .tag ⟨"part", by decide⟩ {} []])).apply {}

theorem selects_quoted_labelledGrove :
    labelledGrove.Selects ⟨0⟩ "part[@id=\x22 ]=\x27[@\x22 \x22]" [⟨1⟩] ∧
      labelledGrove.Selects ⟨0⟩ "*[text()=\x27\x27]" [⟨1⟩, ⟨4⟩] := by
  have unslashed : '/' ∉ " ]=\x27[@\x22 ".toList := by decide
  have void : '/' ∉ "".toList := by decide
  constructor
  · exact (selects_quoted (some ⟨"part", by decide⟩) ⟨"id", by decide⟩ (.inl rfl) unslashed
      labelledGrove ⟨0⟩).1.2 (by decide)
  · exact (selects_quoted none ⟨"id", by decide⟩ (.inr rfl) void labelledGrove ⟨0⟩).2.2
      (by decide)

end Grove

end XmlGrove
