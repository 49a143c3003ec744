import XmlGrove.Proofs.Elements.Recursion
import XmlGrove.Proofs.Failure.Shown
import XmlGrove.Proofs.Options.Straddling
import XmlGrove.Proofs.RoundTrip.Parsed

/-!
# Element trees as texts

An element tree can be written as XML text: names, contents and texts in order, where each
character that has a reference is replaced by it. The text is one of the grammar, so that parsing
it yields what its pieces denote.
-/

namespace XmlGrove

/-! ## Escaping -/

namespace Entity

/-- A character by the reference that stands for it, if there is one. -/
def escapeCharacter (character : Char) : List Char :=
  match predefined.find? fun (_, meaning) => meaning == character with
  | some (name, _) => '&' :: name
  | none => [character]

/-- A text with a reference for each character that has one. -/
def escape (text : List Char) : List Char := text.flatMap escapeCharacter

example : escape "a<b & \x22c\x22".toList = "a&lt;b &amp; &quot;c&quot;".toList := by decide

theorem escapeCharacter_cases (character : Char) :
    (∃ name, (name, character) ∈ predefined ∧ escapeCharacter character = '&' :: name) ∨
      (∀ name, (name, character) ∉ predefined) ∧ escapeCharacter character = [character] := by
  rw [escapeCharacter]
  cases found : predefined.find? fun (_, meaning) => meaning == character with
  | some entry =>
      have meaning : entry.2 = character := by simpa using List.find?_some found
      exact .inl ⟨entry.1, meaning ▸ List.mem_of_find?_eq_some found, rfl⟩
  | none =>
      refine .inr ⟨fun name known => ?_, rfl⟩
      have other := List.find?_eq_none.1 found _ known
      simp at other

theorem escape_append (former latter : List Char) :
    escape (former ++ latter) = escape former ++ escape latter :=
  List.flatMap_append

/-- An escaped text is read as that text, whatever follows it. -/
theorem decode_escape_append (text rest : List Char) :
    decode (escape text ++ rest) = text ++ decode rest := by
  induction text with
  | nil => rfl
  | cons character text induction =>
      rw [escape, List.flatMap_cons, List.append_assoc, ← escape, List.cons_append, ← induction]
      rcases escapeCharacter_cases character with ⟨name, known, written⟩ | ⟨unknown, written⟩
      · rw [written, List.cons_append]
        exact decode_ampersand_of_some
          (reference?_eq_some_iff.2 ⟨known, List.prefix_append name _⟩)
      · have different : character ≠ '&' := by
          rintro rfl
          exact unknown "amp;".toList (by decide)
        rw [written, List.singleton_append]
        exact decode_cons _ different

@[simp] theorem decode_escape (text : List Char) : decode (escape text) = text := by
  have decoded := decode_escape_append text []
  rw [List.append_nil] at decoded
  rw [decoded]
  exact List.append_nil text

/-- Of the characters that have a reference only what begins these is in an escaped text. -/
theorem not_mem_escape {name : List Char} {character : Char}
    (known : (name, character) ∈ predefined) (different : character ≠ '&') (text : List Char) :
    character ∉ escape text := by
  have apart : ∀ entry ∈ predefined, ∀ other ∈ predefined, entry.2 ∉ other.1 := by decide
  intro member
  rcases List.mem_flatMap.1 member with ⟨written, _, inside⟩
  rcases escapeCharacter_cases written with ⟨other, otherKnown, equal⟩ | ⟨unknown, equal⟩
  · rw [equal, List.mem_cons] at inside
    exact inside.elim different (apart _ known _ otherKnown)
  · rw [equal, List.mem_singleton] at inside
    exact unknown name (inside ▸ known)

end Entity

namespace Loading

open Grammar Text

variable {namer : Namer} {options : ParserOptions}

/-! ## Plain element trees -/

/-- A node of an element tree without namespaces and references to entities. The content of a
comment or an instruction is one that its markup can hold. -/
inductive PlainItem where
  | element (name : Name) (attributes : List (Name × String)) (text : Option String)
      (children : List PlainItem) (tail : Option String)
      (unprefixed : ∀ own ∈ name :: attributes.map Prod.fst, ':' ∉ own.text.toList)
  | comment (content : String) (tail : Option String)
      (writable : (Leaf.comment content).isWritable = true)
  | instruction (target : Name) (content : String) (tail : Option String)
      (writable : (Leaf.instruction target content).isWritable = true)
      (solid : StartsSolid content.toList)

namespace PlainItem

def tail : PlainItem → Option String
  | element _ _ _ _ tail _ | comment _ tail _ | instruction _ _ tail _ _ => tail

mutual

/-- The node as one of any element tree. -/
def toItem : PlainItem → Item
  | element name attributes text children tail _ =>
    .element name.text (attributes.map fun (name, value) => (name.text, value)) text
      (allItems children) tail
  | comment content tail _ => .comment content tail
  | instruction target content tail _ _ => .instruction target.text content tail

def allItems : List PlainItem → List Item
  | [] => []
  | first :: rest => first.toItem :: allItems rest

end

@[simp] theorem tail_toItem (item : PlainItem) : item.toItem.tail = item.tail := by
  cases item <;> rw [toItem] <;> rfl

end PlainItem

/-! ## Texts -/

def escapedText (text : Option String) : List Char :=
  text.elim [] fun content => Entity.escape content.toList

/-- An attribute as an entry with its value as it is written. -/
def escapedEntry (entry : Name × String) : Name × List Char :=
  (entry.1, Entity.escape entry.2.toList)

namespace PlainItem

mutual

/-- The XML text of a node without the text that follows it. -/
def markup : PlainItem → List Char
  | element name attributes text children _ _ =>
    let head := '<' :: (name.text.toList ++ (attributes.map escapedEntry).flatMap entryMarkup)
    match text, children with
    | none, [] => head ++ "/>".toList
    | _, _ =>
      head ++ ">".toList ++ (escapedText text ++ allMarkup children ++
        ("</".toList ++ (name.text.toList ++ ['>'])))
  | comment content _ _ => "<!--".toList ++ (content.toList ++ "-->".toList)
  | instruction target content _ _ _ =>
    let gap := if content = "" then [] else [' ']
    "<?".toList ++ (target.text.toList ++ (gap ++ (content.toList ++ "?>".toList)))

/-- The XML text of several nodes, each of them in front of the text that follows it. -/
def allMarkup : List PlainItem → List Char
  | [] => []
  | first :: rest => first.markup ++ (escapedText first.tail ++ allMarkup rest)

end

end PlainItem

/-! ## Pieces -/

def textPieces (text : Option String) : List Piece :=
  text.toList.map fun content => .text (Entity.escape content.toList)

namespace PlainItem

mutual

/-- The piece that a node is written as. -/
def toPiece : PlainItem → Piece
  | element name attributes text children _ _ =>
    .element name (attributes.map escapedEntry) (textPieces text ++ allPieces children)
  | comment content _ _ => .comment content.toList
  | instruction target content _ _ _ => .instruction target content.toList

def allPieces : List PlainItem → List Piece
  | [] => []
  | first :: rest => first.toPiece :: (textPieces first.tail ++ allPieces rest)

end

end PlainItem

theorem attributesOf_escapedEntry (attributes : List (Name × String)) :
    attributesOf (attributes.map escapedEntry) = .ofList attributes := by
  have decoded : (attributes.map escapedEntry).map decodedEntry = attributes := by
    rw [List.map_map]
    apply List.map_id''
    intro entry
    simp [escapedEntry, decodedEntry]
  rw [attributesOf, decoded]

theorem content_textPieces (text : Option String) {rest : List Char} {pieces : List Piece}
    (content : Content rest pieces) :
    Content (escapedText text ++ rest) (textPieces text ++ pieces) := by
  cases text with
  | none => exact content
  | some fragment =>
      have known : ("lt;".toList, '<') ∈ Entity.predefined := by decide
      exact .cons (.text (Entity.not_mem_escape known (by decide) _)) content

theorem tagHead_of_attributes (name : Name) (attributes : List (Name × String)) :
    TagHead ('<' :: (name.text.toList ++ (attributes.map escapedEntry).flatMap entryMarkup)) name
      (attributes.map escapedEntry) := by
  apply tagHead_of_entries
  rw [List.forall_mem_map]
  intro entry _
  have known : ("quot;".toList, '\x22') ∈ Entity.predefined := by decide
  exact Entity.not_mem_escape known (by decide) _

namespace PlainItem

theorem comment_of_isWritable {content : String}
    (writable : (Leaf.comment content).isWritable = true) :
    Comment ("<!--".toList ++ (content.toList ++ "-->".toList)) content.toList := by
  have elsewhere := (Leaf.comment content).not_infix_content_of_isWritable rfl writable
  have ends : EndsFirst "-->".toList content.toList :=
    endsFirst_of_not_infix "--".toList (by decide) elsewhere
  exact .intro _ ends

theorem instruction_of_isWritable {target : Name} {content : String}
    (writable : (Leaf.instruction target content).isWritable = true)
    (solid : StartsSolid content.toList) :
    Instruction ("<?".toList ++ (target.text.toList ++
      ((if content = "" then [] else [' ']) ++ (content.toList ++ "?>".toList))))
      target content.toList := by
  have elsewhere := (Leaf.instruction target content).not_infix_content_of_isWritable rfl writable
  have ends : EndsFirst "?>".toList content.toList :=
    endsFirst_of_not_infix "?".toList (by decide) elsewhere
  by_cases empty : content = ""
  · rw [if_pos empty]
    refine .intro target [] _ blanks_nil solid ?_ ends
    rw [empty]
    exact startsOutside_nil _
  · rw [if_neg empty]
    exact .intro target [' '] _ (blanks_nil.cons (by decide)) solid
      (startsOutside_cons_iff.2 (by decide)) ends

mutual

theorem fragment_markup : (item : PlainItem) → Fragment item.markup item.toPiece
  | comment content tail writable => by
      rw [markup, toPiece]
      exact .comment (comment_of_isWritable writable)
  | instruction target content tail writable solid => by
      rw [markup, toPiece]
      exact .instruction (instruction_of_isWritable writable solid)
  | element name attributes none [] tail _ => by
      rw [markup, toPiece, allPieces]
      exact .empty (tagHead_of_attributes name attributes)
  | element name attributes (some text) children tail _ => by
      rw [markup, toPiece]
      · exact .paired (tagHead_of_attributes name attributes)
          (content_textPieces (some text) (content_allMarkup children)) (.intro name [] blanks_nil)
      · nofun
  | element name attributes none (first :: rest) tail _ => by
      rw [markup, toPiece]
      · exact .paired (tagHead_of_attributes name attributes)
          (content_textPieces none (content_allMarkup (first :: rest)))
          (.intro name [] blanks_nil)
      · nofun

theorem content_allMarkup : (items : List PlainItem) → Content (allMarkup items) (allPieces items)
  | [] => .nil
  | first :: rest => by
      rw [allMarkup, allPieces]
      exact .cons (fragment_markup first)
        (content_textPieces first.tail (content_allMarkup rest))

end

/-- The XML text of an element is parsed as what its pieces denote. -/
theorem parse_markup (options : ParserOptions) (name : Name) (attributes : List (Name × String))
    (text : Option String) (children : List PlainItem) (tail : Option String)
    (unprefixed : ∀ own ∈ name :: attributes.map Prod.fst, ':' ∉ own.text.toList) :
    (Input.text
        (String.ofList (element name attributes text children tail unprefixed).markup)).parse
        options =
      .ok ({ prologue := [],
             root := .tag name (.ofList attributes)
               (nodesOf options [] (textPieces text ++ allPieces children)) }, none) := by
  have fragment := fragment_markup (element name attributes text children tail unprefixed)
  rw [toPiece] at fragment
  have derived := Document.intro blanks_nil .nil fragment blanks_nil
  rw [List.nil_append, List.nil_append, List.append_nil, ← String.toList_ofList (l := markup _)]
    at derived
  rw [Parse.parse_of_derivable options derived, attributesOf_escapedEntry]

end PlainItem

/-! ## Conversion -/

namespace PlainItem

mutual

/-- The tree that a node is converted to, unless its kind is removed. -/
def converted? (options : ParserOptions) : PlainItem → Option Tree
  | element name attributes text children _ _ =>
    some (.tag name (.ofList attributes) (keptNodes options text ++ allConverted options children))
  | comment content _ _ =>
    if options.removeComments then none else some (.leaf (.comment content))
  | instruction target content _ _ _ =>
    if options.removeInstructions then none else some (.leaf (.instruction target content))

/-- The trees that several nodes and the texts behind them are converted to. -/
def allConverted (options : ParserOptions) : List PlainItem → List Tree
  | [] => []
  | first :: rest =>
    (first.converted? options).toList ++ (keptNodes options first.tail ++ allConverted options rest)

end

theorem localAttributes_name : (attributes : List (Name × String)) →
    (∀ own ∈ attributes.map Prod.fst, ':' ∉ own.text.toList) →
      namer.localAttributes (attributes.map fun (name, value) => (name.text, value)) =
        .ok (attributes.map fun (name, value) => (.text name.text, some value))
  | [], _ => rfl
  | (name, value) :: rest, unprefixed => by
      rw [List.map_cons, List.forall_mem_cons] at unprefixed
      rw [List.map_cons, Namer.localAttributes, namer.localName_text name unprefixed.1,
        localAttributes_name rest unprefixed.2]
      rfl

theorem tagOf?_name (name : Name) (attributes : List (Name × String))
    (unprefixed : ∀ own ∈ name :: attributes.map Prod.fst, ':' ∉ own.text.toList) :
    tagOf? namer name.text (attributes.map fun (name, value) => (name.text, value)) =
      some (name, .ofList attributes) := by
  rw [List.forall_mem_cons] at unprefixed
  have named : checkedTagName (.text name.text) = .ok name := by
    rw [checkedTagName, GivenName.check, Name.ofString?_text]
  rw [tagOf?, namer.localName_text name unprefixed.1, localAttributes_name attributes unprefixed.2]
  simp only [Except.toOption, Option.bind_some, named, Parse.checkedAttributes_text]
  rfl

mutual

/-- Nothing in a plain element tree is refused. -/
theorem tree?_toItem : (item : PlainItem) →
    item.toItem.tree? namer options = some (item.converted? options)
  | element name attributes text children tail unprefixed => by
      rw [toItem, Item.tree?, tagOf?_name name attributes unprefixed, Option.bind_some,
        allTrees?_allItems children, converted?]
      rfl
  | comment content tail writable => by
      rw [toItem, Item.tree?, Item.leaf?, Leaf.checked_eq_ok_iff.2 ⟨rfl, writable⟩, converted?]
      · split <;> rfl
      · nofun
  | instruction target content tail writable solid => by
      have named : checkedTarget target.text = .ok target := by
        rw [checkedTarget, Name.ofString?_text]
      rw [toItem, Item.tree?, Item.leaf?, named, converted?]
      · split
        · rfl
        · change ((Leaf.instruction target content).checked.toOption.map some).map _ = _
          rw [Leaf.checked_eq_ok_iff.2 ⟨rfl, writable⟩]
          rfl
      · nofun

theorem allTrees?_allItems : (items : List PlainItem) →
    Item.allTrees? namer options (allItems items) = some (allConverted options items)
  | [] => rfl
  | first :: rest => by
      rw [allItems, Item.allTrees?, tree?_toItem first, Option.bind_some, allTrees?_allItems rest,
        tail_toItem, allConverted]
      rfl

end

end PlainItem

end Loading

end XmlGrove
