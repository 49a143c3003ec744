import XmlGrove.Proofs.Grammar.Productions
import XmlGrove.Proofs.RoundTrip.NormalForm

/-!
# Written trees are derivable

The text that a writable tree is written as in the canonical layout is one of the grammar. The
derivation follows the tree: each node is a piece, with the characters as they are written.
-/

namespace XmlGrove

open Grammar Text

/-! ## The written characters -/

/-- The characters that a writer without a choice of line endings makes of several writes. -/
def writtenCharacters (writes : List String) : List Char :=
  writes.flatMap fun write => normalizeLineEndings write.toList

theorem toList_render (layout : Layout) (tree : Tree) :
    (tree.render layout .unset).toList = writtenCharacters (tree.pieces layout) := by
  rw [Tree.render, String.toList_join, List.flatMap_map, writtenCharacters]
  simp only [Newline.inMemory, String.toList_ofList]

@[simp] theorem writtenCharacters_nil : writtenCharacters [] = [] := rfl

theorem writtenCharacters_cons (first : String) (rest : List String) :
    writtenCharacters (first :: rest) =
      normalizeLineEndings first.toList ++ writtenCharacters rest :=
  List.flatMap_cons

theorem writtenCharacters_singleton (write : String) :
    writtenCharacters [write] = normalizeLineEndings write.toList := by
  rw [writtenCharacters_cons, writtenCharacters_nil, List.append_nil]

theorem writtenCharacters_append (first second : List String) :
    writtenCharacters (first ++ second) = writtenCharacters first ++ writtenCharacters second :=
  List.flatMap_append

/-- Content between two literals is the only part of markup in which line endings occur. -/
theorem normalizeLineEndings_between {opening closing : List Char} (content : List Char)
    (noReturn : '\r' ∉ opening) (noFeed : closing.head? ≠ some '\n')
    (noReturnBehind : '\r' ∉ closing) :
    normalizeLineEndings (opening ++ (content ++ closing)) =
      opening ++ (normalizeLineEndings content ++ closing) := by
  rw [normalizeLineEndings_append_of_not_mem _ noReturn, normalizeLineEndings_append _ noFeed,
    normalizeLineEndings_of_not_mem noReturnBehind]

/-! ## Leaves -/

namespace Leaf

/-- The piece that a leaf is written as. -/
def toPiece : Leaf → Piece
  | text content => .text (normalizeLineEndings (Entity.encodeText content.toList))
  | comment content => .comment (' ' :: (normalizeLineEndings content.toList ++ [' ']))
  | cdata content => .cdata (normalizeLineEndings content.toList)
  | instruction target content =>
    .instruction target (trimStart (normalizeLineEndings content.toList))

/-- The terminator of a kind of leaf does not occur in the content of a writable one. -/
theorem not_infix_content_of_isWritable (leaf : Leaf) {ending : String} {fault : Fault}
    (terminated : terminator? leaf.kind = some (ending, fault))
    (writable : leaf.isWritable = true) : ¬ ending.toList <:+: leaf.content.toList := by
  intro inside
  have occurring := occurs_iff_infix.2 inside
  rw [isWritable, isTerminatedBy, terminated] at writable
  simp [occurring] at writable

/-- The terminator does not occur either once the line endings in the content are replaced. -/
theorem not_infix_of_isWritable (leaf : Leaf) {ending : String} {fault : Fault}
    (terminated : terminator? leaf.kind = some (ending, fault)) (noFeed : '\n' ∉ ending.toList)
    (writable : leaf.isWritable = true) :
    ¬ ending.toList <:+: normalizeLineEndings leaf.content.toList := by
  intro inside
  exact leaf.not_infix_content_of_isWritable terminated writable
    (infix_of_infix_normalizeLineEndings noFeed inside)

/-- Spaces around a body do not hold a part of a delimiter that has none. -/
theorem not_infix_spaced {delimiter body : List Char} (nonempty : delimiter ≠ [])
    (solid : ' ' ∉ delimiter) (elsewhere : ¬ delimiter <:+: body) :
    ¬ delimiter <:+: ' ' :: (body ++ [' ']) := by
  intro inside
  rcases List.infix_cons_iff.1 inside with starts | inside
  · rcases List.prefix_cons_iff.1 starts with empty | ⟨rest, equal, -⟩
    · exact nonempty empty
    · rw [equal] at solid
      exact solid List.mem_cons_self
  · rcases List.infix_concat_iff.1 inside with ends | inside
    · rcases List.suffix_concat_iff.1 ends with empty | ⟨rest, equal, -⟩
      · exact nonempty empty
      · rw [equal] at solid
        exact solid (by simp)
    · exact elsewhere inside

theorem comment_of_written {content : String}
    (writable : (comment content).isWritable = true) :
    Comment (normalizeLineEndings (comment content).markup.toList)
      (' ' :: (normalizeLineEndings content.toList ++ [' '])) := by
  have elsewhere := not_infix_of_isWritable (comment content) rfl (by decide) writable
  have ends : EndsFirst "-->".toList (' ' :: (normalizeLineEndings content.toList ++ [' '])) :=
    endsFirst_of_not_infix "--".toList (by decide)
      (not_infix_spaced (by decide) (by decide) elsewhere)
  have written : normalizeLineEndings (comment content).markup.toList =
      "<!--".toList ++ ((' ' :: (normalizeLineEndings content.toList ++ [' '])) ++
        "-->".toList) := by
    have markup : (comment content).markup.toList =
        "<!-- ".toList ++ (content.toList ++ " -->".toList) := by
      change ("<!-- " ++ content ++ " -->").toList = _
      rw [String.toList_append, String.toList_append, List.append_assoc]
    rw [markup, normalizeLineEndings_between _ (by decide) (by decide) (by decide)]
    simp
  rw [written]
  exact .intro _ ends

theorem cdata_of_written {content : String} (writable : (cdata content).isWritable = true) :
    CData (normalizeLineEndings (cdata content).markup.toList)
      (normalizeLineEndings content.toList) := by
  have elsewhere := not_infix_of_isWritable (cdata content) rfl (by decide) writable
  have ends : EndsFirst "]]>".toList (normalizeLineEndings content.toList) :=
    endsFirst_of_not_infix "]]".toList (by decide) elsewhere
  have markup : (cdata content).markup.toList =
      "<![CDATA[".toList ++ (content.toList ++ "]]>".toList) := by
    change ("<![CDATA[" ++ content ++ "]]>").toList = _
    rw [String.toList_append, String.toList_append, List.append_assoc]
  rw [markup, normalizeLineEndings_between _ (by decide) (by decide) (by decide)]
  exact .intro _ ends

theorem instruction_of_written {target : Name} {content : String}
    (writable : (instruction target content).isWritable = true) :
    Instruction (normalizeLineEndings (instruction target content).markup.toList) target
      (trimStart (normalizeLineEndings content.toList)) := by
  have elsewhere := not_infix_of_isWritable (instruction target content) rfl (by decide) writable
  have trimmed : trimStart (normalizeLineEndings content.toList) <:+:
      normalizeLineEndings content.toList := (List.dropWhile_suffix _).isInfix
  have ends : EndsFirst "?>".toList (trimStart (normalizeLineEndings content.toList)) :=
    endsFirst_of_not_infix "?".toList (by decide) fun inside => elsewhere (inside.trans trimmed)
  have solid : StartsSolid (trimStart (normalizeLineEndings content.toList)) :=
    startsSolid_dropWhile _
  have noReturn : '\r' ∉ target.text.toList := target.not_mem_of_not_isNameRest (by decide)
  by_cases empty : content = ""
  · have markup : (instruction target content).markup.toList =
        "<?".toList ++ (target.text.toList ++ "?>".toList) := by
      rw [Leaf.markup, if_pos empty]
      change ("<?" ++ target.text ++ "?>").toList = _
      rw [String.toList_append, String.toList_append, List.append_assoc]
    rw [markup, normalizeLineEndings_between _ (by decide) (by decide) (by decide),
      normalizeLineEndings_of_not_mem noReturn]
    rw [empty] at ends solid ⊢
    exact .intro target [] [] blanks_nil solid
      (startsOutside_nil _) ends
  · have markup : (instruction target content).markup.toList =
        ("<?".toList ++ (target.text.toList ++ [' '])) ++ (content.toList ++ "?>".toList) := by
      rw [Leaf.markup, if_neg empty]
      change ("<?" ++ target.text ++ " " ++ content ++ "?>").toList = _
      simp only [String.toList_append, List.append_assoc]
      rfl
    have noReturnInFront : '\r' ∉ "<?".toList ++ (target.text.toList ++ [' ']) := by
      simp [noReturn]
    let gap := (normalizeLineEndings content.toList).takeWhile isBlank
    have split : normalizeLineEndings content.toList =
        gap ++ trimStart (normalizeLineEndings content.toList) :=
      List.takeWhile_append_dropWhile.symm
    have blank : Blanks (' ' :: gap) := (blanks_takeWhile _).cons (by decide)
    have derived := Instruction.intro target (' ' :: gap) _ blank solid
      (startsOutside_cons_iff.2 (by decide)) ends
    rw [markup, normalizeLineEndings_between _ noReturnInFront (by decide) (by decide)]
    have written : "<?".toList ++ (target.text.toList ++ ((' ' :: gap) ++
        (trimStart (normalizeLineEndings content.toList) ++ "?>".toList))) =
        ("<?".toList ++ (target.text.toList ++ [' '])) ++
          (normalizeLineEndings content.toList ++ "?>".toList) := by
      conv => rhs; rw [split]
      simp only [List.append_assoc, List.cons_append, List.nil_append]
    rw [← written]
    exact derived

theorem fragment_of_written {leaf : Leaf} (writable : leaf.isWritable = true) :
    Fragment (writtenCharacters leaf.pieces) leaf.toPiece := by
  rw [pieces]
  split
  · rename_i empty
    rw [empty]
    exact .text (by decide)
  · rw [writtenCharacters_cons, writtenCharacters_nil, List.append_nil]
    cases leaf with
    | text content =>
        rw [markup, String.toList_ofList, toPiece]
        apply Fragment.text
        rw [normalizeLineEndings_encodeText]
        exact Entity.not_mem_encodeText _
    | comment content => exact .comment (comment_of_written writable)
    | cdata content => exact .cdata (cdata_of_written writable)
    | instruction target content => exact .instruction (instruction_of_written writable)

end Leaf

/-! ## Tags -/

/-- An attribute as an entry with the characters of its value as they are written. -/
def writtenEntry (entry : Name × String) : Name × List Char :=
  (entry.1, normalizeLineEndings (Entity.encodeAttribute entry.2.toList))

/-- The text of an attribute whose value is given as it is written, behind a space. -/
def entryMarkup (entry : Name × List Char) : List Char :=
  ' ' :: (entry.1.text.toList ++ ('=' :: '\x22' :: (entry.2 ++ ['\x22'])))

/-- Each attribute is written behind a space, the grammar has blank characters behind each
attribute: the space in front of the first one belongs to the tag's name. -/
theorem attributeList_of_entries {entries : List (Name × List Char)}
    (unquoted : ∀ entry ∈ entries, '\x22' ∉ entry.2) :
    ∃ gap list, Blanks gap ∧ AttributeList list entries ∧
      entries.flatMap entryMarkup = gap ++ list ∧ EndsName (gap ++ list) := by
  induction entries with
  | nil => exact ⟨[], [], blanks_nil, .nil, rfl, startsOutside_nil _⟩
  | cons entry entries induction =>
      rw [List.forall_mem_cons] at unquoted
      rcases induction unquoted.2 with ⟨gap, list, blank, listed, written, -⟩
      have derived := Attribute.intro entry.1 [] [] entry.2 gap '\x22' blanks_nil blanks_nil blank
        (.inl rfl) unquoted.1
      refine ⟨[' '], _, blanks_nil.cons (by decide), .cons derived listed, ?_,
        startsOutside_cons_iff.2 (by decide)⟩
      rw [List.flatMap_cons, written, entryMarkup]
      simp

theorem tagHead_of_entries (name : Name) {entries : List (Name × List Char)}
    (unquoted : ∀ entry ∈ entries, '\x22' ∉ entry.2) :
    TagHead ('<' :: (name.text.toList ++ entries.flatMap entryMarkup)) name entries := by
  rcases attributeList_of_entries unquoted with ⟨gap, list, blank, listed, written, ends⟩
  rw [written]
  exact .intro name gap list entries blank listed ends

theorem writtenCharacters_attributes (entries : List (Name × String)) :
    writtenCharacters (entries.map fun (name, value) =>
      " " ++ name.text ++ "=\x22" ++
        String.ofList (Entity.encodeAttribute value.toList) ++ "\x22") =
      (entries.map writtenEntry).flatMap entryMarkup := by
  induction entries with
  | nil => rfl
  | cons entry entries induction =>
      rcases entry with ⟨name, value⟩
      have noReturn : '\r' ∉ name.text.toList := name.not_mem_of_not_isNameRest (by decide)
      have noReturnInFront : '\r' ∉ ' ' :: (name.text.toList ++ ['=', '\x22']) := by
        simp [noReturn]
      have single : (" " ++ name.text ++ "=\x22" ++
          String.ofList (Entity.encodeAttribute value.toList) ++ "\x22").toList =
          (' ' :: (name.text.toList ++ ['=', '\x22'])) ++
            (Entity.encodeAttribute value.toList ++ ['\x22']) := by
        simp [String.toList_append]
      rw [List.map_cons, List.map_cons, List.flatMap_cons, writtenCharacters_cons, induction,
        single, normalizeLineEndings_between _ noReturnInFront (by decide) (by decide),
        entryMarkup, writtenEntry]
      simp

theorem tagHead_of_written (name : Name) (attributes : Attributes) :
    TagHead (writtenCharacters (("<" ++ name.text) :: attributes.pieces)) name
      (attributes.sorted.map writtenEntry) := by
  have noReturn : '\r' ∉ '<' :: name.text.toList := by
    rw [List.mem_cons, not_or]
    exact ⟨by decide, name.not_mem_of_not_isNameRest (by decide)⟩
  have start : normalizeLineEndings ("<" ++ name.text).toList = '<' :: name.text.toList := by
    rw [String.toList_append]
    exact normalizeLineEndings_of_not_mem noReturn
  have unquoted : ∀ entry ∈ attributes.sorted.map writtenEntry, '\x22' ∉ entry.2 := by
    rw [List.forall_mem_map]
    intro entry _
    rw [writtenEntry, normalizeLineEndings_encodeAttribute]
    exact Entity.not_mem_encodeAttribute _
  rw [writtenCharacters_cons, start, Attributes.pieces, writtenCharacters_attributes]
  exact tagHead_of_entries name unquoted

theorem endTag_of_written (name : Name) :
    EndTag (writtenCharacters ["</" ++ name.text ++ ">"]) name := by
  have noReturn : '\r' ∉ "</".toList ++ (name.text.toList ++ ['>']) := by
    have named := name.not_mem_of_not_isNameRest (by decide : isNameRest '\r' = false)
    simp [named]
  have ending : ("</" ++ name.text ++ ">").toList = "</".toList ++ (name.text.toList ++ ['>']) := by
    simp [String.toList_append]
  rw [writtenCharacters_cons, writtenCharacters_nil, List.append_nil, ending,
    normalizeLineEndings_of_not_mem noReturn]
  exact .intro name [] blanks_nil

/-! ## Trees -/

namespace Tree

mutual

/-- The piece that a tree is written as. -/
def toPiece : Tree → Piece
  | leaf content => content.toPiece
  | tag name attributes children =>
    .element name (attributes.sorted.map writtenEntry) (toPieces children)

/-- The pieces that several trees are written as. -/
def toPieces : List Tree → List Piece
  | [] => []
  | first :: rest => first.toPiece :: toPieces rest

end

mutual

theorem fragment_of_written : (tree : Tree) → tree.isWritable = true →
    Fragment (writtenCharacters tree.canonicalPieces) tree.toPiece
  | leaf content, writable => Leaf.fragment_of_written writable
  | tag name attributes children, writable => by
      have head := tagHead_of_written name attributes
      have inner := content_of_written children writable
      rw [canonicalPieces, toPiece, writtenCharacters_append]
      cases children with
      | nil =>
          have empty : writtenCharacters ["/>"] = "/>".toList := by decide
          rw [List.isEmpty_nil, if_pos rfl, empty]
          exact .empty head
      | cons first rest =>
          have opened : normalizeLineEndings ">".toList = ">".toList := by decide
          have closed : writtenCharacters (">" :: canonicalPiecesOfAll (first :: rest) ++
              ["</" ++ name.text ++ ">"]) =
              ">".toList ++ (writtenCharacters (canonicalPiecesOfAll (first :: rest)) ++
                writtenCharacters ["</" ++ name.text ++ ">"]) := by
            rw [List.cons_append, writtenCharacters_cons, writtenCharacters_append, opened]
          rw [List.isEmpty_cons, if_neg (by decide), closed, ← List.append_assoc]
          exact .paired head inner (endTag_of_written name)

theorem content_of_written : (trees : List Tree) → areWritable trees = true →
    Content (writtenCharacters (canonicalPiecesOfAll trees)) (toPieces trees)
  | [], _ => .nil
  | first :: rest, writable => by
      rw [areWritable, Bool.and_eq_true] at writable
      rw [canonicalPiecesOfAll, writtenCharacters_append]
      exact .cons (fragment_of_written first writable.1) (content_of_written rest writable.2)

end

end Tree

end XmlGrove
