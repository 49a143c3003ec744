import XmlGrove.Proofs.RoundTrip.Comparison
import XmlGrove.Proofs.RoundTrip.Encoding

/-!
# Carriage returns in what is written

A writer into memory replaces carriage returns where a writer into a stream keeps them. What is
written holds one exactly if a content or the value of an attribute holds one, or if it is used for
the indentation.
-/

namespace XmlGrove

/-! ## Pieces -/

/-- Tell whether there is a carriage return in a text. -/
def Text.holdsReturn (text : String) : Bool :=
  text.toList.contains '\r'

/-- Tell whether there is a carriage return in one of several pieces. -/
def Text.holdReturn (pieces : List String) : Bool :=
  pieces.any holdsReturn

namespace Text

theorem holdsReturn_iff {text : String} : holdsReturn text = true ↔ '\r' ∈ text.toList := by
  rw [holdsReturn, List.contains_iff_mem]

theorem holdsReturn_append (former latter : String) :
    holdsReturn (former ++ latter) = (holdsReturn former || holdsReturn latter) := by
  simp [holdsReturn]

theorem holdReturn_append (former latter : List String) :
    holdReturn (former ++ latter) = (holdReturn former || holdReturn latter) :=
  List.any_append

theorem holdReturn_nil : holdReturn [] = false := rfl

theorem holdReturn_cons (first : String) (rest : List String) :
    holdReturn (first :: rest) = (holdsReturn first || holdReturn rest) :=
  List.any_cons

theorem holdsReturn_join (pieces : List String) :
    holdsReturn (String.join pieces) = holdReturn pieces := by
  rw [Bool.eq_iff_iff]
  simp [holdsReturn, holdReturn, List.mem_flatMap]

/-- Encoding a text character by character neither makes nor hides a carriage return. -/
theorem holdsReturn_flatMap {encode : Char → List Char} (content : String)
    (other : ∀ character, character ≠ '\r' → '\r' ∉ encode character)
    (same : '\r' ∈ encode '\r') :
    holdsReturn (String.ofList (content.toList.flatMap encode)) = holdsReturn content := by
  rw [Bool.eq_iff_iff, holdsReturn_iff, holdsReturn_iff, String.toList_ofList, List.mem_flatMap]
  constructor
  · rintro ⟨character, member, inside⟩
    have equal : character = '\r' := by
      apply Decidable.byContradiction
      intro different
      exact other character different inside
    rw [← equal]
    exact member
  · intro member
    exact ⟨'\r', member, same⟩

theorem holdsReturn_encodeText (content : String) :
    holdsReturn (String.ofList (Entity.encodeText content.toList)) = holdsReturn content := by
  apply holdsReturn_flatMap
  · intro character different
    rw [Entity.encodeInText]
    split
    · decide
    · split
      · decide
      · split
        · decide
        · rw [List.mem_singleton]
          exact Ne.symm different
  · decide

theorem holdsReturn_encodeAttribute (value : String) :
    holdsReturn (String.ofList (Entity.encodeAttribute value.toList)) = holdsReturn value := by
  apply holdsReturn_flatMap
  · intro character different
    rw [Entity.encodeInAttribute]
    split
    · decide
    · rw [List.mem_singleton]
      exact Ne.symm different
  · decide

theorem holdsReturn_name (name : Name) : holdsReturn name.text = false := by
  rw [← Bool.not_eq_true, holdsReturn_iff]
  exact name.not_mem_of_not_isNameRest (by decide)

end Text

/-! ## Leaves and attributes -/

/-- Tell whether there is a carriage return in the content of a leaf. -/
def Leaf.holdsReturn (leaf : Leaf) : Bool :=
  Text.holdsReturn leaf.content

/-- Tell whether there is a carriage return in the value of an attribute. -/
def Attributes.holdReturn (attributes : Attributes) : Bool :=
  Text.holdReturn attributes.values

open Text

theorem Leaf.holdsReturn_markup (leaf : Leaf) :
    Text.holdsReturn leaf.markup = leaf.holdsReturn := by
  cases leaf with
  | text content => exact holdsReturn_encodeText content
  | comment content =>
      have opening : Text.holdsReturn "<!-- " = false := by decide
      have closing : Text.holdsReturn " -->" = false := by decide
      change Text.holdsReturn (("<!-- " ++ content) ++ " -->") = Text.holdsReturn content
      rw [holdsReturn_append, holdsReturn_append, opening, closing]
      simp
  | cdata content =>
      have opening : Text.holdsReturn "<![CDATA[" = false := by decide
      have closing : Text.holdsReturn "]]>" = false := by decide
      change Text.holdsReturn (("<![CDATA[" ++ content) ++ "]]>") = Text.holdsReturn content
      rw [holdsReturn_append, holdsReturn_append, opening, closing]
      simp
  | instruction target content =>
      have opening : Text.holdsReturn "<?" = false := by decide
      have closing : Text.holdsReturn "?>" = false := by decide
      have blank : Text.holdsReturn " " = false := by decide
      rw [Leaf.markup]
      split
      · rename_i empty
        change Text.holdsReturn (("<?" ++ target.text) ++ "?>") = Text.holdsReturn content
        rw [holdsReturn_append, holdsReturn_append, holdsReturn_name, opening, closing, empty]
        rfl
      · change Text.holdsReturn (((("<?" ++ target.text) ++ " ") ++ content) ++ "?>") =
          Text.holdsReturn content
        simp [holdsReturn_append, holdsReturn_name, opening, closing, blank]

theorem Leaf.holdReturn_pieces (leaf : Leaf) : holdReturn leaf.pieces = leaf.holdsReturn := by
  rw [Leaf.pieces]
  split
  · rename_i empty
    rw [empty]
    rfl
  · rw [holdReturn_cons, leaf.holdsReturn_markup]
    exact Bool.or_false _

theorem Attributes.holdReturn_pieces (attributes : Attributes) :
    Text.holdReturn attributes.pieces = attributes.holdReturn := by
  have piece : ∀ entry : Name × String,
      Text.holdsReturn (" " ++ entry.1.text ++ "=\x22" ++
        String.ofList (Entity.encodeAttribute entry.2.toList) ++ "\x22") =
          Text.holdsReturn entry.2 := by
    intro entry
    have blank : Text.holdsReturn " " = false := by decide
    have opening : Text.holdsReturn "=\x22" = false := by decide
    have closing : Text.holdsReturn "\x22" = false := by decide
    simp [holdsReturn_append, holdsReturn_name, holdsReturn_encodeAttribute, blank, opening,
      closing]
  have sorted : attributes.sorted.any (fun entry => Text.holdsReturn entry.2) =
      attributes.entries.any fun entry => Text.holdsReturn entry.2 := by
    rw [Bool.eq_iff_iff, List.any_eq_true, List.any_eq_true]
    simp only [attributes.sorted_perm.mem_iff]
  rw [Attributes.holdReturn, Attributes.pieces, Attributes.values, Text.holdReturn,
    Text.holdReturn, List.any_map, List.any_map]
  calc attributes.sorted.any _
    _ = attributes.sorted.any fun entry => Text.holdsReturn entry.2 :=
        List.any_congr rfl piece
    _ = _ := sorted

/-! ## Trees -/

namespace Tree

mutual

/-- Tell whether there is a carriage return in a content or the value of an attribute. -/
def holdsReturn : Tree → Bool
  | leaf content => content.holdsReturn
  | tag _ attributes children => attributes.holdReturn || holdReturn children

/-- Tell whether one of several trees holds a carriage return. -/
def holdReturn : List Tree → Bool
  | [] => false
  | first :: rest => first.holdsReturn || holdReturn rest

end

/-- Tell whether the children of a tag are put on lines of their own in the indented layout. -/
def isSpread : Tree → Bool
  | leaf _ => false
  | tag _ _ children => !holdCharacterData children

/-- Tell whether there is a carriage return in what is written for a tree. -/
def writesReturn : Layout → Tree → Bool
  | .canonical, tree => tree.holdsReturn
  | .indented indentation, tree =>
    tree.holdsReturn || tree.isSpread && Text.holdsReturn indentation

mutual

theorem holdReturn_canonicalPieces :
    (tree : Tree) → Text.holdReturn tree.canonicalPieces = tree.holdsReturn
  | leaf content => content.holdReturn_pieces
  | tag name attributes children => by
      have opening : Text.holdsReturn "<" = false := by decide
      have ending : Text.holdsReturn "</" = false := by decide
      have closing : Text.holdsReturn ">" = false := by decide
      have void : Text.holdsReturn "/>" = false := by decide
      rw [canonicalPieces, holdsReturn, List.cons_append, holdReturn_cons, holdReturn_append,
        attributes.holdReturn_pieces, holdsReturn_append, holdsReturn_name, opening]
      split
      · rename_i empty
        rw [List.isEmpty_iff] at empty
        rw [empty]
        simp [holdReturn_cons, holdReturn_nil, void, holdReturn]
      · have inner := holdReturn_canonicalPiecesOfAll children
        simp [holdReturn_cons, holdReturn_append, holdReturn_nil, holdsReturn_append,
          holdsReturn_name, ending, closing, inner]

theorem holdReturn_canonicalPiecesOfAll :
    (trees : List Tree) → Text.holdReturn (canonicalPiecesOfAll trees) = holdReturn trees
  | [] => rfl
  | first :: rest => by
      rw [canonicalPiecesOfAll, holdReturn_append, holdReturn_canonicalPieces first,
        holdReturn_canonicalPiecesOfAll rest, holdReturn]

end

theorem holdsReturn_indentationFor (indentation : String) (level : Nat) :
    Text.holdsReturn (indentationFor indentation level) =
      (decide (0 < level) && Text.holdsReturn indentation) := by
  rw [indentationFor, holdsReturn_join, Text.holdReturn, List.any_replicate]
  cases level with
  | zero => rfl
  | succ level => simp

/-- Tell whether there is a carriage return in the margins of a tree at a level. -/
def marginReturns (indentation : String) (level : Nat) (tree : Tree) : Bool :=
  Text.holdsReturn indentation && !tree.isText && (decide (0 < level) || tree.isSpread)

mutual

theorem holdReturn_indentedPieces (indentation : String) (level : Nat) :
    (tree : Tree) → Text.holdReturn (tree.indentedPieces indentation level) =
      (tree.holdsReturn || tree.marginReturns indentation level)
  | leaf content => by
      have feed : Text.holdsReturn "\n" = false := by decide
      cases content with
      | text content =>
          rw [indentedPieces, Leaf.holdReturn_pieces, marginReturns]
          simp [holdsReturn, isText]
      | _ =>
          simp [indentedPieces, holdReturn_cons, holdReturn_nil, holdsReturn_append,
            holdsReturn_indentationFor, Leaf.holdsReturn_markup, feed, holdsReturn, marginReturns,
            isText, isSpread, Bool.and_comm, Bool.or_comm]
  | tag name attributes children => by
      have opening : Text.holdsReturn "<" = false := by decide
      have ending : Text.holdsReturn "</" = false := by decide
      have closing : Text.holdsReturn ">\n" = false := by decide
      have feed : Text.holdsReturn "\n" = false := by decide
      rw [indentedPieces]
      split
      · rename_i dense
        simp [holdReturn_cons, holdReturn_append, holdReturn_nil, holdsReturn_indentationFor,
          holdReturn_canonicalPieces, feed, marginReturns, isText, isSpread, dense,
          Bool.and_comm, Bool.or_comm]
      · rename_i spread
        have inner := holdReturn_indentedPiecesOfAll indentation level children
        rw [Bool.not_eq_true, holdCharacterData, Bool.or_eq_false_iff] at spread
        simp [holdReturn_cons, holdReturn_append, holdReturn_nil, holdsReturn_append,
          holdsReturn_indentationFor, holdsReturn_name, attributes.holdReturn_pieces, opening,
          ending, closing, inner, marginReturns, isText, isSpread, holdCharacterData, spread,
          holdsReturn]
        cases Text.holdsReturn indentation <;> cases holdReturn children <;> simp

theorem holdReturn_indentedPiecesOfAll (indentation : String) (level : Nat) :
    (trees : List Tree) →
      Text.holdReturn (indentedPiecesOfAll indentation (level + 1) trees) =
        (holdReturn trees || Text.holdsReturn indentation && !trees.all isText)
  | [] => by simp [indentedPiecesOfAll, holdReturn, Text.holdReturn]
  | first :: rest => by
      rw [indentedPiecesOfAll, holdReturn_append, holdReturn_indentedPieces _ _ first,
        holdReturn_indentedPiecesOfAll indentation level rest, holdReturn, List.all_cons,
        marginReturns]
      cases Text.holdsReturn indentation <;> cases first.isText <;> cases holdReturn rest <;> simp

end

/-- What is written for a tree holds a carriage return if the tree does, or where its children are
indented with one. -/
theorem holdReturn_pieces (layout : Layout) (tree : Tree) :
    Text.holdReturn (tree.pieces layout) = tree.writesReturn layout := by
  cases layout with
  | canonical => exact holdReturn_canonicalPieces tree
  | indented indentation =>
      rw [pieces, holdReturn_indentedPieces, writesReturn, marginReturns]
      cases tree with
      | leaf content => simp [isSpread]
      | tag name attributes children => simp [isText, Bool.and_comm]

end Tree

end XmlGrove
