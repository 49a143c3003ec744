import XmlGrove.Entity
import XmlGrove.Text.Newline
import XmlGrove.Tree

/-!
# Writing trees

Trees are written piece by piece; a piece is what is handed to a writer at once.
In the canonical layout nothing is added to a tree. The indented layout adds line
breaks and indentation where that does not alter a text.
-/

namespace XmlGrove

/-! ## Markup -/

namespace Leaf

def markup : Leaf → String
  | text content => String.ofList (Entity.encodeText content.toList)
  | comment content => s!"<!-- {content} -->"
  | cdata content => s!"<![CDATA[{content}]]>"
  | instruction target content =>
    if content = "" then s!"<?{target}?>" else s!"<?{target} {content}?>"

/-- The pieces that a leaf is written in. Text without content writes nothing. -/
def pieces (leaf : Leaf) : List String :=
  if leaf = text "" then [] else [leaf.markup]

/-- The markup of a leaf that is placed outside of a root, where text is not. -/
def standaloneMarkup (leaf : Leaf) : Except Fault String :=
  match leaf with
  | text _ => .error (.unwritable .text)
  | _ => .ok leaf.markup

end Leaf

namespace Attributes

def pieces (attributes : Attributes) : List String :=
  attributes.sorted.map fun (name, value) =>
    " " ++ name.text ++ "=\x22" ++
      String.ofList (Entity.encodeAttribute value.toList) ++ "\x22"

end Attributes

namespace Tree

/-! ## The canonical layout -/

mutual

def canonicalPieces : Tree → List String
  | leaf content => content.pieces
  | tag name attributes children =>
    ("<" ++ name.text) :: attributes.pieces ++
      if children.isEmpty then ["/>"]
      else ">" :: canonicalPiecesOfAll children ++ ["</" ++ name.text ++ ">"]

def canonicalPiecesOfAll : List Tree → List String
  | [] => []
  | first :: rest => first.canonicalPieces ++ canonicalPiecesOfAll rest

end

/-! ## The indented layout -/

def isSolidText : Tree → Bool
  | leaf (.text content) => !Text.allBlank content.toList
  | _ => false

/-- Tell whether added whitespace would alter the text among some child nodes. -/
def holdCharacterData (children : List Tree) : Bool :=
  children.all isText || children.any isSolidText

def indentationFor (indentation : String) (level : Nat) : String :=
  String.join (List.replicate level indentation)

mutual

def indentedPieces (indentation : String) (level : Nat) : Tree → List String
  | leaf (.text content) => (Leaf.text content).pieces
  | leaf content => [indentationFor indentation level ++ content.markup ++ "\n"]
  | tag name attributes children =>
    let margin := indentationFor indentation level
    if holdCharacterData children then
      margin :: (tag name attributes children).canonicalPieces ++ ["\n"]
    else
      margin :: ("<" ++ name.text) :: attributes.pieces ++ [">\n"] ++
        indentedPiecesOfAll indentation (level + 1) children ++
        [margin ++ "</" ++ name.text ++ ">\n"]

def indentedPiecesOfAll (indentation : String) (level : Nat) : List Tree → List String
  | [] => []
  | first :: rest =>
    first.indentedPieces indentation level ++ indentedPiecesOfAll indentation level rest

end

end Tree

/-! ## Layouts -/

inductive Layout where
  | canonical
  | indented (indentation : String)
  deriving Repr, DecidableEq

namespace Layout

/-- The layout that an indentation asks for. Only blank characters indent. -/
def ofIndentation : Option String → Except Fault Layout
  | none => .ok .canonical
  | some indentation =>
    if indentation = "" || Text.allBlank indentation.toList then .ok (.indented indentation)
    else .error .indentation

end Layout

namespace Tree

def pieces (layout : Layout) (tree : Tree) : List String :=
  match layout with
  | .canonical => tree.canonicalPieces
  | .indented indentation => tree.indentedPieces indentation 0

def render (layout : Layout) (newline : Text.Newline) (tree : Tree) : String :=
  String.join ((tree.pieces layout).map newline.inMemory)

example :
    (tag ⟨"a", by decide⟩ {} [text "x<", tag ⟨"b", by decide⟩ {} []]).pieces .canonical =
      ["<a", ">", "x&lt;", "<b", "/>", "</a>"] := by
  decide +kernel

end Tree

end XmlGrove
