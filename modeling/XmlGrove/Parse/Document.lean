import XmlGrove.Declaration
import XmlGrove.Parse.Content

/-!
# Reading documents

A document is a root with a prologue of comments and processing instructions.
The very first processing instruction is its declaration if it is called so.
-/

namespace XmlGrove

structure ParsedDocument where
  declaration : Option String := none
  version : String := Declaration.defaultVersion
  encoding : String := Declaration.defaultEncoding
  prologue : List Leaf
  root : Tree

namespace ParsedDocument

def nodes (document : ParsedDocument) : List Tree :=
  document.prologue.map .leaf ++ [document.root]

/-- The encodings that a text may declare without being contradicted by the fact
that it is a text. -/
def isTextualEncoding (encoding : String) : Bool :=
  encoding.toLower == "utf-8" || encoding.toLower == "utf8"

def warning? (document : ParsedDocument) : Option String :=
  if document.declaration.isSome && !isTextualEncoding document.encoding then
    some (s!"The data was passed as string, the declared encoding {document.encoding} " ++
      "is ignored.")
  else none

end ParsedDocument

namespace Parse

/-- What a document starts with, unless that is its root: a declaration, or the
first node of the prologue. -/
inductive Opening where
  | declaration (content : String)
  | node (leaf : Leaf)
  | nothing

def readOpening (cursor : Cursor) : Except ParsingFault (Opening × Cursor) := do
  if cursor.startsWith "<?" then
    let ((target, content), cursor) ← readInstruction cursor
    if target = Name.xml then return (.declaration content, cursor.skipBlanks)
    else return (.node (.instruction target content), cursor.skipBlanks)
  else return (.nothing, cursor)

def keeps (options : ParserOptions) : Leaf → Bool
  | .comment _ => !options.removeComments
  | .instruction _ _ => !options.removeInstructions
  | .text _ | .cdata _ => true

def readPrologue (options : ParserOptions) (cursor : Cursor) :
    Except ParsingFault (List Leaf × Cursor) :=
  if cursor.startsWith "<?" then
    match _read : readInstruction cursor with
    | .error fault => .error fault
    | .ok ((target, content), next) =>
      (readPrologue options next.skipBlanks).map fun (leaves, cursor) =>
        ([Leaf.instruction target content].filter (keeps options) ++ leaves, cursor)
  else if cursor.startsWith "<!--" then
    match _read : readComment cursor with
    | .error fault => .error fault
    | .ok (content, next) =>
      (readPrologue options next.skipBlanks).map fun (leaves, cursor) =>
        ([Leaf.comment content].filter (keeps options) ++ leaves, cursor)
  else .ok ([], cursor)
termination_by cursor.rest.length
decreasing_by
  · have shorter := length_rest_of_readInstruction _read
    have blanks := next.length_rest_skipBlanks_le
    omega
  · have shorter := length_rest_of_readComment _read
    have blanks := next.length_rest_skipBlanks_le
    omega

def refuseDocumentType (cursor : Cursor) : Except ParsingFault Unit :=
  if cursor.startsWith "<!DOCTYPE" then .error (.documentType cursor.location) else .ok ()

def refuseTrailingContent (cursor : Cursor) : Except ParsingFault Unit :=
  if cursor.atEnd then .ok () else .error (.trailingContent cursor.location)

def assemble (options : ParserOptions) (opening : Opening) (leaves : List Leaf)
    (root : Tree) : ParsedDocument :=
  match opening with
  | .declaration content =>
    { declaration := some content, version := Declaration.version content,
      encoding := Declaration.encoding content, prologue := leaves, root := root }
  | .node leaf => { prologue := [leaf].filter (keeps options) ++ leaves, root := root }
  | .nothing => { prologue := leaves, root := root }

def document (options : ParserOptions) (text : List Char) :
    Except ParsingFault ParsedDocument := do
  let (opening, cursor) ← readOpening (Cursor.start text).skipBlanks
  let (leaves, cursor) ← readPrologue options cursor
  refuseDocumentType cursor
  let (root, cursor) ← readElement options cursor
  refuseTrailingContent cursor.skipBlanks
  return assemble options opening leaves root

end Parse

end XmlGrove
