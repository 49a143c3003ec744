import XmlGrove.Proofs.Grammar.Productions

/-!
# What documents denote

The trees that the pieces of a document stand for. Options decide which pieces are kept; the
texts around a piece that is not kept make up one text.
-/

namespace XmlGrove.Grammar

/-- The text node that a run of text stands for, if it stands for one. -/
def textRun (options : ParserOptions) (raw : List Char) : List Tree :=
  let content := Entity.decode raw
  if content = [] then []
  else if options.preserveWhitespace = false ∧ content.all Text.isBlank = true then []
  else [.text (String.ofList content)]

/-- An entry with the references in its value decoded. -/
def decodedEntry (entry : Name × List Char) : Name × String :=
  (entry.1, String.ofList (Entity.decode entry.2))

/-- The attributes that entries stand for: the last value of a name counts. -/
def attributesOf (entries : List (Name × List Char)) : Attributes :=
  Attributes.ofList (entries.map decodedEntry)

/-- The characters that a piece contributes to the run of text around it. -/
def Piece.characters : Piece → List Char
  | text characters => characters
  | _ => []

mutual

/-- The node that a piece stands for, unless it is text or not to be kept. -/
def Piece.node? (options : ParserOptions) : Piece → Option Tree
  | .text _ => none
  | .comment body =>
    if options.removeComments then none else some (.leaf (.comment (String.ofList body)))
  | .cdata body => some (.leaf (.cdata (String.ofList body)))
  | .instruction target body =>
    if options.removeInstructions then none
    else some (.leaf (.instruction target (String.ofList body)))
  | .element name entries pieces =>
    some (.tag name (attributesOf entries) (nodesOf options [] pieces))

/-- The nodes that pieces stand for, behind text that belongs to the first of their runs. -/
def nodesOf (options : ParserOptions) (pending : List Char) : List Piece → List Tree
  | [] => textRun options pending
  | piece :: rest =>
    match piece.node? options with
    | some node => textRun options pending ++ node :: nodesOf options [] rest
    | none => nodesOf options (pending ++ piece.characters) rest

end

/-- The document that leaves and a root stand for. The very first leaf is the declaration if
it is an instruction with that target. -/
def documentOf (options : ParserOptions) (leaves : List Leaf) (root : Tree) : ParsedDocument :=
  match leaves with
  | .instruction target content :: rest =>
    if target = Name.xml then
      { declaration := some content, version := Declaration.version content,
        encoding := Declaration.encoding content,
        prologue := rest.filter (Parse.keeps options), root := root }
    else { prologue := leaves.filter (Parse.keeps options), root := root }
  | _ => { prologue := leaves.filter (Parse.keeps options), root := root }

end XmlGrove.Grammar
