import XmlGrove.Location

/-!
# Faults

What can go wrong, as causes. The wording of each cause is in one place, the
`message` functions; some causes have none, as nothing more is to be said than
that an operation does not apply to what it was given.
-/

namespace XmlGrove

/-! ## Faults of parsing -/

inductive ParsingFault where
  | expected (literal : String) (location : Location)
  | nameMissing (location : Location)
  | quoteMissing (location : Location)
  | unterminated (construct : String) (location : Location)
  | mismatchedTags (started ended : String) (location : Location)
  | trailingContent (location : Location)
  | documentType (location : Location)
  | undecodable (encoding : String)
  deriving Repr, DecidableEq

inductive ParsingFault.Kind where
  | malformed
  | grammar
  | unexpectedEnd
  | unsupported
  | data
  deriving Repr, DecidableEq

namespace ParsingFault

def kind : ParsingFault → Kind
  | expected .. | nameMissing .. | quoteMissing .. => .grammar
  | unterminated .. => .unexpectedEnd
  | mismatchedTags .. | trailingContent .. => .malformed
  | documentType .. => .unsupported
  | undecodable .. => .data

def location? : ParsingFault → Option Location
  | expected _ location | nameMissing location | quoteMissing location
  | unterminated _ location | mismatchedTags _ _ location | trailingContent location
  | documentType location => some location
  | undecodable _ => none

def Kind.label : Kind → String
  | malformed => "Malformed XML"
  | grammar => "Syntax error"
  | unexpectedEnd => "Unexpected end"
  | unsupported => "XML error"
  | data => "Invalid data"

def problem : ParsingFault → String
  | expected literal _ => s!"Expected '{literal}'"
  | nameMissing _ => "Expected XML name"
  | quoteMissing _ => "Expected attribute value to start with quote"
  | unterminated construct _ => s!"Unterminated {construct}"
  | mismatchedTags started ended _ => s!"Mismatched tags: <{started}> and </{ended}>"
  | trailingContent _ => "Unexpected content after root element"
  | documentType _ => "Document type declarations are not supported"
  | undecodable encoding => s!"Could not decode data as {encoding}"

def message (fault : ParsingFault) : String :=
  let introduced := fault.kind.label ++ ": " ++ fault.problem
  match fault.location? with
  | none => introduced
  | some location => s!"{introduced} at {location}"

end ParsingFault

/-! ## Kinds of nodes -/

inductive NodeKind where
  | text
  | comment
  | cdata
  | instruction
  | tag
  deriving Repr, DecidableEq

namespace NodeKind

def label : NodeKind → String
  | text => "TextNode"
  | comment => "CommentNode"
  | cdata => "CDataNode"
  | instruction => "ProcessingInstructionNode"
  | tag => "TagNode"

/-- How a kind is called where a value's kind is the problem. -/
def description (kind : NodeKind) : String :=
  s!"<class '_sprig.nodes.{kind.label}'>"

end NodeKind

/-! ## All faults -/

inductive Fault where
  | parsing (fault : ParsingFault)
  | attached
  | cyclic
  | unfitSource
  | unfitTemplateChild
  | unfitTemplate
  | invalidTagName (display : String)
  | invalidAttributeName (display : String)
  | invalidTarget (display : String)
  | unfitAttributeValue
  | unfitAttributes
  | unfitContent
  | unfitTextContent
  | cdataEnd
  | commentEnd
  | instructionEnd
  | notSibling
  | rootDetached
  | unfitMember
  | unfitDeletion
  | unfitSubscript
  | unfitAssignment
  | unfitRemoval
  | insertionOutOfRange
  | unsupportedSelector (feature expression : String)
  | selectorGrammar
  | indentation
  | unwritable (kind : NodeKind)
  | prologueKind
  | prologueDeclaration
  | notInPrologue
  | declarationKind
  | rootKind
  | rootAttached
  | rootMissing
  /-- No loader could load a source; each one's excuse is a text or the fault
  that it met. -/
  | loading (excuses : List (String × (String ⊕ Fault)))
  | bothConstraints
  /-- What is to be registered is no loader, or what is to be converted is no
  element. -/
  | assertion
  | noTraversal
  | unordered
  | unfitValue
  | noMember
  | noKey
  | noIndex
  | unacceptable
  | fileMissing
  | folder
  | serverStatus
  | noConnection
  | invalidAddress
  | invalidRedirection
  | endlessRedirection
  | unsendable
  | indexTooLarge
  | danglingReference

namespace Fault

private def attachedMessage : String :=
  "Only a detached node can be added to the tree. Use :meth:`XMLNodeType.clone` " ++
    "or :meth:`XMLNodeType.detach` to get one."

def message? : Fault → Option String
  | parsing fault => some fault.message
  | attached => some attachedMessage
  | cyclic => some "A node can't be added to itself or to one of its descendants."
  | unfitSource =>
    some ("Either node instances, strings or objects from :func:`sprig.tag` " ++
      "must be provided as child node.")
  | unfitTemplateChild =>
    some ("Either node instances, strings or objects from :func:`sprig.tag` " ++
      "must be provided as children argument.")
  | unfitTemplate => some "Unrecognized arguments."
  | invalidTagName display => some s!"`{display}` is not a valid XML name."
  | invalidAttributeName display => some s!"`{display}` is not a valid attribute name."
  | invalidTarget display =>
    some s!"`{display}` is not a valid processing instruction target."
  | unfitAttributeValue => some "Attribute values must be strings."
  | unfitAttributes => some "Attributes must be provided as mapping."
  | unfitContent => some "Content must be a string."
  | unfitTextContent => some "Text content must be a string or None."
  | cdataEnd => some "A CDATA section can't contain `]]>`."
  | commentEnd => some "A comment can't contain `-->`."
  | instructionEnd => some "A processing instruction's content can't contain `?>`."
  | notSibling => some "The node is not a member of these siblings."
  | rootDetached => some "The root node of a document cannot be detached."
  | unfitMember => some "Argument must be a node instance or an attribute name."
  | unfitDeletion => some "Argument must be an integer or an attribute name."
  | unfitSubscript =>
    some ("Argument must be an integer as index for a child node, a :term:`slice` " ++
      "to grab an indexed range of nodes or an attribute name.")
  | unfitAssignment => some "Only attributes can be set with the subscript notation."
  | unfitRemoval => some "Argument must be an integer or a node instance."
  | insertionOutOfRange => some ""
  | unsupportedSelector feature expression =>
    some s!"{feature} is not supported, found in: `{expression}`"
  | indentation => some "Invalid indentation characters."
  | unwritable kind => some s!"Unsupported node type: {kind.description}"
  | prologueKind =>
    some "Only comments and processing instructions can precede the root node."
  | prologueDeclaration => some "Use the document's declaration attribute instead."
  | notInPrologue => some "The node is not part of the prologue."
  | declarationKind =>
    some "The declaration must be a processing instruction with the target `xml`."
  | rootKind =>
    some "The document root node must be a :class:`sprig.nodes.TagNode` instance."
  | rootAttached =>
    some ("Only a detached node can be set as root. Use " ++
      ":meth:`sprig.nodes.TagNode.clone` or :meth:`sprig.nodes.TagNode.detach` " ++
      "on the designated root node.")
  | rootMissing => some "A document must have a root node."
  | bothConstraints =>
    some ("Loaders may only define one constraint atm. Please open an issue with " ++
      "a use-case description if you need to define both.")
  | assertion | noTraversal | unordered => some ""
  | loading _ | selectorGrammar | unfitValue | noMember | noKey | noIndex
  | unacceptable | fileMissing | folder | serverStatus | noConnection | invalidAddress
  | invalidRedirection | endlessRedirection | unsendable | indexTooLarge
  | danglingReference => none

end Fault

end XmlGrove
