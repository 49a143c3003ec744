import XmlGrove.Grove.Attach
import XmlGrove.Loading.Services
import XmlGrove.Text.Blank

/-!
# Converting element trees

Element trees are another representation of documents: names are qualified by
namespaces, and text is noted at the elements, as what follows their start or
their end. They are converted node by node; names lose their namespaces.
-/

namespace XmlGrove.Loading

/-- A node of an element tree, along with the text that follows it. -/
inductive Item where
  | element (name : String) (attributes : List (String × String)) (text : Option String)
      (children : List Item) (tail : Option String)
  | comment (content : String) (tail : Option String)
  | instruction (target content : String) (tail : Option String)
  | entity (name : String) (tail : Option String)

namespace Item

def tail : Item → Option String
  | element _ _ _ _ tail | comment _ tail | instruction _ _ tail | entity _ tail => tail

def children : Item → List Item
  | element _ _ _ children _ => children
  | _ => []

def text : Item → Option String
  | element _ _ text _ _ => text
  | _ => none

def isElement : Item → Bool
  | element .. => true
  | _ => false

mutual

def size : Item → Nat
  | element _ _ _ children _ => 1 + sizeOfAll children
  | comment .. | instruction .. | entity .. => 1

def sizeOfAll : List Item → Nat
  | [] => 0
  | first :: rest => first.size + sizeOfAll rest

end

end Item

def keptText? (options : ParserOptions) (text : Option String) : Option String :=
  text.filter fun content =>
    content ≠ "" && (options.preserveWhitespace || !Text.allBlank content.toList)

def Namer.localAttributes (namer : Namer) :
    List (String × String) → Except Fault (List (GivenName × Option String))
  | [] => return []
  | (name, value) :: rest => do
    let own ← namer.localName name
    let others ← namer.localAttributes rest
    return (.text own, some value) :: others

def createLocalTag (namer : Namer) (name : String) (attributes : List (String × String)) :
    Edit NodeId := do
  let own ← namer.localName name
  let given ← namer.localAttributes attributes
  createTag (.text own) given []

def checkedTarget (target : String) : Except Fault Name :=
  match Name.ofString? target with
  | some valid => .ok valid
  | none => .error (.invalidTarget target)

def convertItem (namer : Namer) (options : ParserOptions) : Item → Edit (Option NodeId)
  | .comment content _ =>
    if options.removeComments then return none
    else some <$> createLeaf (.comment content)
  | .instruction target content _ => do
    if options.removeInstructions then return none
    let target ← checkedTarget target
    some <$> createLeaf (.instruction target content)
  | .entity name _ => some <$> createLeaf (.text s!"&{name};")
  | .element name attributes _ _ _ => some <$> createLocalTag namer name attributes

def appendText (options : ParserOptions) (target : NodeId) (text : Option String) : Edit Unit :=
  match keptText? options text with
  | none => return
  | some content => do let _ ← appendChild target (.text content)

/-- Convert nodes and append them and their tails to a tag node. Yields the elements
among them, last one first, along with the tag nodes that they became. -/
def appendItems (namer : Namer) (options : ParserOptions) (target : NodeId)
    (converted : List (Item × NodeId)) : List Item → Edit (List (Item × NodeId))
  | [] => return converted
  | item :: rest => do
    match ← convertItem namer options item with
    | none =>
      appendText options target item.tail
      appendItems namer options target converted rest
    | some id =>
      let _ ← appendChild target (.node id)
      appendText options target item.tail
      if item.isElement then appendItems namer options target ((item, id) :: converted) rest
      else appendItems namer options target converted rest

/-- Fill the tag nodes that elements became, those that were met last first. The
number of elements bounds the number of rounds. -/
def fillPending (namer : Namer) (options : ParserOptions) : Nat → List (Item × NodeId) → Edit Unit
  | 0, _ | _, [] => return
  | bound + 1, (item, id) :: pending => do
    appendText options id item.text
    let converted ← appendItems namer options id [] item.children
    fillPending namer options bound (converted ++ pending)

def convertElement (namer : Namer) (options : ParserOptions) (item : Item) : Edit NodeId := do
  match item, ← convertItem namer options item with
  | .element .., some id => do
    fillPending namer options item.size [(item, id)]
    return id
  | _, _ => throw .assertion

def convertItems (namer : Namer) (options : ParserOptions) : List Item → Edit (List NodeId)
  | [] => return []
  | first :: rest => do
    let converted ← convertItem namer options first
    let others ← convertItems namer options rest
    return converted.toList ++ others

/-! ## Sources -/

structure ElementSource where
  root : Item
  before : List Item := []
  way : List Nat := []
  /-- A document is meant, along with what precedes the place. -/
  isTree : Bool := false
  /-- The XML declaration that the tree was parsed along with. -/
  header : Option String := none

/-- Follow child indices. Yields the node that they lead to and its preceding
siblings, the first one first. -/
def locate? (item : Item) (preceding : List Item) : List Nat → Option (Item × List Item)
  | [] => some (item, preceding)
  | index :: rest =>
    item.children[index]?.bind fun child => locate? child (item.children.take index) rest

end XmlGrove.Loading
