import XmlGrove.Attributes
import XmlGrove.Leaf

/-!
# Trees

A tree is a node with everything below it, as a plain value: without identity
and without a place in a larger tree. Parsing yields trees, writing consumes
them, and the nodes of a grove are looked at as trees.
-/

namespace XmlGrove

inductive Tree where
  | leaf (content : Leaf)
  | tag (name : Name) (attributes : Attributes) (children : List Tree)

namespace Tree

def kind : Tree → NodeKind
  | leaf content => content.kind
  | tag .. => .tag

def children : Tree → List Tree
  | leaf _ => []
  | tag _ _ children => children

abbrev text (content : String) : Tree := leaf (.text content)

def isText : Tree → Bool
  | leaf (.text _) => true
  | _ => false

def isTag : Tree → Bool
  | tag .. => true
  | leaf _ => false

mutual

def size : Tree → Nat
  | leaf _ => 1
  | tag _ _ children => 1 + sizeOfAll children

def sizeOfAll : List Tree → Nat
  | [] => 0
  | first :: rest => first.size + sizeOfAll rest

end

/-! ## Checking

The contents of leaves are checked whenever nodes are constructed. -/

mutual

def checked : Tree → Except Fault Tree
  | leaf content => content.checked.map leaf
  | tag name attributes children => (checkedAll children).map (tag name attributes)

def checkedAll : List Tree → Except Fault (List Tree)
  | [] => .ok []
  | first :: rest => do
    let tree ← first.checked
    let trees ← checkedAll rest
    return tree :: trees

end

mutual

/-- Tell whether each leaf of a tree is writable, as it is checked whenever a leaf is made and
whenever its content is set. -/
def isWritable : Tree → Bool
  | leaf content => content.isWritable
  | tag _ _ children => areWritable children

def areWritable : List Tree → Bool
  | [] => true
  | first :: rest => first.isWritable && areWritable rest

end

mutual

theorem checked_eq_ok_iff {tree accepted : Tree} :
    tree.checked = .ok accepted ↔ tree = accepted ∧ tree.isWritable = true := by
  cases tree with
  | leaf content =>
      rw [checked, isWritable]
      cases equal : content.checked with
      | error fault =>
          have refused : content.isWritable ≠ true := by
            intro writable
            rw [Leaf.checked_eq_ok_iff.2 ⟨rfl, writable⟩] at equal
            cases equal
          simp [Except.map, refused]
      | ok other =>
          rcases Leaf.checked_eq_ok_iff.1 equal with ⟨rfl, writable⟩
          simp [Except.map, writable]
  | tag name attributes children =>
      rw [checked, isWritable]
      cases equal : checkedAll children with
      | error fault =>
          have refused : areWritable children ≠ true := by
            intro writable
            rw [checkedAll_eq_ok_iff.2 ⟨rfl, writable⟩] at equal
            cases equal
          simp [Except.map, refused]
      | ok others =>
          rcases checkedAll_eq_ok_iff.1 equal with ⟨rfl, writable⟩
          simp [Except.map, writable]

theorem checkedAll_eq_ok_iff {trees accepted : List Tree} :
    checkedAll trees = .ok accepted ↔ trees = accepted ∧ areWritable trees = true := by
  cases trees with
  | nil => simp [checkedAll, areWritable]
  | cons first rest =>
      rw [checkedAll, areWritable, Bool.and_eq_true]
      cases equal : first.checked with
      | error fault =>
          have refused : first.isWritable ≠ true := by
            intro writable
            rw [checked_eq_ok_iff.2 ⟨rfl, writable⟩] at equal
            cases equal
          simp [bind, Except.bind, refused]
      | ok tree =>
          rcases checked_eq_ok_iff.1 equal with ⟨rfl, writable⟩
          cases others : checkedAll rest with
          | error fault =>
              have refused : areWritable rest ≠ true := by
                intro writable
                rw [checkedAll_eq_ok_iff.2 ⟨rfl, writable⟩] at others
                cases others
              simp [bind, Except.bind, refused]
          | ok trees =>
              rcases checkedAll_eq_ok_iff.1 others with ⟨rfl, remaining⟩
              simp [bind, Except.bind, pure, Except.pure, writable, remaining]

end

/-! ## Outlines

The outline of a tree lists its nodes in document order, each with its depth. -/

inductive Label where
  | leaf (content : Leaf)
  | tag (name : Name) (attributes : Attributes)
  deriving Repr, DecidableEq

def label : Tree → Label
  | leaf content => .leaf content
  | tag name attributes _ => .tag name attributes

mutual

/-- The nodes of a tree in document order, with their depths below a given one. -/
def outlineFrom (depth : Nat) : Tree → List (Nat × Label)
  | leaf content => [(depth, .leaf content)]
  | tag name attributes children =>
    (depth, .tag name attributes) :: outlineOfAll (depth + 1) children

def outlineOfAll (depth : Nat) : List Tree → List (Nat × Label)
  | [] => []
  | first :: rest => first.outlineFrom depth ++ outlineOfAll depth rest

end

def outline (tree : Tree) : List (Nat × Label) :=
  tree.outlineFrom 0

example :
    (tag ⟨"a", by decide⟩ {} [text "x", tag ⟨"b", by decide⟩ {} []]).outline =
      [(0, .tag ⟨"a", by decide⟩ {}), (1, .leaf (.text "x")),
        (1, .tag ⟨"b", by decide⟩ {})] := rfl

/-! ## Texts -/

def textContent? : Tree → Option String
  | leaf (.text content) => some content
  | _ => none

mutual

def fullText : Tree → String
  | leaf (.text content) => content
  | leaf _ => ""
  | tag _ _ children => fullTextOfAll children

def fullTextOfAll : List Tree → String
  | [] => ""
  | first :: rest => first.fullText ++ fullTextOfAll rest

end

end Tree

end XmlGrove
