import XmlGrove.Loading.Elements
import XmlGrove.Proofs.Grove.Ownership

/-!
# The trees that element trees stand for

What the conversion of an element tree is meant to yield, said by recursion over the element tree.
The conversion itself makes the nodes of an element before it makes what is below them: at first
there is a sketch of each node, and the elements among them are filled later.
-/

namespace XmlGrove.Loading

variable {namer : Namer} {options : ParserOptions}

/-! ## The recursion -/

/-- The text node that a text becomes, if it is kept. -/
def keptNodes (options : ParserOptions) (text : Option String) : List Tree :=
  ((keptText? options text).map Tree.text).toList

/-- The name and the attributes of the tag node that an element becomes, if they are accepted. -/
def tagOf? (namer : Namer) (name : String) (attributes : List (String × String)) :
    Option (Name × Attributes) :=
  (namer.localName name).toOption.bind fun own =>
    (namer.localAttributes attributes).toOption.bind fun given =>
      (checkedTagName (.text own)).toOption.bind fun valid =>
        (checkedAttributes {} given).toOption.map fun entries => (valid, entries)

namespace Item

/-- The leaf that another node than an element becomes, unless its kind is removed. There is no
result if its name or its content is refused. -/
def leaf? (options : ParserOptions) : Item → Option (Option Leaf)
  | comment content _ =>
    if options.removeComments then some none
    else (Leaf.comment content).checked.toOption.map some
  | instruction target content _ =>
    if options.removeInstructions then some none
    else (checkedTarget target).toOption.bind fun target =>
      (Leaf.instruction target content).checked.toOption.map some
  | entity name _ => some (some (.text s!"&{name};"))
  | element .. => none

mutual

/-- The tree that a node of an element tree stands for, unless its kind is removed. There is no
result if a name or a content in it is refused. -/
def tree? (namer : Namer) (options : ParserOptions) : Item → Option (Option Tree)
  | element name attributes text children _ =>
    (tagOf? namer name attributes).bind fun (valid, entries) =>
      (allTrees? namer options children).map fun trees =>
        some (.tag valid entries (keptNodes options text ++ trees))
  | item => (item.leaf? options).map fun leaf => leaf.map .leaf

/-- The trees that several nodes stand for, each of them in front of the text that follows it. -/
def allTrees? (namer : Namer) (options : ParserOptions) : List Item → Option (List Tree)
  | [] => some []
  | first :: rest =>
    (first.tree? namer options).bind fun tree =>
      (allTrees? namer options rest).map fun trees =>
        tree.toList ++ (keptNodes options first.tail ++ trees)

end

/-- The trees that stand for what is below a node. -/
def contents? (namer : Namer) (options : ParserOptions) (item : Item) : Option (List Tree) :=
  (allTrees? namer options item.children).map (keptNodes options item.text ++ ·)

end Item

/-! ## Sketches -/

/-- What a node is made as at first: a leaf, or a tag node that an element is to fill. -/
inductive Sketch where
  | leaf (content : Leaf)
  | element (name : Name) (attributes : Attributes) (item : Item)

namespace Sketch

def node : Sketch → Node
  | leaf content => .leaf content
  | element name attributes _ => .tag name attributes []

/-- The element that is still to fill the node. -/
def item? : Sketch → Option Item
  | leaf _ => none
  | element _ _ item => some item

theorem isBarren_node (sketch : Sketch) : sketch.node.IsBarren := by
  cases sketch with
  | leaf content => trivial
  | element name attributes item => rfl

theorem isAnchor_node (sketch : Sketch) : sketch.node.isAnchor = false := by
  cases sketch <;> rfl

/-- The tree that a sketch is completed to. -/
def tree? (namer : Namer) (options : ParserOptions) : Sketch → Option Tree
  | leaf content => some (.leaf content)
  | element name attributes item => (item.contents? namer options).map (.tag name attributes)

def allTrees? (namer : Namer) (options : ParserOptions) : List Sketch → Option (List Tree)
  | [] => some []
  | first :: rest =>
    (first.tree? namer options).bind fun tree => (allTrees? namer options rest).map (tree :: ·)

theorem allTrees?_append (former latter : List Sketch) :
    allTrees? namer options (former ++ latter) =
      (allTrees? namer options former).bind fun trees =>
        (allTrees? namer options latter).map (trees ++ ·) := by
  induction former with
  | nil =>
      rw [List.nil_append, allTrees?, Option.bind_some]
      exact (Option.map_id' (x := _)).symm
  | cons first former induction =>
      rw [List.cons_append, allTrees?, allTrees?, induction]
      cases first.tree? namer options with
      | none => rfl
      | some tree =>
          cases allTrees? namer options former with
          | none => rfl
          | some trees => cases allTrees? namer options latter <;> rfl

theorem allTrees?_eq_none {sketches : List Sketch} {sketch : Sketch} (member : sketch ∈ sketches)
    (refused : sketch.tree? namer options = none) : allTrees? namer options sketches = none := by
  induction member with
  | head rest => rw [allTrees?, refused, Option.bind_none]
  | tail first _ induction => simp [allTrees?, induction]

end Sketch

def keptSketches (options : ParserOptions) (text : Option String) : List Sketch :=
  ((keptText? options text).map fun content => Sketch.leaf (.text content)).toList

theorem allTrees?_keptSketches (text : Option String) :
    Sketch.allTrees? namer options (keptSketches options text) = some (keptNodes options text) := by
  rw [keptSketches, keptNodes]
  cases keptText? options text <;> rfl

namespace Item

/-- What a node becomes at first, unless its kind is removed. -/
def sketch? (namer : Namer) (options : ParserOptions) (item : Item) : Option (Option Sketch) :=
  match item with
  | element name attributes _ _ _ =>
    (tagOf? namer name attributes).map fun (valid, entries) => some (.element valid entries item)
  | other => (other.leaf? options).map fun leaf => leaf.map .leaf

theorem sketch?_cases {item : Item} {sketch : Sketch}
    (sketched : item.sketch? namer options = some (some sketch)) :
    (item.isElement = false ∧ ∃ content, sketch = .leaf content) ∨
      (item.isElement = true ∧ ∃ name attributes, sketch = .element name attributes item) := by
  have leaves {leaf? : Option (Option Leaf)}
      (found : leaf?.map (fun leaf => leaf.map Sketch.leaf) = some (some sketch)) :
      ∃ content, sketch = .leaf content := by
    rcases Option.map_eq_some_iff.1 found with ⟨leaf, _, equal⟩
    rcases Option.map_eq_some_iff.1 equal with ⟨content, _, rfl⟩
    exact ⟨content, rfl⟩
  cases item with
  | element name attributes text children tail =>
      rcases Option.map_eq_some_iff.1 sketched with ⟨tag, _, equal⟩
      cases equal
      exact .inr ⟨rfl, _, _, rfl⟩
  | comment content tail => exact .inl ⟨rfl, leaves sketched⟩
  | instruction target content tail => exact .inl ⟨rfl, leaves sketched⟩
  | entity name tail =>
      cases sketched
      exact .inl ⟨rfl, _, rfl⟩

def sketches? (namer : Namer) (options : ParserOptions) : List Item → Option (List Sketch)
  | [] => some []
  | first :: rest =>
    (first.sketch? namer options).bind fun sketch =>
      (sketches? namer options rest).map fun others =>
        sketch.toList ++ (keptSketches options first.tail ++ others)

/-- The tree of a node is the one that its sketch is completed to. -/
theorem map_toList_tree? (namer : Namer) (options : ParserOptions) (item : Item) :
    (item.tree? namer options).map Option.toList =
      (item.sketch? namer options).bind fun sketch =>
        Sketch.allTrees? namer options sketch.toList := by
  have leaves (leaf? : Option (Option Leaf)) :
      (leaf?.map fun leaf => leaf.map Tree.leaf).map Option.toList =
        (leaf?.map fun leaf => leaf.map Sketch.leaf).bind fun sketch =>
          Sketch.allTrees? namer options sketch.toList := by
    rcases leaf? with _ | _ | leaf <;> rfl
  cases item with
  | element name attributes text children tail =>
      rw [tree?, sketch?]
      cases tagOf? namer name attributes with
      | none => rfl
      | some tag =>
          simp only [Option.bind_some, Option.map_some, Option.toList_some, Sketch.allTrees?,
            Sketch.tree?, contents?, Item.children, Item.text]
          cases allTrees? namer options children <;> rfl
  | comment content tail => exact leaves _
  | instruction target content tail => exact leaves _
  | entity name tail => rfl

theorem tree?_eq_none {item : Item} (refused : item.sketch? namer options = none) :
    item.tree? namer options = none := by
  have own := map_toList_tree? namer options item
  rwa [refused, Option.bind_none, Option.map_eq_none_iff] at own

theorem tree?_eq_of_sketch? {item : Item} {sketch : Sketch}
    (sketched : item.sketch? namer options = some (some sketch)) :
    item.tree? namer options = (sketch.tree? namer options).map some := by
  have own := map_toList_tree? namer options item
  rw [sketched, Option.bind_some, Option.toList_some, Sketch.allTrees?] at own
  cases completed : sketch.tree? namer options with
  | none =>
      rw [completed, Option.bind_none, Option.map_eq_none_iff] at own
      rw [own]
      rfl
  | some tree =>
      rw [completed] at own
      rcases Option.map_eq_some_iff.1 own with ⟨found, equal, single⟩
      rw [equal]
      cases found with
      | none => cases single
      | some other =>
          cases single
          rfl

/-- The trees of several nodes are those that their sketches are completed to. -/
theorem allTrees?_eq (items : List Item) :
    allTrees? namer options items =
      (sketches? namer options items).bind (Sketch.allTrees? namer options) := by
  induction items with
  | nil => rfl
  | cons first rest induction =>
      have own := map_toList_tree? namer options first
      rw [allTrees?, sketches?, induction]
      cases sketched : first.sketch? namer options with
      | none =>
          rw [sketched, Option.bind_none, Option.map_eq_none_iff] at own
          rw [own]
          rfl
      | some sketch =>
          rw [sketched, Option.bind_some] at own
          cases sketches? namer options rest with
          | none => cases first.tree? namer options <;> rfl
          | some sketches =>
              simp only [Option.bind_some, Option.map_some, Sketch.allTrees?_append,
                allTrees?_keptSketches, ← own]
              cases first.tree? namer options with
              | none => rfl
              | some tree => cases Sketch.allTrees? namer options sketches <;> rfl

theorem contents?_of_sketches? {item : Item} {sketches : List Sketch}
    (sketched : sketches? namer options item.children = some sketches) :
    item.contents? namer options =
      Sketch.allTrees? namer options (keptSketches options item.text ++ sketches) := by
  rw [contents?, allTrees?_eq, sketched, Sketch.allTrees?_append, allTrees?_keptSketches]
  rfl

theorem size_eq (item : Item) : item.size = 1 + sizeOfAll item.children := by
  cases item <;> rfl

theorem sizeOfAll_append (former latter : List Item) :
    sizeOfAll (former ++ latter) = sizeOfAll former + sizeOfAll latter := by
  induction former with
  | nil => exact (Nat.zero_add _).symm
  | cons first former induction =>
      rw [List.cons_append, sizeOfAll, sizeOfAll, induction, Nat.add_assoc]

theorem sizeOfAll_reverse (items : List Item) : sizeOfAll items.reverse = sizeOfAll items := by
  induction items with
  | nil => rfl
  | cons first rest induction =>
      rw [List.reverse_cons, sizeOfAll_append, induction, Nat.add_comm]
      rfl

theorem sizeOfAll_le_of_sublist {items others : List Item} (sublist : items.Sublist others) :
    sizeOfAll items ≤ sizeOfAll others := by
  induction sublist with
  | slnil => exact Nat.le_refl _
  | cons first _ induction =>
      rw [sizeOfAll]
      omega
  | cons_cons first _ induction =>
      rw [sizeOfAll, sizeOfAll]
      omega

/-- The elements that are sketched are among the nodes that the sketches are of. -/
theorem sublist_of_sketches? {items : List Item} {sketches : List Sketch}
    (sketched : sketches? namer options items = some sketches) :
    (sketches.filterMap Sketch.item?).Sublist items := by
  induction items generalizing sketches with
  | nil =>
      cases sketched
      exact List.Sublist.refl []
  | cons first rest induction =>
      rcases Option.bind_eq_some_iff.1 sketched with ⟨sketch, own, following⟩
      rcases Option.map_eq_some_iff.1 following with ⟨others, found, rfl⟩
      have texts : (keptSketches options first.tail).filterMap Sketch.item? = [] := by
        rw [keptSketches]
        cases keptText? options first.tail <;> rfl
      rw [List.filterMap_append, List.filterMap_append, texts, List.nil_append]
      cases sketch with
      | none => exact (induction found).cons first
      | some sketch =>
          rcases sketch?_cases own with ⟨_, content, rfl⟩ | ⟨_, name, attributes, rfl⟩
          · exact (induction found).cons first
          · exact (induction found).cons_cons first

end Item

end XmlGrove.Loading
