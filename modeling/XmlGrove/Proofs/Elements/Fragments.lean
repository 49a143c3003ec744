import XmlGrove.Proofs.Elements.Loop
import XmlGrove.Proofs.Elements.Markup

/-!
# Accepted element trees

Whether the conversion of an element tree succeeds depends on what is converted only: there must
be local names, these must be names, and what isn't removed must be writable. The texts of an
element tree, those that follow its nodes included, are the text nodes of the tree that it becomes,
in order and whatever is removed.
-/

namespace XmlGrove

/-! ## Texts in document order -/

namespace Tree

mutual

/-- The contents of the text nodes in a tree, in document order. -/
def texts : Tree → List String
  | leaf content => (textContent? (leaf content)).toList
  | tag _ _ children => textsOfAll children

def textsOfAll : List Tree → List String
  | [] => []
  | first :: rest => first.texts ++ textsOfAll rest

end

theorem textsOfAll_append (former latter : List Tree) :
    textsOfAll (former ++ latter) = textsOfAll former ++ textsOfAll latter := by
  induction former with
  | nil => rfl
  | cons first former induction =>
      rw [List.cons_append, textsOfAll, textsOfAll, induction, List.append_assoc]

end Tree

namespace Loading

open Grove

variable {namer : Namer} {options : ParserOptions} {grove : Grove}

/-! ## Names without namespaces -/

/-- Tell whether a local name can be told, and is a name. -/
def isLocallyNamed (namer : Namer) (name : String) : Bool :=
  (namer.localName name).toOption.any fun own => isName own.toList

theorem ofString?_eq_none {text : String} (refused : isName text.toList = false) :
    Name.ofString? text = none := by
  simp [Name.ofString?, refused]

theorem isLocallyNamed_of_ofString? {name own : String} {valid : Name}
    (told : namer.localName name = .ok own) (accepted : Name.ofString? own = some valid) :
    isLocallyNamed namer name = true := by
  cases named : isName own.toList with
  | true =>
      rw [isLocallyNamed, told]
      exact named
  | false =>
      rw [ofString?_eq_none named] at accepted
      cases accepted

theorem exists_localName {name : String} (named : isLocallyNamed namer name = true) :
    ∃ valid : Name, valid.text = unqualified name ∧ namer.localName name = .ok valid.text := by
  rw [isLocallyNamed] at named
  cases told : namer.localName name with
  | error fault =>
      rw [told] at named
      cases named
  | ok own =>
      rw [told] at named
      exact ⟨⟨own, named⟩, namer.eq_unqualified name own told, rfl⟩

theorem exists_localAttributes {attributes : List (String × String)}
    (named : (attributes.all fun (name, _) => isLocallyNamed namer name) = true) :
    ∃ entries : List (Name × String),
      entries.map (fun (name, value) => (name.text, value)) =
        attributes.map (fun (name, value) => (unqualified name, value)) ∧
      namer.localAttributes attributes =
        .ok (entries.map fun (name, value) => (.text name.text, some value)) := by
  induction attributes with
  | nil => exact ⟨[], rfl, rfl⟩
  | cons first rest induction =>
      rcases first with ⟨name, value⟩
      rw [List.all_cons, Bool.and_eq_true] at named
      obtain ⟨valid, plain, told⟩ := exists_localName named.1
      obtain ⟨entries, equal, others⟩ := induction named.2
      refine ⟨(valid, value) :: entries, ?_, ?_⟩
      · rw [List.map_cons, List.map_cons, equal]
        exact congrArg (· :: _) (Prod.ext plain rfl)
      · rw [Namer.localAttributes, told, others]
        rfl

theorem exists_of_localAttributes_cons {name value : String} {rest : List (String × String)}
    {given : List (GivenName × Option String)}
    (told : namer.localAttributes ((name, value) :: rest) = .ok given) :
    ∃ own others, namer.localName name = .ok own ∧ namer.localAttributes rest = .ok others ∧
      given = (.text own, some value) :: others := by
  rw [Namer.localAttributes] at told
  obtain ⟨own, first, told⟩ := Parse.bind_eq_ok_iff.1 told
  obtain ⟨others, further, told⟩ := Parse.bind_eq_ok_iff.1 told
  exact ⟨own, others, first, further, (Except.ok.inj told).symm⟩

/-- Attributes of which not all are locally named are refused one way or the other. -/
theorem checkedAttributes_of_refused {attributes : List (String × String)}
    (refused : (attributes.all fun (name, _) => isLocallyNamed namer name) = false)
    {given : List (GivenName × Option String)}
    (told : namer.localAttributes attributes = .ok given) (former : Attributes) :
    ∃ fault, checkedAttributes former given = .error fault := by
  induction attributes generalizing given former with
  | nil => cases refused
  | cons first rest induction =>
      rcases first with ⟨name, value⟩
      obtain ⟨own, others, first, further, rfl⟩ := exists_of_localAttributes_cons told
      rw [checkedAttributes, checkedAttributeName, GivenName.check]
      cases accepted : Name.ofString? own with
      | none => exact ⟨_, rfl⟩
      | some valid =>
          have named := isLocallyNamed_of_ofString? first accepted
          simp only [List.all_cons, named, Bool.true_and] at refused
          exact induction refused further (former.set valid value)

theorem tagOf?_of_named {name : String} {attributes : List (String × String)}
    (named : isLocallyNamed namer name = true)
    (attributesNamed : (attributes.all fun (name, _) => isLocallyNamed namer name) = true) :
    ∃ (valid : Name) (entries : List (Name × String)), valid.text = unqualified name ∧
      entries.map (fun (name, value) => (name.text, value)) =
        attributes.map (fun (name, value) => (unqualified name, value)) ∧
      tagOf? namer name attributes = some (valid, .ofList entries) := by
  obtain ⟨valid, plain, told⟩ := exists_localName named
  obtain ⟨entries, equal, given⟩ := exists_localAttributes attributesNamed
  refine ⟨valid, entries, plain, equal, ?_⟩
  rw [tagOf?, told, given]
  simp only [Except.toOption, Option.bind_some, checkedTagName, GivenName.check,
    Name.ofString?_text, Parse.checkedAttributes_text]
  rfl

theorem tagOf?_of_refused {name : String} {attributes : List (String × String)}
    (refused : (isLocallyNamed namer name &&
      attributes.all fun (name, _) => isLocallyNamed namer name) = false) :
    tagOf? namer name attributes = none := by
  rw [tagOf?]
  cases first : namer.localName name with
  | error fault => rfl
  | ok own =>
      cases told : namer.localAttributes attributes with
      | error fault => rfl
      | ok given =>
          simp only [Except.toOption, Option.bind_some, checkedTagName, GivenName.check]
          cases accepted : Name.ofString? own with
          | none => rfl
          | some valid =>
              rw [isLocallyNamed_of_ofString? first accepted, Bool.true_and] at refused
              obtain ⟨fault, failed⟩ := checkedAttributes_of_refused refused told {}
              rw [failed]
              rfl

/-! ## Acceptance -/

namespace Item

mutual

/-- Tell whether no name and no content of what is to be kept is refused. -/
def isAcceptable (namer : Namer) (options : ParserOptions) : Item → Bool
  | element name attributes _ children _ =>
    isLocallyNamed namer name && (attributes.all fun (name, _) => isLocallyNamed namer name) &&
      areAcceptable namer options children
  | comment content _ => options.removeComments || (Leaf.comment content).isWritable
  | instruction target content _ =>
    options.removeInstructions ||
      (isName target.toList && !Leaf.isTerminatedBy .instruction content)
  | entity .. => true

def areAcceptable (namer : Namer) (options : ParserOptions) : List Item → Bool
  | [] => true
  | first :: rest => first.isAcceptable namer options && areAcceptable namer options rest

end

theorem isSome_map_checked (content : Leaf) :
    (content.checked.toOption.map some).isSome = content.isWritable := by
  cases checked : content.checked with
  | ok accepted =>
      rw [(Leaf.checked_eq_ok_iff.1 checked).2]
      rfl
  | error fault =>
      cases writable : content.isWritable with
      | false => rfl
      | true =>
          rw [Leaf.checked_eq_ok_iff.2 ⟨rfl, writable⟩] at checked
          cases checked

/-- There is a leaf, or none is wanted, exactly if a node that isn't an element is acceptable. -/
theorem isSome_leaf? {item : Item} (leaf : item.isElement = false) :
    (item.leaf? options).isSome = item.isAcceptable namer options := by
  cases item with
  | element name attributes text children tail => cases leaf
  | comment content tail =>
      rw [leaf?, isAcceptable]
      cases options.removeComments with
      | true => rfl
      | false => exact isSome_map_checked _
  | instruction target content tail =>
      rw [leaf?, isAcceptable]
      cases options.removeInstructions with
      | true => rfl
      | false =>
          rw [checkedTarget, Bool.false_or]
          cases named : isName target.toList with
          | false =>
              rw [ofString?_eq_none named]
              rfl
          | true =>
              rw [Name.ofString?, dif_pos named]
              exact isSome_map_checked _
  | entity name tail => rfl

mutual

/-- There is a tree that a node stands for, or none is wanted, exactly if it is acceptable. -/
theorem isSome_tree? : (item : Item) →
    (item.tree? namer options).isSome = item.isAcceptable namer options
  | element name attributes text children tail => by
      rw [tree?, isAcceptable, ← isSome_allTrees? children]
      cases named : (isLocallyNamed namer name &&
          attributes.all fun (name, _) => isLocallyNamed namer name) with
      | false =>
          rw [tagOf?_of_refused named]
          rfl
      | true =>
          obtain ⟨ownNamed, attributesNamed⟩ := Bool.and_eq_true_iff.1 named
          obtain ⟨valid, entries, -, -, tagged⟩ := tagOf?_of_named ownNamed attributesNamed
          rw [tagged, Option.bind_some, Option.isSome_map, Bool.true_and]
  | comment content tail => by
      rw [tree?, Option.isSome_map, isSome_leaf? rfl]
      nofun
  | instruction target content tail => by
      rw [tree?, Option.isSome_map, isSome_leaf? rfl]
      nofun
  | entity name tail => rfl

theorem isSome_allTrees? : (items : List Item) →
    (allTrees? namer options items).isSome = areAcceptable namer options items
  | [] => rfl
  | first :: rest => by
      rw [allTrees?, areAcceptable, ← isSome_tree? first, ← isSome_allTrees? rest]
      cases first.tree? namer options <;> cases allTrees? namer options rest <;> rfl

end

/-! ## Fragments -/

mutual

/-- The texts that are kept of a node, apart from the one that follows it, in document order.
What is removed has none of its own, but what follows it counts. -/
def fragments (options : ParserOptions) : Item → List String
  | element _ _ text children _ =>
    (keptText? options text).toList ++ fragmentsOfAll options children
  | comment .. | instruction .. => []
  | entity name _ => [s!"&{name};"]

/-- The texts that are kept of several nodes, each with the one that follows it. -/
def fragmentsOfAll (options : ParserOptions) : List Item → List String
  | [] => []
  | first :: rest =>
    first.fragments options ++ ((keptText? options first.tail).toList ++
      fragmentsOfAll options rest)

end

theorem textsOfAll_keptNodes (text : Option String) :
    Tree.textsOfAll (keptNodes options text) = (keptText? options text).toList := by
  rw [keptNodes]
  cases keptText? options text <;> rfl

/-- A comment or an instruction has no fragments, and what it becomes no texts. -/
theorem texts_of_leaf? {item : Item} {leaf : Option Leaf} (found : item.leaf? options = some leaf) :
    Tree.textsOfAll (leaf.map Tree.leaf).toList = item.fragments options := by
  have accepted {content : Leaf} (found : content.checked.toOption.map some = some leaf) :
      leaf = some content := by
    cases checked : content.checked with
    | error fault =>
        rw [checked] at found
        cases found
    | ok other =>
        rw [checked] at found
        cases found
        rw [(Leaf.checked_eq_ok_iff.1 checked).1]
  cases item with
  | element name attributes text children tail => cases found
  | comment content tail =>
      rw [leaf?] at found
      split at found
      · cases found
        rfl
      · rw [accepted found]
        rfl
  | instruction target content tail =>
      rw [leaf?] at found
      split at found
      · cases found
        rfl
      · obtain ⟨valid, -, found⟩ := Option.bind_eq_some_iff.1 found
        rw [accepted found]
        rfl
  | entity name tail =>
      cases found
      rfl

mutual

/-- The text nodes of a tree are the fragments of the node that it stands for, and where none
is wanted there are no fragments. -/
theorem texts_of_tree? : (item : Item) → {tree : Option Tree} →
    item.tree? namer options = some tree → Tree.textsOfAll tree.toList = item.fragments options
  | element name attributes text children tail, tree, stands => by
      rw [tree?] at stands
      obtain ⟨⟨valid, entries⟩, -, stands⟩ := Option.bind_eq_some_iff.1 stands
      obtain ⟨trees, below, rfl⟩ := Option.map_eq_some_iff.1 stands
      rw [fragments, ← textsOfAll_of_allTrees? children below, ← textsOfAll_keptNodes,
        ← Tree.textsOfAll_append]
      exact List.append_nil _
  | comment content tail, tree, stands => by
      obtain ⟨leaf, found, rfl⟩ := Option.map_eq_some_iff.1 stands
      exact texts_of_leaf? found
  | instruction target content tail, tree, stands => by
      obtain ⟨leaf, found, rfl⟩ := Option.map_eq_some_iff.1 stands
      exact texts_of_leaf? found
  | entity name tail, tree, stands => by
      cases stands
      rfl

theorem textsOfAll_of_allTrees? : (items : List Item) → {trees : List Tree} →
    allTrees? namer options items = some trees →
      Tree.textsOfAll trees = fragmentsOfAll options items
  | [], trees, stands => by
      cases stands
      rfl
  | first :: rest, trees, stands => by
      rw [allTrees?] at stands
      obtain ⟨tree, own, stands⟩ := Option.bind_eq_some_iff.1 stands
      obtain ⟨others, following, rfl⟩ := Option.map_eq_some_iff.1 stands
      rw [fragmentsOfAll, Tree.textsOfAll_append, Tree.textsOfAll_append, textsOfAll_keptNodes,
        texts_of_tree? first own, textsOfAll_of_allTrees? rest following]

end

/-! ## The nodes of an element tree -/

/-- The tree that an acceptable node stands for, unless its kind is removed. -/
def nodes (namer : Namer) (options : ParserOptions) (item : Item) : List Tree :=
  (item.tree? namer options).join.toList

/-- What is below an element, node by node. -/
theorem allTrees?_eq_flatMap {items : List Item} {trees : List Tree}
    (stands : allTrees? namer options items = some trees) :
    trees = items.flatMap fun item => item.nodes namer options ++ keptNodes options item.tail := by
  induction items generalizing trees with
  | nil =>
      cases stands
      rfl
  | cons first rest induction =>
      rw [allTrees?] at stands
      obtain ⟨tree, own, stands⟩ := Option.bind_eq_some_iff.1 stands
      obtain ⟨others, following, rfl⟩ := Option.map_eq_some_iff.1 stands
      rw [List.flatMap_cons, ← induction following, nodes, own, List.append_assoc]
      rfl

/-- The tree of an element has the local names of the element, and its children are what the
contents of the element become, in order. -/
theorem tree?_element {name : String} {attributes : List (String × String)} {text : Option String}
    {children : List Item} {tail : Option String} {tree : Option Tree}
    (stands : (element name attributes text children tail).tree? namer options = some tree) :
    ∃ (valid : Name) (entries : List (Name × String)), valid.text = unqualified name ∧
      entries.map (fun (name, value) => (name.text, value)) =
        attributes.map (fun (name, value) => (unqualified name, value)) ∧
      tree = some (.tag valid (.ofList entries) (keptNodes options text ++
        children.flatMap fun child =>
          child.nodes namer options ++ keptNodes options child.tail)) := by
  rw [tree?] at stands
  cases named : (isLocallyNamed namer name &&
      attributes.all fun (name, _) => isLocallyNamed namer name) with
  | false =>
      rw [tagOf?_of_refused named] at stands
      cases stands
  | true =>
      obtain ⟨ownNamed, attributesNamed⟩ := Bool.and_eq_true_iff.1 named
      obtain ⟨valid, entries, local_, pairs, tagged⟩ := tagOf?_of_named ownNamed attributesNamed
      rw [tagged, Option.bind_some] at stands
      obtain ⟨trees, below, rfl⟩ := Option.map_eq_some_iff.1 stands
      refine ⟨valid, entries, local_, pairs, ?_⟩
      rw [allTrees?_eq_flatMap below]

end Item

/-! ## Conversion -/

/-- The conversion of an element yields the node that it makes first. -/
theorem convertElement_nextId (namer : Namer) (options : ParserOptions) (item : Item) :
    Edit.Ensures (convertElement namer options item) grove (fun id _ => id = grove.nextId)
      (fun _ => True) := by
  rw [convertElement]
  apply Edit.Ensures.bind
  apply (convertItem_draws item).mono
  · rintro found middle ⟨sketch, sketched, drawn⟩
    cases item with
    | comment content tail => exact Edit.ensures_throw trivial
    | instruction target content tail => exact Edit.ensures_throw trivial
    | entity name tail => exact Edit.ensures_throw trivial
    | element name attributes text children tail =>
        rcases Option.map_eq_some_iff.1 sketched with ⟨tag, -, rfl⟩
        rcases drawn with ⟨rfl, -⟩
        apply Edit.Ensures.bind
        rw [Edit.Ensures]
        split
        · exact Edit.ensures_pure rfl
        · trivial
  · intro _ _
    trivial

/-- An element is converted, by its loop, to what the recursion over the element yields: a new tag
node with the local names, whose children are the text of the element and then, for each node
below it, what that node becomes and the text that follows it, as far as they are kept. No text
of the element is lost thereby. It fails exactly if a local name can't be told, or a name or a
content is refused. -/
theorem convertElement_recursive (namer : Namer) (name : String)
    (attributes : List (String × String)) (text : Option String) (children : List Item)
    (tail : Option String) (sound : grove.Sound) :
    ((Item.element name attributes text children tail).isAcceptable namer options = true →
      ∃ id last valid entries,
        (convertElement namer options (.element name attributes text children tail)).outcome grove =
          (.ok id, last) ∧
        id = grove.nextId ∧ Enlarged grove last ∧
        valid.text = unqualified name ∧
        entries.map (fun (name, value) => (name.text, value)) =
          attributes.map (fun (name, value) => (unqualified name, value)) ∧
        ∃ tree, last.view? id = some tree ∧
          tree = .tag valid (.ofList entries) (keptNodes options text ++
            children.flatMap fun child =>
              child.nodes namer options ++ keptNodes options child.tail) ∧
          tree.texts = (Item.element name attributes text children tail).fragments options) ∧
    ((Item.element name attributes text children tail).isAcceptable namer options = false →
      ∃ fault last,
        (convertElement namer options (.element name attributes text children tail)).outcome grove =
          (.error fault, last)) := by
  have converted := (Edit.Ensures.and (convertElement_shows
    (.element name attributes text children tail) sound)
    (convertElement_nextId namer options
      (.element name attributes text children tail))).with_outcome
  constructor
  · intro acceptable
    obtain ⟨id, last, -, ⟨⟨enlarged, tree, -, stands, shown⟩, new⟩, succeeded⟩ :=
      converted.exists_ok (by
        rintro last ⟨⟨other | refused, -⟩, -⟩
        · cases other
        · rw [← Item.isSome_tree?, refused] at acceptable
          cases acceptable)
    obtain ⟨valid, entries, named, pairs, equal⟩ := Item.tree?_element stands
    refine ⟨id, last, valid, entries, succeeded, new, enlarged, named, pairs, tree, shown,
      Option.some.inj equal, ?_⟩
    rw [← Item.texts_of_tree? _ stands]
    exact (List.append_nil _).symm
  · intro refused
    rw [Edit.Ensures] at converted
    split at converted
    · obtain ⟨⟨⟨-, tree, -, stands, -⟩, -⟩, -⟩ := converted
      rw [← Item.isSome_tree?, stands] at refused
      cases refused
    · exact ⟨_, _, ‹_›⟩

/-- Namespaces, a comment and blank text are dropped, what follows the comment is kept. -/
theorem convertElement_recursive_mixed :
    ({} : Grove).Sound ∧
    ∃ id last,
      (convertElement .standard { removeComments := true, preserveWhitespace := false }
        (.element "\x7burn:x\x7da" [("\x7burn:y\x7dk", "v")] (some "x")
          [.comment "c" (some "y"), .element "b" [] none [] (some " ")] none)).outcome {} =
        (.ok id, last) ∧
      last.view? id = some (.tag ⟨"a", by decide⟩ (.ofList [(⟨"k", by decide⟩, "v")])
        [.text "x", .text "y", .tag ⟨"b", by decide⟩ (.ofList []) []]) := by
  have acceptable : (Item.element "\x7burn:x\x7da" [("\x7burn:y\x7dk", "v")] (some "x")
      [.comment "c" (some "y"), .element "b" [] none [] (some " ")] none).isAcceptable
        .standard { removeComments := true, preserveWhitespace := false } = true := by decide +kernel
  obtain ⟨id, last, valid, entries, succeeded, -, -, named, pairs, tree, shown, rfl, -⟩ :=
    (convertElement_recursive .standard _ _ _ _ _ sound_empty).1 acceptable
  obtain ⟨⟨key, value⟩, rfl, equal⟩ := List.map_eq_singleton_iff.1 pairs
  refine ⟨sound_empty, id, last, succeeded, ?_⟩
  have own : valid = ⟨"a", by decide⟩ := Name.ext named
  have entry : (key, value) = (⟨"k", by decide⟩, "v") := by
    rw [Prod.mk.injEq] at equal
    exact Prod.ext (Name.ext equal.1) equal.2
  rw [shown, own, entry]
  rfl

end Loading

end XmlGrove
