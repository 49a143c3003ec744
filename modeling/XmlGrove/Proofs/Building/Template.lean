import XmlGrove.Proofs.Building.Construction
import XmlGrove.Proofs.Grove.Instantiation

/-!
# Templates of trees

What a tag shows can be defined by a template: a text by itself, another leaf by a clone of it, and
a tag by a template with the definitions of its children. What the definition says stays the same
while more is defined.
-/

namespace XmlGrove

open Grove Activity

/-! ## Settled values -/

namespace Value

variable {hold : ObjectId → Value} {attributesAt : AttributesPlace → Attributes}

theorem settleAll_eq_map (items : List Value) :
    settleAll hold attributesAt items = items.map (settle hold attributesAt) := by
  induction items with
  | nil => rw [settleAll, List.map_nil]
  | cons first rest induction => rw [settleAll, induction, List.map_cons]

theorem settleEntries_entriesOf (attributes : Attributes) :
    settleEntries hold attributesAt (entriesOf attributes) = entriesOf attributes := by
  rw [entriesOf]
  induction attributes.pairs with
  | nil => rw [List.map_nil, settleEntries]
  | cons first rest induction =>
      rw [List.map_cons, settleEntries, induction, settle, settle]
      all_goals simp

end Value

open Value

namespace Script

variable {workspace middle last : Workspace} {name : Name} {attributes : Attributes}

/-! ## Workspaces that are extended -/

/-- A workspace has further nodes and objects, and everything else is as it was. -/
structure Extended (before after : Workspace) : Prop where
  grove : Enlarged before.grove after.grove
  objects : ∀ {id : Nat} {value : Value}, before.objects[id]? = some value → after.objects[id]? = some value

theorem Extended.refl (workspace : Workspace) : Extended workspace workspace :=
  ⟨.refl _, id⟩

theorem Extended.trans (former : Extended workspace middle) (latter : Extended middle last) :
    Extended workspace last :=
  ⟨former.grove.trans latter.grove, fun present => latter.objects (former.objects present)⟩

theorem extended_of_enlarged {grove : Grove} (enlarged : Enlarged workspace.grove grove) :
    Extended workspace { workspace with grove := grove } :=
  ⟨enlarged, id⟩

theorem settled_object {id : Nat}
    (present : workspace.objects[id]? = some (.mapping (entriesOf attributes))) :
    workspace.settled (.object ⟨id⟩) = .mapping (entriesOf attributes) := by
  have inside : id < workspace.objects.size := (Array.getElem?_eq_some_iff.1 present).1
  obtain ⟨bound, size⟩ : ∃ bound, workspace.objects.size = bound + 1 :=
    ⟨workspace.objects.size - 1, by omega⟩
  rw [Workspace.settled, settle, size, Workspace.settledWithin, Workspace.held, present,
    Option.getD_some, settle, settleEntries_entriesOf]

/-! ## What values define -/

/-- A value defines a node that shows a tree, and goes on doing so. -/
structure Defines (workspace : Workspace) (value : Value) (tree : Tree) (held : List NodeId) :
    Prop where
  single : isSingleSource value = true
  makes : ∀ {later}, Extended workspace later →
    later.grove.Makes (later.sourceOf (later.settled value)) tree
  nodes : ∀ {later}, Extended workspace later →
    (later.sourceOf (later.settled value)).nodes = held

/-- Several values define nodes that show several trees, and go on doing so. -/
structure DefinesAll (workspace : Workspace) (values : List Value) (trees : List Tree)
    (held : List NodeId) : Prop where
  single : values.all isSingleSource = true
  makes : ∀ {later}, Extended workspace later →
    later.grove.MakesAll (later.sourcesOf (values.map later.settled)) trees
  nodes : ∀ {later}, Extended workspace later →
    Source.allNodes (later.sourcesOf (values.map later.settled)) = held

variable {value : Value} {values : List Value} {tree : Tree} {trees : List Tree}
  {held more : List NodeId}

theorem Defines.keep (defines : Defines workspace value tree held)
    (extended : Extended workspace last) : Defines last value tree held where
  single := defines.single
  makes further := defines.makes (extended.trans further)
  nodes further := defines.nodes (extended.trans further)

theorem DefinesAll.keep (defines : DefinesAll workspace values trees held)
    (extended : Extended workspace last) : DefinesAll last values trees held where
  single := defines.single
  makes further := defines.makes (extended.trans further)
  nodes further := defines.nodes (extended.trans further)

theorem defines_text (workspace : Workspace) (content : String) :
    Defines workspace (.text content) (.leaf (.text content)) [] where
  single := rfl
  makes _ := .text content
  nodes _ := rfl

theorem defines_node {id : NodeId} {content : Leaf}
    (present : workspace.grove.node? id = some (.leaf content)) :
    Defines workspace (.node id) (.leaf content) [id] where
  single := rfl
  makes extended := by
    apply Makes.node
    rw [Grown.node? extended.grove (has_of_node? present) fun fills => fills, present]
  nodes _ := rfl

theorem definesAll_nil (workspace : Workspace) : DefinesAll workspace [] [] [] where
  single := rfl
  makes _ := .nil
  nodes _ := rfl

theorem DefinesAll.cons (first : Defines workspace value tree held)
    (rest : DefinesAll workspace values trees more) :
    DefinesAll workspace (value :: values) (tree :: trees) (held ++ more) where
  single := by rw [List.all_cons, first.single, rest.single, Bool.and_self]
  makes extended := by
    rw [List.map_cons, Workspace.sourcesOf]
    exact .cons (first.makes extended) (rest.makes extended)
  nodes extended := by
    rw [List.map_cons, Workspace.sourcesOf, Source.allNodes, first.nodes extended,
      rest.nodes extended]

theorem DefinesAll.template {id : Nat}
    (each : DefinesAll workspace values trees held)
    (present : workspace.objects[id]? = some (.mapping (entriesOf attributes))) :
    Defines workspace (.template (.text name.text) (.object ⟨id⟩) values)
      (.tag name attributes trees) held := by
  have source : ∀ {later}, Extended workspace later →
      later.sourceOf (later.settled (.template (.text name.text) (.object ⟨id⟩) values)) =
        .template (.define (.text name.text) (later.attributeEntries (entriesOf attributes))
          (later.sourcesOf (values.map later.settled))) := by
    intro later extended
    have settled : later.settled (.template (.text name.text) (.object ⟨id⟩) values) =
        .template (.text name.text) (later.settled (.object ⟨id⟩))
          (settleAll (later.settledWithin later.objects.size) later.attributesAt values) := rfl
    rw [settled, settled_object (extended.objects present), Workspace.sourceOf, settleAll_eq_map]
    rfl
  constructor
  · rfl
  · intro later extended
    rw [source extended]
    apply Makes.template _ _ (each.makes extended)
    · rw [checkedTagName, GivenName.check, Name.ofString?_text]
    · rw [attributeEntries_entriesOf, Parse.checkedAttributes_pairs]
  · intro later extended
    rw [source extended, Source.nodes, Template.nodes, each.nodes extended]

/-! ## Defining templates -/

theorem outcome_forM_attributeValue (attributes : Attributes) :
    outcome ((entriesOf attributes).forM fun (_, content) => do let _ ← attributeValue content)
      workspace = (.ok ⟨⟩, workspace) := by
  rw [entriesOf]
  induction attributes.pairs with
  | nil => rfl
  | cons first rest induction => exact induction

/-- The attributes of a tag are held by a new object. -/
theorem outcome_templateAttributes {id : NodeId} {other : Name}
    (known : workspace.grove.tag? id = some (other, attributes)) :
    outcome (templateAttributes (.attributesOf (.tag id))) workspace =
      (.ok (.object ⟨workspace.objects.size⟩),
        { workspace with objects := workspace.objects.push (.mapping (entriesOf attributes)) }) := by
  have looked : outcome get workspace = (.ok workspace, workspace) := rfl
  rw [templateAttributes, outcome_bind_of_ok looked, entries?_attributesOf known]
  dsimp only
  rw [outcome_bind_of_ok (outcome_forM_attributeValue attributes)]
  rfl

/-- A template takes over the attributes of a tag. -/
theorem newTemplate_yields {id : NodeId} {other : Name} (name : Name)
    (known : workspace.grove.tag? id = some (other, attributes))
    (each : DefinesAll workspace values trees held) :
    Yields (newTemplate [.text name.text, .attributesOf (.tag id), .list values]) workspace
      fun value last => Extended workspace last ∧ last.grove = workspace.grove ∧
        Defines last value (.tag name attributes trees) held := by
  have children : outcome (templateSources (.list values)) workspace =
      (.ok (some (templateChildren values)), workspace) := rfl
  have extended : Extended workspace
      { workspace with objects := workspace.objects.push (.mapping (entriesOf attributes)) } := by
    refine ⟨.refl _, ?_⟩
    intro index value present
    have inside := (Array.getElem?_eq_some_iff.1 present).1
    rw [Array.getElem?_push_lt inside]
    exact (Array.getElem?_eq_getElem inside).symm.trans present
  rw [newTemplate]
  apply Ensures.bind_of_ok children
  apply Ensures.bind_of_ok (outcome_templateAttributes known)
  rw [templateChildren, if_pos each.single, pure_bind]
  apply ensures_pure
  refine ⟨extended, rfl, ?_⟩
  exact (each.keep extended).template Array.getElem?_push_size

/-! ## Defining what nodes show -/

/-- Define what a node shows, as far as a bound on the depth allows: a text as it is, another leaf
by a clone, and a tag by a template with the definitions of its children. -/
def defineWithin (source : Grove) : Nat → NodeId → Action Value
  | 0, _ => throw .noMember
  | bound + 1, id =>
    match source.node? id with
    | some (.leaf (.text content)) => return .text content
    | some (.leaf _) => return .node (← edit (cloneNode true id))
    | some (.tag name _ children) => do
      let values ← children.mapM (defineWithin source bound)
      newTemplate [.text name.text, .attributesOf (.tag id), .list values]
    | _ => throw .noMember

/-- Define what a node shows. -/
def define (id : NodeId) : Action Value := do
  let grove ← currentGrove
  defineWithin grove (grove.entries.size + 1) id

/-- From some workspace on, a value came to define a tree by means of new nodes. -/
structure Defined (start : Workspace) (tree : Tree) (value : Value) (last : Workspace) : Prop where
  extended : Extended start last
  defines : ∃ held, Defines last value tree held ∧ last.grove.Stocks held ∧
    ∀ id ∈ held, ¬ start.grove.Has id

/-- From some workspace on, several values came to define trees by means of new nodes. -/
structure DefinedAll (start : Workspace) (trees : List Tree) (values : List Value)
    (last : Workspace) : Prop where
  extended : Extended start last
  defines : ∃ held, DefinesAll last values trees held ∧ last.grove.Stocks held ∧
    ∀ id ∈ held, ¬ start.grove.Has id

variable {source : Grove} {bound : Nat} {id : NodeId} {content : Leaf}

theorem Extended.retained (extended : Extended workspace last)
    (retained : Retained source workspace.grove) : Retained source last.grove :=
  retained.trans extended.grove.retained

theorem definedAll_nil (workspace : Workspace) : DefinedAll workspace [] [] workspace where
  extended := .refl workspace
  defines := ⟨[], definesAll_nil workspace, ⟨by simp, List.nodup_nil⟩, by simp⟩

/-- The nodes by which more is defined later are further ones. -/
theorem DefinedAll.cons (first : Defined workspace tree value middle)
    (rest : DefinedAll middle trees values last) :
    DefinedAll workspace (tree :: trees) (value :: values) last where
  extended := first.extended.trans rest.extended
  defines := by
    rcases first.defines with ⟨held, former, stocks, recent⟩
    rcases rest.defines with ⟨more, latter, others, later⟩
    refine ⟨held ++ more, .cons (former.keep rest.extended) latter, ?_, ?_⟩
    · apply (stocks.keep rest.extended.grove).append others
      intro id member again
      exact later id again (stocks.free id member).1
    · intro id member
      rcases List.mem_append.1 member with within | beyond
      · exact recent id within
      · exact fun has => later id beyond (Grown.has first.extended.grove has)

theorem defined_leaf (present : workspace.grove.node? id = some (.leaf content))
    (writable : content.isWritable = true) :
    Yields (do return .node (← edit (cloneNode true id)) : Action Value) workspace
      (Defined workspace (.leaf content)) := by
  have enlarged : Enlarged workspace.grove (workspace.grove.add ⟨.leaf content, none⟩) :=
    enlarged_add trivial rfl
  apply Ensures.bind
  apply edit_ensures
  apply (cloneNode_leaf_yields present writable).mono
  rintro _ _ ⟨rfl, rfl⟩
  apply ensures_pure
  refine ⟨extended_of_enlarged enlarged, [workspace.grove.nextId], ?_, ?_, ?_⟩
  · exact defines_node node?_nextId_add
  · exact stocks_nextId_add
  · intro id member
    rw [List.mem_singleton.1 member]
    exact not_has_nextId

theorem mapM_defines {activity : NodeId → Action Value} {children : List NodeId}
    (retained : Retained source workspace.grove)
    (define : ∀ {workspace : Workspace} {id tree}, source.viewWithin bound id = some tree →
      Retained source workspace.grove → Yields (activity id) workspace (Defined workspace tree))
    (seen : List.Forall₂ (fun id tree => source.viewWithin bound id = some tree) children trees) :
    Yields (children.mapM activity) workspace (DefinedAll workspace trees) := by
  induction seen generalizing workspace with
  | nil => exact ensures_pure (definedAll_nil workspace)
  | cons first rest induction =>
      rw [List.mapM_cons]
      apply (define first retained).andThen
      intro value middle defined
      apply (induction (defined.extended.retained retained)).andThen
      intro values last others
      exact ensures_pure (.cons defined others)

theorem defineWithin_yields (writable : source.Writable) (retained : Retained source workspace.grove)
    (seen : source.viewWithin bound id = some tree) :
    Yields (defineWithin source bound id) workspace (Defined workspace tree) := by
  -- What is defined first extends the workspace, so that only the source is the same for all.
  induction bound generalizing id tree workspace with
  | zero =>
      rw [viewWithin] at seen
      cases seen
  | succ bound induction =>
      rcases viewWithin_cases seen with ⟨content, present, rfl⟩ |
        ⟨smaller, name, attributes, children, trees, equal, present, rfl, each⟩
      · have same := (retained.node? (has_of_node? present)).trans present
        have checked := writable id content (by rw [leaf?, present])
        rw [defineWithin, present]
        cases content with
        | text content =>
            apply ensures_pure
            exact ⟨.refl workspace, [], defines_text workspace content,
              ⟨by simp, List.nodup_nil⟩, by simp⟩
        | comment content => exact defined_leaf same checked
        | cdata content => exact defined_leaf same checked
        | instruction target content => exact defined_leaf same checked
      · cases equal
        rw [defineWithin, present]
        apply (mapM_defines retained (fun seen retained => induction retained seen) each).andThen
        rintro values middle ⟨extended, held, defines, stocks, recent⟩
        have same := (extended.retained retained).node? (has_of_node? present)
        apply (newTemplate_yields name (tag?_of_node? (same.trans present)) defines).mono
        rintro value last ⟨further, unchanged, template⟩
        refine ⟨extended.trans further, held, template, ?_, recent⟩
        rw [unchanged]
        exact stocks

/-- What a node shows is defined by a value, and that takes nothing of what there is. -/
theorem define_yields (writable : workspace.grove.Writable)
    (seen : workspace.grove.view? id = some tree) :
    Yields (define id) workspace (Defined workspace tree) := by
  have looked : outcome currentGrove workspace = (.ok workspace.grove, workspace) := rfl
  rw [define]
  apply Ensures.bind_of_ok looked
  exact defineWithin_yields writable (.refl _) seen

/-! ## Instantiating what is defined -/

/-- Attach what a value defines to a new tag, and yield that with the nodes that it gets. -/
def instantiate (host : Name) (definition : Value) : Action (NodeId × List NodeId) := do
  let parent ← newTag (.text host.text) .null .null .null
  let added ← edit (appendChildren parent (← requireSources [definition]))
  return (parent, added)

/-- What a definition holds is used up, and all that it was defined from is as it was. -/
theorem instantiate_yields {start : Workspace} (host : Name) (sound : workspace.grove.Sound)
    (defined : Defined start tree value workspace) :
    Yields (instantiate host value) workspace fun (parent, added) last =>
      last.grove.Sound ∧ Retained start.grove last.grove ∧ ∃ child, added = [child] ∧
        last.grove.children parent = [child] ∧ last.grove.view? child = some tree := by
  rcases defined with ⟨extended, held, defines, stocks, -⟩
  have bare : outcome (givenAttributes .null) workspace = (.ok [], workspace) := rfl
  have required : ∀ {last : Workspace}, outcome (requireSources [value]) last =
      (.ok [last.sourceOf (last.settled value)], last) := rfl
  have enlarged : Enlarged workspace.grove
      (workspace.grove.add ⟨.tag host {} [], none⟩) := enlarged_add rfl rfl
  have further := extended_of_enlarged enlarged
  have other : workspace.grove.nextId ∉ held := fun member =>
    not_has_nextId (stocks.free _ member).1
  have ready := stocks.keep enlarged
  rw [← defines.nodes further] at ready other
  rw [instantiate]
  apply (newTag_makes host bare rfl).andThen
  rintro _ _ ⟨rfl, rfl⟩
  apply Ensures.bind_of_ok required
  apply Ensures.bind
  apply edit_ensures
  apply (appendChildren_shows (enlarged.sound sound) node?_nextId_add (defines.makes further)
    ready other).mono
  rintro added last ⟨after, size, same, shown⟩
  apply ensures_pure
  refine ⟨after, ⟨?_, ?_⟩, shown⟩
  · exact Nat.le_trans (extended.trans further).grove.size size
  · intro id has
    have earlier := Grown.has extended.grove has
    rw [same id (Grown.has enlarged earlier), (extended.trans further).grove.retained.node? has]
    rintro rfl
    exact not_has_nextId earlier

end Script

end XmlGrove
