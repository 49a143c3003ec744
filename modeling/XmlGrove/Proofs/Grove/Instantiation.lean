import XmlGrove.Proofs.Document.Copy

/-!
# What templates make

A template makes a tag, and what its children are made of becomes part of that: texts and other
templates as further new nodes, and nodes that are there already as what they are. Leaves are all
that is considered here as nodes that a template holds.
-/

namespace XmlGrove

namespace Grove

variable {grove last : Grove} {id : NodeId} {tree : Tree} {among wider : NodeId → Prop}
  {name : Name} {attributes : Attributes} {children : List NodeId} {trees : List Tree}
  {held : List NodeId}

/-! ## Views of certain nodes -/

/-- A node shows a tree by means of certain nodes, wherever these are the same. -/
def Displays (grove : Grove) (among : NodeId → Prop) (id : NodeId) (tree : Tree) : Prop :=
  ∀ other : Grove, (∀ node, grove.Has node → among node → other.node? node = grove.node? node) →
    other.view? id = some tree

theorem Displays.view? (displays : grove.Displays among id tree) : grove.view? id = some tree :=
  displays grove fun _ _ _ => rfl

theorem Displays.transfer (displays : grove.Displays among id tree)
    (same : ∀ node, grove.Has node → among node →
      last.Has node ∧ wider node ∧ last.node? node = grove.node? node) :
    last.Displays wider id tree := by
  intro other agrees
  apply displays other
  intro node present member
  rcases same node present member with ⟨has, within, equal⟩
  rw [agrees node has within, equal]

theorem displays_leaf {content : Leaf} (present : grove.node? id = some (.leaf content))
    (member : among id) : grove.Displays among id (.leaf content) := by
  intro other agrees
  apply view?_of_leaf
  rw [agrees id (has_of_node? present) member, present]

theorem displays_tag (present : grove.node? id = some (.tag name attributes children))
    (member : among id) (each : List.Forall₂ (grove.Displays among) children trees) :
    grove.Displays among id (.tag name attributes trees) := by
  intro other agrees
  apply view?_of_tag
  · rw [agrees id (has_of_node? present) member, present]
  · exact each.imp fun child tree displays => displays other agrees

/-! ## Sources of trees -/

mutual

/-- A source makes a node that shows a tree. -/
inductive Makes (grove : Grove) : Source → Tree → Prop
  | text (content : String) : Makes grove (.text content) (.leaf (.text content))
  | node {id : NodeId} {content : Leaf} : grove.node? id = some (.leaf content) →
      Makes grove (.node id) (.leaf content)
  | template {given : GivenName} {entries : List (GivenName × Option String)}
      {sources : List Source} {name : Name} {attributes : Attributes} {trees : List Tree} :
      checkedTagName given = .ok name → checkedAttributes {} entries = .ok attributes →
      MakesAll grove sources trees →
      Makes grove (.template (.define given entries sources)) (.tag name attributes trees)

/-- Several sources make nodes that show several trees. -/
inductive MakesAll (grove : Grove) : List Source → List Tree → Prop
  | nil : MakesAll grove [] []
  | cons {source : Source} {sources : List Source} {tree : Tree} {trees : List Tree} :
      Makes grove source tree → MakesAll grove sources trees →
      MakesAll grove (source :: sources) (tree :: trees)

end

mutual

theorem Makes.keep {source : Source} {tree : Tree} (retained : Retained grove last) :
    grove.Makes source tree → last.Makes source tree
  | .text content => .text content
  | .node present => .node ((retained.node? (has_of_node? present)).trans present)
  | .template named checked each => .template named checked (each.keep retained)

theorem MakesAll.keep {sources : List Source} {trees : List Tree}
    (retained : Retained grove last) :
    grove.MakesAll sources trees → last.MakesAll sources trees
  | .nil => .nil
  | .cons first rest => .cons (first.keep retained) (rest.keep retained)

end

mutual

/-- Leaves are all that a source of a tree holds. -/
theorem Makes.offers {source : Source} {tree : Tree} :
    grove.Makes source tree → ∀ id ∈ source.nodes, grove.Offers id
  | .text content, id, member => by cases member
  | .node present, id, member => by
      rw [Source.nodes, List.mem_singleton] at member
      rw [member]
      refine ⟨has_of_node? present, ?_⟩
      rw [isAnchor, anchored?, present]
      rfl
  | .template _ _ each, id, member => each.offers id member

theorem MakesAll.offers {sources : List Source} {trees : List Tree} :
    grove.MakesAll sources trees → ∀ id ∈ Source.allNodes sources, grove.Offers id
  | .nil, id, member => by cases member
  | .cons first rest, id, member =>
      (List.mem_append.1 member).elim (first.offers id) (rest.offers id)

end

/-- Nodes that can be adopted, each of them once. -/
structure Stocks (grove : Grove) (held : List NodeId) : Prop where
  free : ∀ id ∈ held, grove.Has id ∧ grove.parentLink? id = none
  distinct : held.Nodup

/-- After some nodes were adopted, the others still can be. -/
theorem Stocks.rest {rest : List NodeId} (stocks : grove.Stocks (held ++ rest))
    (preserved : Preserved held grove last) : last.Stocks rest where
  free id member := by
    rcases stocks.free id (List.mem_append_right _ member) with ⟨has, free⟩
    have apart : id ∉ held := fun former =>
      List.disjoint_of_nodup_append stocks.distinct former member
    exact ⟨preserved.has has, (preserved.link has apart).trans free⟩
  distinct := (List.nodup_append.1 stocks.distinct).2.1

theorem Stocks.keep (stocks : grove.Stocks held) (enlarged : Enlarged grove last) :
    last.Stocks held where
  free id member := by
    rcases stocks.free id member with ⟨has, free⟩
    exact ⟨Grown.has enlarged has, (Grown.link enlarged has).trans free⟩
  distinct := stocks.distinct

theorem Stocks.first {rest : List NodeId} (stocks : grove.Stocks (held ++ rest)) :
    grove.Stocks held where
  free id member := stocks.free id (List.mem_append_left _ member)
  distinct := (List.nodup_append.1 stocks.distinct).1

theorem Stocks.append {more : List NodeId} (former : grove.Stocks held)
    (latter : grove.Stocks more) (apart : held.Disjoint more) : grove.Stocks (held ++ more) where
  free id member := (List.mem_append.1 member).elim (former.free id) (latter.free id)
  distinct := former.distinct.append latter.distinct apart

theorem stocks_nextId_add {node : Node} : (grove.add ⟨node, none⟩).Stocks [grove.nextId] where
  free id member := by
    rw [List.mem_singleton.1 member]
    exact ⟨has_nextId_add, free_nextId_add⟩
  distinct := List.nodup_singleton _

namespace Preserved

variable {start before : Grove}

theorem setParent {parent : Option NodeId} (preserved : Preserved held start before)
    (loose : id ∈ held ∨ ¬ start.Has id) : Preserved held start (before.setParent id parent) where
  size := by
    rw [Grove.setParent, size_modifyEntry]
    exact preserved.size
  node? present := by rw [node?_setParent, preserved.node? present]
  link {other} present apart := by
    rw [parentLink?_setParent, if_neg, preserved.link present apart]
    rintro ⟨rfl, _⟩
    rcases loose with member | later
    · exact apart member
    · exact later present
  document? := preserved.document?

theorem setNode {node : Node} (preserved : Preserved held start before) (later : ¬ start.Has id) :
    Preserved held start (before.setNode id node) where
  size := by
    rw [Grove.setNode, size_modifyEntry]
    exact preserved.size
  node? {other} present := by
    rw [node?_setNode, if_neg, preserved.node? present]
    rintro ⟨rfl, _⟩
    exact later present
  link present apart := by rw [parentLink?_setNode, preserved.link present apart]
  document? := preserved.document?

end Preserved

end Grove

open Grove

/-- A leaf is cloned by a new leaf. -/
theorem cloneNode_leaf_yields {grove : Grove} {id : NodeId} {content : Leaf}
    (present : grove.node? id = some (.leaf content)) (writable : content.isWritable = true) :
    (cloneNode true id).Yields grove fun clone last =>
      clone = grove.nextId ∧ last = grove.add ⟨.leaf content, none⟩ := by
  have planted : (cloneNode true id).outcome grove = (plant (.leaf content)).outcome grove := by
    apply outcome_cloneNode_of_writable _ (view?_of_leaf present)
    rw [Tree.isWritable, writable]
  rw [Edit.Yields, Edit.Ensures, planted]
  exact ⟨rfl, rfl⟩

/-! ## Adoption -/

variable {grove last : Grove}

/-- What is made of sources takes new nodes and those that the sources hold. -/
def Grove.Makeable (grove : Grove) (held : List NodeId) (id : NodeId) : Prop :=
  ¬ grove.Has id ∨ id ∈ held

theorem adoptNode_displays {id : NodeId} {content : Leaf} (parent : NodeId)
    (present : grove.node? id = some (.leaf content)) (stocks : grove.Stocks [id]) :
    (adoptNode parent id).Yields grove fun child last => Preserved [id] grove last ∧
      last.Displays (grove.Makeable [id]) child (.leaf content) := by
  rcases stocks.free id List.mem_cons_self with ⟨_, free⟩
  have childless : grove.isTag id = false := by
    rw [isTag, tag?, present]
    rfl
  rw [adoptNode]
  apply Edit.Ensures.bind
  apply Edit.ensures_get
  rw [free, childless]
  apply Edit.Ensures.bind
  apply Edit.ensures_set
  apply Edit.ensures_pure
  refine ⟨(Preserved.refl grove).setParent (.inl List.mem_cons_self), ?_⟩
  apply displays_leaf _ (.inr List.mem_cons_self)
  rw [node?_setParent, present]

theorem createText_displays (content : String) (parent : NodeId) :
    (adopt parent (.text content)).Yields grove fun child last => Preserved [] grove last ∧
      last.Displays (grove.Makeable []) child (.leaf (.text content)) := by
  have enlarged : Enlarged grove (grove.add ⟨.leaf (.text content), none⟩) :=
    enlarged_add trivial rfl
  rw [adopt]
  apply Edit.Ensures.bind
  apply Edit.ensures_create
  apply Edit.Ensures.bind
  apply Edit.ensures_modify
  apply Edit.ensures_pure
  refine ⟨enlarged.preserved.setParent (.inr not_has_nextId), ?_⟩
  apply displays_leaf _ (.inl not_has_nextId)
  rw [node?_setParent, node?_nextId_add]

/-- A tag that was unfinished while its children were made shows them when it gets their list. -/
theorem Grove.displays_setNode {sources : List Source} {name : Name} {attributes : Attributes}
    {children : List NodeId} {trees : List Tree} (stocks : grove.Stocks (Source.allNodes sources))
    (preserved : Preserved (Source.allNodes sources)
      (grove.add ⟨.unfinished name attributes, none⟩) last)
    (each : List.Forall₂ (last.Displays ((grove.add ⟨.unfinished name attributes, none⟩).Makeable
      (Source.allNodes sources))) children trees) :
    (last.setNode grove.nextId (.tag name attributes children)).Displays
      (grove.Makeable (Source.allNodes sources)) grove.nextId (.tag name attributes trees) := by
  apply displays_tag _ (.inl not_has_nextId)
  · apply each.imp
    intro child tree displays
    apply displays.transfer
    intro node present member
    have other : node ≠ grove.nextId := by
      rintro rfl
      rcases member with later | held
      · exact later has_nextId_add
      · exact not_has_nextId (stocks.free _ held).1
    refine ⟨?_, ?_, ?_⟩
    · rw [Has, setNode, size_modifyEntry]
      exact present
    · rcases member with later | held
      · exact .inl fun former => later (has_add.2 (.inr former))
      · exact .inr held
    · rw [node?_setNode, if_neg fun both => other both.1]
  · rw [node?_setNode, if_pos ⟨rfl, preserved.has has_nextId_add⟩]

mutual

theorem adopt_displays {grove : Grove} {source : Source} {tree : Tree} (parent : NodeId)
    (stocks : grove.Stocks source.nodes) :
    grove.Makes source tree → (adopt parent source).Yields grove fun child last =>
      Preserved source.nodes grove last ∧ last.Displays (grove.Makeable source.nodes) child tree
  | .text content => createText_displays content parent
  | .node present => adoptNode_displays parent present stocks
  | @Makes.template _ given entries sources name attributes trees named checked each => by
      have enlarged : Enlarged grove (grove.add ⟨.unfinished name attributes, none⟩) :=
        enlarged_add trivial rfl
      have created : Preserved (Source.allNodes sources) grove
          (grove.add ⟨.unfinished name attributes, none⟩) := enlarged.preserved
      have ready : (grove.add ⟨.unfinished name attributes, none⟩).Stocks
          (Source.allNodes sources) := stocks.keep enlarged
      rw [adopt]
      apply Edit.Ensures.bind
      rw [instantiate, named, checked]
      apply Edit.Ensures.bind
      apply Edit.ensures_pure
      apply Edit.Ensures.bind
      apply Edit.ensures_pure
      apply Edit.Ensures.bind
      apply Edit.ensures_create
      apply Edit.Ensures.bind
      apply (adoptAll_displays grove.nextId ready (each.keep created.toRetained)).mono
      rintro children middle ⟨adopted, shown⟩
      apply Edit.Ensures.bind
      apply Edit.ensures_modify
      apply Edit.ensures_pure
      apply Edit.Ensures.bind
      apply Edit.ensures_modify
      apply Edit.ensures_pure
      refine ⟨?_, ?_⟩
      · exact ((created.trans adopted).setNode not_has_nextId).setParent (.inr not_has_nextId)
      · apply (displays_setNode stocks adopted shown).transfer
        intro node present member
        refine ⟨?_, member, node?_setParent⟩
        rw [Has, setParent, size_modifyEntry]
        exact present

theorem adoptAll_displays {grove : Grove} {sources : List Source} {trees : List Tree}
    (parent : NodeId) (stocks : grove.Stocks (Source.allNodes sources)) :
    grove.MakesAll sources trees → (adoptAll parent sources).Yields grove fun children last =>
      Preserved (Source.allNodes sources) grove last ∧
        List.Forall₂ (last.Displays (grove.Makeable (Source.allNodes sources))) children trees
  | .nil => by
      rw [adoptAll]
      exact Edit.ensures_pure ⟨.refl grove, .nil⟩
  | .cons first rest => by
      rw [adoptAll]
      apply Edit.Ensures.bind
      apply (adopt_displays parent stocks.first first).mono
      rintro child middle ⟨former, shown⟩
      apply Edit.Ensures.bind
      apply (adoptAll_displays parent (stocks.rest former) (rest.keep former.toRetained)).mono
      rintro children last ⟨latter, each⟩
      apply Edit.ensures_pure
      refine ⟨?_, .cons ?_ ?_⟩
      · exact (former.widen fun id => List.mem_append_left _).trans
          (latter.widen fun id => List.mem_append_right _)
      · apply shown.transfer
        intro node present member
        refine ⟨latter.has present, ?_, latter.node? present⟩
        exact member.imp id (List.mem_append_left _)
      · apply each.imp
        intro child tree displays
        apply displays.transfer
        intro node present member
        refine ⟨present, ?_, rfl⟩
        exact member.imp (fun later has => later (former.has has)) (List.mem_append_right _)

end

theorem appendChild_sounds {host : NodeId} {source : Source} {tree : Tree} (sound : grove.Sound)
    (makes : grove.Makes source tree) :
    (appendChild host source).Ensures grove (fun _ last => last.Sound) fun _ => True := by
  rw [appendChild_eq_attach]
  apply (attach_ensures .atEnd host source sound fun id member => (makes.offers id member).1).mono
  · intro child last attached
    exact (attached.changed Placement.isFair_atEnd sound makes.offers).moves.sound sound
  · intro last _
    trivial

/-- What is attached to a node that is no part of it is displayed at its place among the other
children. -/
theorem attach_displays (placement : Placement) {host : NodeId} {source : Source} {tree : Tree}
    (listed : (grove.childList? host).isSome = true) (makes : grove.Makes source tree)
    (stocks : grove.Stocks source.nodes) (other : host ∉ source.nodes) :
    (attach placement host source).Yields grove fun child last =>
      last.Displays (grove.Makeable source.nodes) child tree ∧
        last.children host = placement (grove.children host) child ∧
          grove.entries.size ≤ last.entries.size ∧
            ∀ id, grove.Has id → id ≠ host → last.node? id = grove.node? id := by
  rcases Option.isSome_iff_exists.1 listed with ⟨siblings, known⟩
  have has : grove.Has host := has_of_childList? known
  rw [attach]
  apply Edit.Ensures.bind_of_ok (outcome_requireChildren_of_listed known)
  apply Edit.Ensures.bind
  apply (adopt_displays host stocks makes).mono
  rintro child middle ⟨preserved, displays⟩
  apply Edit.Ensures.bind
  apply Edit.ensures_modify
  apply Edit.ensures_pure
  have kept : middle.childList? host = some siblings := by
    rw [childList?_eq_of_node? (preserved.node? has), known]
  refine ⟨?_, ?_, ?_, ?_⟩
  · apply displays.transfer
    intro node present member
    have different : node ≠ host := by
      rintro rfl
      rcases member with later | held
      · exact later has
      · exact other held
    refine ⟨?_, member, ?_⟩
    · rw [Has, setChildren, size_modifyEntry]
      exact present
    · rw [node?_setChildren, if_neg different]
  · rw [children_setChildren_self kept, children_of_childList? kept, children_of_childList? known]
  · rw [setChildren, size_modifyEntry]
    exact preserved.size
  · intro id present different
    rw [node?_setChildren, if_neg different, preserved.node? present]

/-- What is appended to a node that is no part of it is displayed behind its other children. -/
theorem appendChild_displays {host : NodeId} {source : Source} {tree : Tree}
    (listed : (grove.childList? host).isSome = true) (makes : grove.Makes source tree)
    (stocks : grove.Stocks source.nodes) (other : host ∉ source.nodes) :
    (appendChild host source).Yields grove fun child last =>
      last.Displays (grove.Makeable source.nodes) child tree ∧
        last.children host = grove.children host ++ [child] ∧
          grove.entries.size ≤ last.entries.size ∧
            ∀ id, grove.Has id → id ≠ host → last.node? id = grove.node? id := by
  rw [appendChild_eq_attach]
  exact attach_displays .atEnd listed makes stocks other

/-- What is appended to a tag without children is its only child then, and shows the tree that it
is to be. -/
theorem appendChildren_shows {host : NodeId} {source : Source} {tree : Tree} {name : Name}
    {attributes : Attributes} (sound : grove.Sound)
    (present : grove.node? host = some (.tag name attributes []))
    (makes : grove.Makes source tree) (stocks : grove.Stocks source.nodes)
    (other : host ∉ source.nodes) :
    (appendChildren host [source]).Yields grove fun added last =>
      last.Sound ∧ grove.entries.size ≤ last.entries.size ∧
        (∀ id, grove.Has id → id ≠ host → last.node? id = grove.node? id) ∧
          ∃ child, added = [child] ∧ last.children host = [child] ∧
            last.view? child = some tree := by
  have listed := childList?_of_node? present
  rw [appendChildren]
  apply Edit.Ensures.bind
  apply ((appendChild_displays (Option.isSome_of_eq_some listed) makes stocks other).and
    (appendChild_sounds sound makes)).mono
  · rintro child last ⟨⟨displays, own, size, same⟩, after⟩
    rw [children_of_childList? listed, List.nil_append] at own
    apply Edit.Ensures.bind
    apply Edit.ensures_pure
    apply Edit.ensures_pure
    exact ⟨after, size, same, child, rfl, own, displays.view?⟩
  · rintro last ⟨impossible, _⟩
    exact impossible.elim

end XmlGrove
