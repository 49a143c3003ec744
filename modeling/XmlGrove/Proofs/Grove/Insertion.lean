import XmlGrove.Proofs.Grove.Instantiation

/-!
# Insertion at a position

Sources are inserted in reverse order, all of them at the position that an index denotes among the
children that were there at first. Each insertion depends on the links that the former ones set, but
as the parent stays below the same nodes, what could be inserted at first can be inserted when it is
its turn.
-/

namespace XmlGrove

open Relation

namespace Grove

variable {grove before middle after : Grove} {parent child id : NodeId} {position : Nat}
  {source : Source} {sources others : List Source}
  {added further : List NodeId}

/-! ## What can be inserted -/

mutual

/-- What holds no nodes makes the same in any grove. -/
theorem Makes.elsewhere {source : Source} {tree : Tree} (other : Grove)
    (plain : source.nodes = []) : grove.Makes source tree → other.Makes source tree
  | .text content => .text content
  | .node present => by cases plain
  | .template named checked each => .template named checked (each.elsewhere other plain)

theorem MakesAll.elsewhere {sources : List Source} {trees : List Tree} (other : Grove)
    (plain : Source.allNodes sources = []) :
    grove.MakesAll sources trees → other.MakesAll sources trees
  | .nil => .nil
  | .cons first rest => by
      obtain ⟨own, following⟩ := List.append_eq_nil_iff.1 plain
      exact .cons (first.elsewhere other own) (rest.elsewhere other following)

end

/-- A source that can become a child of a node: another node that has no parent and that the
parent is not below of, or a text or a template that is made of such only. -/
inductive Fits (grove : Grove) (parent : NodeId) : Source → Prop
  | node {id : NodeId} (offered : grove.Offers id) (free : grove.parentLink? id = none)
      (apart : ¬ ReflTransGen grove.Link parent id) : Fits grove parent (.node id)
  | new {source : Source} {tree : Tree} (plain : source.nodes = [])
      (makes : grove.Makes source tree) : Fits grove parent source

theorem Fits.offers (fits : grove.Fits parent source) : ∀ id ∈ source.nodes, grove.Offers id := by
  intro id member
  cases fits with
  | node offered free apart =>
      rw [List.mem_singleton.1 member]
      exact offered
  | new plain makes =>
      rw [plain] at member
      cases member

/-- The node that a source is or else a new one, which shows what the source makes by means of new
nodes only. -/
inductive Stems (before after : Grove) : Source → NodeId → Prop
  | same (id : NodeId) : Stems before after (.node id) id
  | new {source : Source} {child : NodeId} {tree : Tree} (plain : source.nodes = [])
      (makes : before.Makes source tree) (recent : ¬ before.Has child)
      (displays : after.Displays (fun id => ¬ before.Has id) child tree) :
      Stems before after source child

theorem Stems.apart (stems : before.Stems after source child) (fits : before.Fits parent source)
    (sound : before.Sound) (has : before.Has parent) : ¬ ReflTransGen before.Link parent child := by
  cases stems with
  | same =>
      cases fits with
      | node offered free apart => exact apart
      | new plain makes => cases plain
  | new plain makes recent displays => exact fun way => recent (sound.has_of_way has way)

theorem Stems.ne (stems : before.Stems after source child) (has : before.Has id)
    (apart : id ∉ source.nodes) : id ≠ child := by
  rintro rfl
  cases stems with
  | same => exact apart List.mem_cons_self
  | new plain makes recent displays => exact recent has

/-! ## What an insertion does -/

/-- Nodes became children of a tag node, from a position on and in order. Apart from the list of
that node and their links to it everything is as it was. -/
structure Inserted (parent : NodeId) (position : Nat) (before : Grove) (sources : List Source)
    (added : List NodeId) (after : Grove) : Prop where
  stems : List.Forall₂ (before.Stems after) sources added
  own : ∀ {name attributes children},
    before.node? parent = some (.tag name attributes children) →
      after.node? parent = some (.tag name attributes
        (children.take position ++ added ++ children.drop position))
  linked : ∀ id ∈ added, after.parentLink? id = some parent
  has : ∀ {id}, before.Has id → after.Has id
  node? : ∀ {id}, before.Has id → id ≠ parent → after.node? id = before.node? id
  link : ∀ {id}, before.Has id → id ∉ added → after.parentLink? id = before.parentLink? id
  documents : after.documents = before.documents
  sound : after.Sound
  acyclic : after.Acyclic

namespace Inserted

theorem nil (sound : grove.Sound) (acyclic : grove.Acyclic) :
    Inserted parent position grove [] [] grove where
  stems := .nil
  own present := by rw [List.append_nil, List.take_append_drop, present]
  linked id member := by cases member
  has present := present
  node? _ _ := rfl
  link _ _ := rfl
  documents := rfl
  sound := sound
  acyclic := acyclic

/-- What is above the parent afterwards was above it before. -/
theorem way (inserted : Inserted parent position before sources added after)
    (apart : ∀ id ∈ added, ¬ ReflTransGen before.Link parent id) (sound : before.Sound)
    (has : before.Has parent) (way : ReflTransGen after.Link parent id) :
    ReflTransGen before.Link parent id := by
  induction way with
  | refl => exact .refl
  | @tail lower upper _ step induction =>
      have same := inserted.link (sound.has_of_way has induction)
        fun member => apart lower member induction
      exact induction.tail (same.symm.trans step)

/-- What fitted and wasn't used still fits. -/
theorem fits (inserted : Inserted parent position before sources added after)
    (apart : ∀ id ∈ added, ¬ ReflTransGen before.Link parent id) (sound : before.Sound)
    (has : before.Has parent) (unused : ∀ id ∈ source.nodes, id ∉ added)
    (fits : before.Fits parent source) : after.Fits parent source := by
  cases fits with
  | @node id offered free away =>
      have other : id ≠ parent := by
        rintro rfl
        exact away .refl
      refine .node ⟨inserted.has offered.1, ?_⟩ ?_ ?_
      · rw [isAnchor_of_shape? (shape?_of_node? (inserted.node? offered.1 other))]
        exact offered.2
      · rw [inserted.link offered.1 (unused id (List.mem_singleton_self id)), free]
      · exact fun way => away (inserted.way apart sound has way)
  | new plain makes => exact .new plain (makes.elsewhere after plain)

/-- What is inserted later at the same position ends up in front. -/
theorem prepend (latter : Inserted parent position middle others further after)
    (former : Inserted parent position before sources added middle)
    {name : Name} {attributes : Attributes} {children : List NodeId}
    (present : before.node? parent = some (.tag name attributes children))
    (bounded : position ≤ children.length) :
    Inserted parent position before (others ++ sources) (further ++ added) after where
  stems := by
    have has : before.Has parent := has_of_node? present
    apply List.rel_append
    · apply latter.stems.imp
      intro source child stems
      cases stems with
      | same => exact .same child
      | new plain makes recent displays =>
          refine .new plain (makes.elsewhere before plain) (fun earlier => recent ?_) ?_
          · exact former.has earlier
          · apply displays.transfer
            intro node present recent
            exact ⟨present, fun earlier => recent (former.has earlier), rfl⟩
    · apply former.stems.imp
      intro source child stems
      cases stems with
      | same => exact .same child
      | new plain makes recent displays =>
          refine .new plain makes recent ?_
          apply displays.transfer
          intro node present recent
          refine ⟨latter.has present, recent, latter.node? present ?_⟩
          rintro rfl
          exact recent has
  own known := by
    cases present.symm.trans known
    have length : (children.take position).length = position := List.length_take_of_le bounded
    have enclosed := latter.own (former.own present)
    rw [List.append_assoc _ added, List.take_left' length, List.drop_left' length] at enclosed
    rw [enclosed, List.append_assoc, List.append_assoc, List.append_assoc]
  linked id member := by
    by_cases recent : id ∈ further
    · exact latter.linked id recent
    · have link := former.linked id ((List.mem_append.1 member).resolve_left recent)
      rw [latter.link (has_of_parentLink? link) recent, link]
  has present := latter.has (former.has present)
  node? present different := by
    rw [latter.node? (former.has present) different, former.node? present different]
  link present apart := by
    rw [List.mem_append, not_or] at apart
    rw [latter.link (former.has present) apart.1, former.link present apart.2]
  documents := latter.documents.trans former.documents
  sound := latter.sound
  acyclic := latter.acyclic

end Inserted

end Grove

open Grove

variable {grove last : Grove} {parent child : NodeId} {position : Nat} {source : Source}
  {sources : List Source} {name : Name} {attributes : Attributes} {children : List NodeId}

/-! ## One source -/

namespace Attached

variable {placement : Placement} {id : NodeId}

theorem linked (attached : Attached placement grove parent source child last)
    (held : ∀ id ∈ source.nodes, grove.Has id) : last.parentLink? child = some parent := by
  rcases attached with ⟨middle, -, adopted, rfl⟩
  have has := adopted.has_child held
  rcases adopted.exists_setParent with ⟨former, rfl, -, -, -⟩
  have present := (has_of_shape? shape?_setParent).1 has
  rw [parentLink?_setChildren, parentLink?_setParent_of_has present, if_pos rfl]

theorem node?_of_ne (attached : Attached placement grove parent source child last)
    (has : grove.Has id) (different : id ≠ parent) : last.node? id = grove.node? id := by
  rcases attached with ⟨middle, -, adopted, rfl⟩
  rw [node?_setChildren, if_neg different, adopted.node? has]

theorem node?_parent (attached : Attached placement grove parent source child last)
    (present : grove.node? parent = some (.tag name attributes children)) :
    last.node? parent = some (.tag name attributes (placement children child)) := by
  rcases attached with ⟨middle, -, adopted, rfl⟩
  have kept : middle.node? parent = some (.tag name attributes children) := by
    rw [adopted.node? (has_of_node? present), present]
  rw [node?_setChildren, if_pos rfl, kept, children_of_node? kept]
  rfl

theorem documents (attached : Attached placement grove parent source child last) :
    last.documents = grove.documents := by
  rcases attached with ⟨middle, -, adopted, rfl⟩
  rcases adopted.exists_setParent with ⟨former, rfl, -, grafted, -⟩
  exact grafted.documents

/-- Apart from the new child nothing gets another parent. -/
theorem link_of_ne (attached : Attached placement grove parent source child last)
    (fair : placement.IsFair) (sound : grove.Sound) (fits : grove.Fits parent source)
    (has : grove.Has id) (different : id ≠ child) :
    last.parentLink? id = grove.parentLink? id := by
  cases fits with
  | node offered free apart =>
      cases attached.child_eq
      rw [attached.eq_of_node.2, parentLink?_setChildren,
        parentLink?_setParent_of_has offered.1, if_neg different]
  | new plain makes =>
      have grown : Grown (· = parent) grove last := by
        refine attached.grown fair sound (.refl grove) rfl fun id member => ?_
        rw [plain] at member
        cases member
      exact grown.link has

theorem recent (attached : Attached placement grove parent source child last)
    (plain : source.nodes = []) : ¬ grove.Has child := by
  rcases attached with ⟨middle, -, adopted, rfl⟩
  cases adopted with
  | made created constructed => exact constructed.added
  | found same free acyclic =>
      rw [same] at plain
      cases plain

end Attached

theorem Grove.Fits.not_holdsTop (fits : grove.Fits parent source) :
    ¬ source.HoldsTop grove parent := by
  rintro ⟨definition, rfl, member⟩
  cases fits with
  | new plain makes =>
      rw [Source.nodes] at plain
      rw [plain] at member
      cases member

theorem atIndex_eq (bounded : position ≤ children.length) :
    Placement.atIndex position children child =
      children.take position ++ [child] ++ children.drop position := by
  have length : (children.take position).length = position := List.length_take_of_le bounded
  rw [Placement.atIndex, insertionPosition_of_le bounded]
  conv => lhs; rw [← List.take_append_drop position children]
  rw [insertIdx_append (Nat.le_of_eq length.symm)]
  conv => lhs; arg 1; arg 2; rw [← length]
  rw [List.insertIdx_length_self]

theorem Grove.stocks_nil : grove.Stocks [] where
  free _ member := by cases member
  distinct := .nil

/-- What fits is attached, and it comes from its source. -/
theorem attach_stems (placement : Placement) (sound : grove.Sound) (acyclic : grove.Acyclic)
    (listed : (grove.childList? parent).isSome = true) (fits : grove.Fits parent source) :
    (attach placement parent source).Yields grove fun child last =>
      Attached placement grove parent source child last ∧ grove.Stems last source child := by
  cases fits with
  | @node id offered free apart =>
      have away : grove.isAtOrAbove id parent = false := by
        rw [Bool.eq_false_iff, ne_eq, isAtOrAbove_iff sound acyclic]
        exact apart
      apply (attach_node_yields listed free away).mono
      intro child last attached
      cases attached.child_eq
      exact ⟨attached, .same _⟩
  | new plain makes =>
      have held : ∀ id ∈ source.nodes, grove.Has id := fun id member => (makes.offers id member).1
      have stocks : grove.Stocks source.nodes := plain ▸ stocks_nil
      apply ((attach_ensures placement parent source sound held).and
        (attach_displays placement listed makes stocks (by simp [plain]))).mono
      · rintro child last ⟨attached, displays, -⟩
        refine ⟨attached, .new plain makes (attached.recent plain) ?_⟩
        apply displays.transfer
        intro node present member
        refine ⟨present, member.resolve_right ?_, rfl⟩
        rw [plain]
        exact List.not_mem_nil
      · exact fun _ both => both.2

/-- What fits becomes a child at a position. -/
theorem attach_inserts (sound : grove.Sound) (acyclic : grove.Acyclic)
    (present : grove.node? parent = some (.tag name attributes children))
    (bounded : position ≤ children.length) (fits : grove.Fits parent source) :
    (attach (.atIndex position) parent source).Yields grove fun child last =>
      Inserted parent position grove [source] [child] last := by
  have listed : (grove.childList? parent).isSome = true :=
    Option.isSome_of_eq_some (childList?_of_node? present)
  have fair := Placement.isFair_atIndex position
  have held : ∀ id ∈ source.nodes, grove.Has id := fun id member => (fits.offers id member).1
  apply (attach_stems (.atIndex position) sound acyclic listed fits).mono
  rintro child last ⟨attached, stems⟩
  have moves := (attached.changed fair sound fits.offers).moves
  exact
    { stems := .cons stems .nil
      own := by
        intro _ _ _ known
        cases present.symm.trans known
        rw [attached.node?_parent present, atIndex_eq bounded]
      linked := by
        intro id member
        rw [List.mem_singleton.1 member]
        exact attached.linked held
      has := moves.has
      node? := attached.node?_of_ne
      link := fun has apart =>
        attached.link_of_ne fair sound fits has (mt List.mem_singleton.2 apart)
      documents := attached.documents
      sound := moves.sound sound
      acyclic := moves.acyclic fits.not_holdsTop acyclic }

/-! ## Several sources -/

/-- Sources that fit are attached one after the other at one position, and end up there in reverse
order. -/
theorem attachEach_inserts (sources : List Source) (sound : grove.Sound) (acyclic : grove.Acyclic)
    (present : grove.node? parent = some (.tag name attributes children))
    (bounded : position ≤ children.length) (fits : ∀ source ∈ sources, grove.Fits parent source)
    (distinct : (Source.allNodes sources).Nodup) :
    (attachEach (.atIndex position) false parent sources).Yields grove fun added last =>
      Inserted parent position grove sources.reverse added.reverse last := by
  induction sources generalizing grove children with
  | nil =>
      rw [attachEach]
      exact Edit.ensures_pure (.nil sound acyclic)
  | cons first rest induction =>
      have has : grove.Has parent := has_of_node? present
      rw [attachEach, attachNext_false]
      apply Edit.Ensures.bind
      apply (attach_inserts sound acyclic present bounded (fits first List.mem_cons_self)).mono
      intro child middle former
      obtain ⟨stems, -⟩ := List.forall₂_cons.1 former.stems
      have apart : ∀ id ∈ [child], ¬ ReflTransGen grove.Link parent id := by
        intro id member
        rw [List.mem_singleton.1 member]
        exact stems.apart (fits first List.mem_cons_self) sound has
      have remaining : ∀ source ∈ rest, middle.Fits parent source := by
        intro source member
        have fitting := fits source (List.mem_cons_of_mem first member)
        refine former.fits apart sound has (fun id held => ?_) fitting
        have other : id ∉ first.nodes := fun own =>
          List.disjoint_of_nodup_append distinct own (mem_allNodes.2 ⟨source, member, held⟩)
        exact fun own =>
          stems.ne (fitting.offers id held).1 other (List.mem_singleton.1 own)
      have longer : position ≤
          (children.take position ++ [child] ++ children.drop position).length := by
        simp
        omega
      apply Edit.Ensures.bind
      apply (induction former.sound former.acyclic (former.own present) longer remaining
        (List.nodup_append.1 distinct).2.1).mono
      intro added last latter
      apply Edit.ensures_pure
      rw [List.reverse_cons, List.reverse_cons]
      exact latter.prepend former present bounded

theorem insertionIndex?_inside {size : Nat} {index : Int} (least : -(size : Int) ≤ index)
    (most : index ≤ size) :
    insertionIndex? size index = some (if index < 0 then index + size else index) := by
  have inside : (decide (index < -(size : Int)) || decide ((size : Int) < index)) = false := by
    simp only [Bool.or_eq_false_iff, decide_eq_false_iff_not]
    omega
  rw [insertionIndex?, inside]
  rfl

theorem insertionIndex?_outside {size : Nat} {index : Int}
    (outside : ¬ (-(size : Int) ≤ index ∧ index ≤ size)) : insertionIndex? size index = none := by
  have beyond : (decide (index < -(size : Int)) || decide ((size : Int) < index)) = true := by
    simp only [Bool.or_eq_true, decide_eq_true_eq]
    omega
  rw [insertionIndex?, beyond]
  rfl

theorem allNodes_eq_flatMap (sources : List Source) :
    Source.allNodes sources = sources.flatMap Source.nodes := by
  induction sources with
  | nil => rfl
  | cons first rest induction => rw [Source.allNodes, induction, List.flatMap_cons]

/-- Sources that fit become the children at a position, in order. -/
theorem insertChildren_inserts {index : Int} (sound : grove.Sound) (acyclic : grove.Acyclic)
    (present : grove.node? parent = some (.tag name attributes children))
    (denoted : insertionIndex? children.length index = some position)
    (bounded : position ≤ children.length)
    (fits : ∀ source ∈ sources, grove.Fits parent source)
    (distinct : (Source.allNodes sources).Nodup) :
    (insertChildren parent index sources).Yields grove fun added last =>
      Inserted parent position grove sources added last := by
  have looked := outcome_requireChildren_of_listed (childList?_of_node? present)
  rw [insertChildren_eq_insertEachAt, insertEachAt]
  apply Edit.Ensures.bind_of_ok looked
  rw [denoted]
  have reversed : (Source.allNodes sources.reverse).Nodup := by
    rw [allNodes_eq_flatMap] at distinct ⊢
    exact (sources.reverse_perm.flatMap_right Source.nodes).nodup_iff.2 distinct
  apply Edit.Ensures.bind
  apply (attachEach_inserts sources.reverse sound acyclic present bounded (fun source member =>
    fits source (List.mem_reverse.1 member)) reversed).mono
  intro added last inserted
  rw [List.reverse_reverse] at inserted
  exact Edit.ensures_pure inserted

theorem outcome_insertChildren_outside {index : Int}
    (listed : grove.childList? parent = some children)
    (outside : insertionIndex? children.length index = none) :
    (insertChildren parent index sources).outcome grove = (.error .insertionOutOfRange, grove) := by
  rw [insertChildren_eq_insertEachAt, insertEachAt,
    Edit.outcome_bind_of_ok (outcome_requireChildren_of_listed listed), outside]
  rfl

/-! ## Detaching and inserting again -/

theorem Grove.eq_of_entry? {first second : Grove}
    (entries : ∀ id, first.entry? id = second.entry? id)
    (documents : first.documents = second.documents) : first = second := by
  obtain ⟨firstEntries, firstDocuments⟩ := first
  obtain ⟨secondEntries, secondDocuments⟩ := second
  have same : firstEntries = secondEntries :=
    Array.ext_getElem? fun index => entries ⟨index⟩
  exact congr (congrArg Grove.mk same) documents

/-- The grove where a node is no child any more. -/
def Grove.unlinked (grove : Grove) (parent child : NodeId) (others : List NodeId) : Grove :=
  (grove.setChildren parent others).setParent child none

/-- A child that is taken out of a list and put into it again is where it was. -/
theorem Grove.relinked (present : grove.node? parent = some (.tag name attributes children))
    (linked : grove.parentLink? child = some parent) (others : List NodeId) :
    ((grove.unlinked parent child others).setParent child (some parent)).setChildren parent
      children = grove := by
  refine Grove.eq_of_entry? (fun id => ?_) rfl
  simp only [unlinked, setChildren, setParent, entry?_modifyEntry]
  cases found : grove.entry? id with
  | none => simp
  | some entry =>
      have listing : id = parent → entry.node = .tag name attributes children := by
        rintro rfl
        rw [node?, found] at present
        exact Option.some.inj present
      have linking : id = child → entry.parent = some parent := by
        rintro rfl
        rw [parentLink?, found] at linked
        exact linked
      obtain ⟨node, link⟩ := entry
      by_cases own : id = parent
      · cases listing own
        by_cases same : id = child
        · cases linking same
          simp only [if_pos own, if_pos same, Option.map_some, Node.withChildren]
        · simp only [if_pos own, if_neg same, Option.map_some, Node.withChildren]
      · by_cases same : id = child
        · cases linking same
          simp only [if_neg own, if_pos same, Option.map_some]
        · simp only [if_neg own, if_neg same]

/-- A child of a tag node is detached by taking it out of the list. -/
theorem outcome_detach_child (sound : grove.Sound)
    (present : grove.node? parent = some (.tag name attributes children))
    (member : children[position]? = some child) :
    (detach child).outcome grove =
        (.ok (), grove.unlinked parent child (children.eraseIdx position)) ∧
      Pruned grove (grove.unlinked parent child (children.eraseIdx position)) parent [child] := by
  obtain ⟨bounded, found⟩ := List.getElem?_eq_some_iff.1 member
  have listed := childList?_of_node? present
  have own : grove.children parent = children := children_of_node? present
  have linked : grove.parentLink? child = some parent :=
    sound.listed (by rw [own]; exact List.mem_of_getElem? member)
  have plain : grove.isAnchor parent = false := by
    rw [isAnchor, anchored?, present]
    rfl
  have distinct : children.Nodup := own ▸ sound.nodup parent
  have place : children.idxOf? child = some position := by
    refine List.idxOf?_eq_some_iff.2 ⟨bounded, found, fun earlier before same => ?_⟩
    have equal := distinct.getElem_inj_iff.1 (same.trans found.symm)
    omega
  refine ⟨?_, pruned_eraseIdx listed place distinct⟩
  rw [detach, Edit.outcome_bind_of_ok (Edit.outcome_get _), linked]
  simp only [plain, Bool.and_false, Bool.false_eq_true, if_false]
  rw [removeSibling, Edit.outcome_bind_of_ok (outcome_requireChildren_of_listed listed), place]
  rfl

/-- What is above a parent without one of its children isn't that child. -/
theorem Grove.Pruned.apart (pruned : Pruned grove last parent [child]) (sound : grove.Sound)
    (acyclic : grove.Acyclic) (linked : grove.parentLink? child = some parent) :
    last.isAtOrAbove child parent = false := by
  have kept : ∀ lower upper, last.Link lower upper → grove.Link lower upper :=
    fun _ _ link => (pruned.link_of_link link).2
  rw [Bool.eq_false_iff, ne_eq, isAtOrAbove_iff (pruned.sound sound) (acyclic.of_link kept)]
  intro way
  exact acyclic child (TransGen.head' linked (ReflTransGen.mono kept _ _ way))

/-- What is detached and then inserted where it was is where it was, like everything else. -/
theorem outcome_detach_insertChildren (sound : grove.Sound) (acyclic : grove.Acyclic)
    (present : grove.node? parent = some (.tag name attributes children))
    (member : children[position]? = some child) :
    (do detach child; insertChildren parent position [.node child]).outcome grove =
      (.ok [child], grove) := by
  obtain ⟨detached, pruned⟩ := outcome_detach_child sound present member
  obtain ⟨bounded, found⟩ := List.getElem?_eq_some_iff.1 member
  have own : grove.children parent = children := children_of_node? present
  have linked : grove.parentLink? child = some parent :=
    sound.listed (by rw [own]; exact List.mem_of_getElem? member)
  have shortened : (children.eraseIdx position).length = children.length - 1 :=
    List.length_eraseIdx_of_lt bounded
  have relisted : (grove.unlinked parent child (children.eraseIdx position)).childList? parent =
      some (children.eraseIdx position) := by
    rw [unlinked, childList?_eq_of_node? node?_setParent, childList?_setChildren, if_pos rfl,
      childList?_of_node? present]
    rfl
  have restored : Placement.atIndex position (children.eraseIdx position) child = children := by
    rw [Placement.atIndex, insertionPosition_of_le (by omega), ← found]
    exact List.insertIdx_eraseIdx_getElem bounded
  have denoted : insertionIndex? (children.eraseIdx position).length position =
      some (position : Int) := by
    rw [insertionIndex?_inside (by omega) (by omega), if_neg (by omega)]
  have free : (grove.unlinked parent child (children.eraseIdx position)).parentLink? child =
      none := by
    rw [pruned.link, if_pos List.mem_cons_self]
  have attaching : (attach (.atIndex position) parent (.node child)).Yields
      (grove.unlinked parent child (children.eraseIdx position))
      (Attached (.atIndex position) _ parent (.node child)) :=
    attach_node_yields (Option.isSome_of_eq_some relisted) free
      (pruned.apart sound acyclic linked)
  obtain ⟨node, last, succeeded, attached⟩ := attaching.exists_ok fun _ => id
  obtain rfl : node = child := attached.child_eq
  have back : last = grove := by
    rw [attached.eq_of_node.2, children_of_childList? relisted, restored,
      relinked present linked]
  rw [back] at succeeded
  rw [Edit.outcome_bind_of_ok detached, insertChildren_eq_insertEachAt, insertEachAt,
    Edit.outcome_bind_of_ok (outcome_requireChildren_of_listed relisted), denoted]
  have each : (attachEach (.atIndex position) false parent [.node node]).outcome
      (grove.unlinked parent node (children.eraseIdx position)) = (.ok [node], grove) := by
    rw [attachEach, attachNext_false, Edit.outcome_bind_of_ok succeeded]
    rfl
  exact (Edit.outcome_bind_of_ok each).trans rfl

/-- Sources that fit are inserted at any index that is in range. The nodes that they became are
yielded and are the children at the position that the index denotes, in order, and nothing else is
changed; nothing at all if the index isn't in range. A child that is detached and then inserted
where it was leaves everything as it was. -/
theorem insertion_of_reached (reached : Reached (fun _ _ => True) grove) (acyclic : grove.Acyclic)
    (present : grove.node? parent = some (.tag name attributes children)) :
    (∀ (index : Int) (sources : List Source),
      (-(children.length : Int) ≤ index ∧ index ≤ children.length →
        (∀ source ∈ sources, grove.Fits parent source) → (Source.allNodes sources).Nodup →
          ∃ (position : Nat) (added : List NodeId) (last : Grove),
            (position : Int) = (if index < 0 then index + children.length else index) ∧
            (insertChildren parent index sources).outcome grove = (.ok added, last) ∧
            Inserted parent position grove sources added last) ∧
      (¬ (-(children.length : Int) ≤ index ∧ index ≤ children.length) →
        (insertChildren parent index sources).outcome grove =
          (.error .insertionOutOfRange, grove))) ∧
    ∀ (position : Nat) (child : NodeId), children[position]? = some child →
      (do detach child; insertChildren parent position [.node child]).outcome grove =
        (.ok [child], grove) := by
  have sound := reached.sound_and_anchored.1
  refine ⟨fun index sources => ⟨?_, ?_⟩, ?_⟩
  · rintro ⟨least, most⟩ fits distinct
    obtain ⟨position, denoted⟩ : ∃ position : Nat,
        (position : Int) = if index < 0 then index + children.length else index :=
      ⟨(if index < 0 then index + children.length else index).toNat, by split <;> omega⟩
    have bounded : position ≤ children.length := by
      split at denoted <;> omega
    have inRange := insertionIndex?_inside least most
    rw [← denoted] at inRange
    obtain ⟨added, last, succeeded, inserted⟩ := (insertChildren_inserts sound acyclic present
      inRange bounded fits distinct).exists_ok fun _ => id
    exact ⟨position, added, last, denoted, succeeded, inserted⟩
  · intro outside
    exact outcome_insertChildren_outside (childList?_of_node? present)
      (insertionIndex?_outside outside)
  · intro position child member
    exact outcome_detach_insertChildren sound acyclic present member

/-- A tag node with two children, and another one that has no parent. -/
def shelfGrove : Grove :=
  (Act.operate (.createTag (.text "loose") [] [])).apply
    ((Act.operate (.createTag (.text "shelf") [] [.node ⟨0⟩, .node ⟨1⟩])).apply
      ((Act.operate (.createLeaf (.text "last"))).apply
        ((Act.operate (.createLeaf (.text "first"))).apply {})))

theorem reached_shelfGrove : Reached (fun _ _ => True) shelfGrove := by
  apply Reached.step
  · apply Reached.step
    · apply Reached.step
      · apply Reached.start.step
        · exact ⟨fun id member => (by cases member), fun parts equal => (by cases equal)⟩
        · trivial
      · exact ⟨fun id member => (by cases member), fun parts equal => (by cases equal)⟩
      · trivial
    · refine ⟨?_, fun parts equal => (by cases equal)⟩
      unfold Operation.Available Offers
      decide
    · trivial
  · exact ⟨fun id member => (by cases member), fun parts equal => (by cases equal)⟩
  · trivial

/-- A text, a node and a template in front of the last child. -/
theorem insertion_of_reached_shelfGrove :
    Reached (fun _ _ => True) shelfGrove ∧ shelfGrove.Acyclic ∧
      (∃ text made last, (insertChildren ⟨2⟩ (-1) [.text "new", .node ⟨3⟩,
          .template (.define (.text "made") [] [.text "within"])]).outcome shelfGrove =
            (.ok [text, ⟨3⟩, made], last) ∧
        last.children ⟨2⟩ = [⟨0⟩, text, ⟨3⟩, made, ⟨1⟩]) ∧
      (do detach ⟨0⟩; insertChildren ⟨2⟩ 0 [.node ⟨0⟩]).outcome shelfGrove =
        (.ok [⟨0⟩], shelfGrove) := by
  have acyclic : shelfGrove.Acyclic := acyclic_of_later (by decide)
  have present : shelfGrove.node? ⟨2⟩ = some (.tag ⟨"shelf", by decide⟩ {} [⟨0⟩, ⟨1⟩]) := by decide
  obtain ⟨inserts, restores⟩ := insertion_of_reached reached_shelfGrove acyclic present
  have fits : ∀ source ∈ [Source.text "new", .node ⟨3⟩,
      .template (.define (.text "made") [] [.text "within"])], shelfGrove.Fits ⟨2⟩ source := by
    intro source member
    simp only [List.mem_cons, List.not_mem_nil, or_false] at member
    rcases member with rfl | rfl | rfl
    · exact .new rfl (.text "new")
    · refine .node ⟨by decide, by decide⟩ (by decide) fun way => ?_
      have above := (isAtOrAbove_iff reached_shelfGrove.sound_and_anchored.1 acyclic).2 way
      exact absurd above (by decide)
    · exact .new rfl (.template rfl rfl (.cons (.text "within") .nil))
  obtain ⟨position, added, last, denoted, succeeded, inserted⟩ :=
    (inserts (-1) _).1 ⟨by decide, by decide⟩ fits (by decide)
  obtain rfl : position = 1 := Int.natCast_inj.1 denoted
  have listed := children_of_node? (inserted.own present)
  have stems := inserted.stems
  rcases stems with _ | ⟨-, _ | ⟨stems, _ | ⟨-, _ | -⟩⟩⟩
  cases stems with
  | same =>
      exact ⟨reached_shelfGrove, acyclic, ⟨_, _, last, succeeded, listed⟩, restores 0 ⟨0⟩ rfl⟩
  | new plain => cases plain

end XmlGrove
