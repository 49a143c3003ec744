import XmlGrove.Proofs.Document.History

/-!
# Refused children

A parent takes its children one after the other, and nothing is undone when one of them is
refused: what was attached before stays attached, and a node that a given up construction has
adopted keeps the link to a parent that never gets its children. These are the two ways in which
a call that fails changes nodes that were there before. Otherwise they are as before, and they can
be detached and attached as before.
-/

namespace XmlGrove

open Grove Relation

variable {grove middle last : Grove} {id child parent : NodeId} {source : Source}
  {sources : List Source} {base : Nat}

/-! ## Stranded nodes -/

mutual

/-- The construction of a template, which is given up, adopted an existing node before. -/
def Template.Strands (grove : Grove) : Template → Prop
  | .define givenName givenAttributes sources =>
    ∃ name attributes, checkedTagName givenName = .ok name ∧
      checkedAttributes {} givenAttributes = .ok attributes ∧
      Source.AnyStrands grove.nextId (grove.add ⟨.unfinished name attributes, none⟩) sources

/-- An existing node was adopted for a source that was refused then. -/
def Source.Strands (grove : Grove) : Source → Prop
  | .template definition => definition.Strands grove
  | .text _ | .node _ | .unfit => False

/-- Of sources that a parent adopts one after the other until one is refused, an adopted one
holds an existing node, or the refused one strands one. -/
def Source.AnyStrands (parent : NodeId) (grove : Grove) : List Source → Prop
  | [] => False
  | first :: rest =>
    match (adopt parent first).outcome grove with
    | (.ok _, middle) => first.nodes ≠ [] ∨ Source.AnyStrands parent middle rest
    | (.error _, _) => first.Strands grove

end

theorem Template.strands_define_iff {givenName : GivenName}
    {givenAttributes : List (GivenName × Option String)} {name : Name} {attributes : Attributes}
    (named : checkedTagName givenName = .ok name)
    (checked : checkedAttributes {} givenAttributes = .ok attributes) :
    (Template.define givenName givenAttributes sources).Strands grove ↔
      Source.AnyStrands grove.nextId (grove.add ⟨.unfinished name attributes, none⟩) sources := by
  rw [Template.Strands, named, checked]
  simp

mutual

theorem Template.not_strands (definition : Template) (grove : Grove)
    (new : definition.nodes = []) : ¬ definition.Strands grove := by
  cases definition with
  | define givenName givenAttributes sources =>
      rw [Template.nodes] at new
      rw [Template.Strands]
      rintro ⟨name, attributes, _, _, strands⟩
      exact Source.not_anyStrands sources _ _ new strands

/-- A source that holds no existing node strands none. -/
theorem Source.not_strands (source : Source) (grove : Grove) (new : source.nodes = []) :
    ¬ source.Strands grove := by
  cases source with
  | template definition =>
      rw [Source.nodes] at new
      rw [Source.Strands]
      exact definition.not_strands grove new
  | text content => exact id
  | node id => exact fun strands => strands
  | unfit => exact id

theorem Source.not_anyStrands (sources : List Source) (parent : NodeId) (grove : Grove)
    (new : Source.allNodes sources = []) : ¬ Source.AnyStrands parent grove sources := by
  cases sources with
  | nil => exact id
  | cons first rest =>
      rcases List.append_eq_nil_iff.1 new with ⟨own, others⟩
      rw [Source.AnyStrands]
      split
      · rintro (held | strands)
        · exact held own
        · exact Source.not_anyStrands rest parent _ others strands
      · exact first.not_strands grove own

end

namespace Grove

/-- The nodes before a base are linked as before. -/
def SameLinks (base : Nat) (before after : Grove) : Prop :=
  ∀ id : NodeId, id.index < base → after.parentLink? id = before.parentLink? id

theorem SameLinks.refl (base : Nat) (grove : Grove) : SameLinks base grove grove :=
  fun _ _ => rfl

theorem sameLinks_add_iff {node : Node} :
    SameLinks base (grove.add ⟨node, none⟩) last ↔ SameLinks base grove last := by
  simp only [SameLinks, parentLink?_add_free]

/-- What is constructed without holding an existing node links none of them. -/
theorem Grafted.sameLinks (grafted : Grafted base [] grove last) : SameLinks base grove last := by
  intro id before
  cases linked : last.parentLink? id with
  | none =>
      cases former : grove.parentLink? id with
      | none => rfl
      | some owner =>
          rw [grafted.link_of_link former] at linked
          cases linked
  | some owner =>
      rcases grafted.link_cases linked with former | ⟨_, _, older, _⟩
      · rw [former]
      · cases older before

end Grove

/-- A parent has adopted a source before a later one is refused. -/
theorem PartlyAdopted.sameLinks_iff {later : Prop} (bears : grove.Bears parent)
    (recent : base ≤ parent.index) (older : ∀ id ∈ source.nodes, id.index < base)
    (free : ∀ id ∈ source.nodes, grove.parentLink? id = none)
    (adopted : Adopted grove parent source child middle)
    (others : PartlyAdopted base middle parent sources last)
    (same : SameLinks base middle last ↔ ¬ later) :
    SameLinks base grove last ↔ ¬ (source.nodes ≠ [] ∨ later) := by
  have held : ∀ id ∈ source.nodes, grove.Has id := fun id member =>
    has_of_older bears.1 recent (older id member)
  by_cases new : source.nodes = []
  · have grafted := adopted.grafted held bears recent older
    rw [new] at grafted
    have former := grafted.sameLinks
    constructor
    · rintro links (held | holds)
      · exact held new
      · apply same.1 _ holds
        intro id before
        rw [links id before, former id before]
    · intro avoids id before
      rw [same.2 (fun holds => avoids (.inr holds)) id before, former id before]
  · constructor
    · rcases List.exists_mem_of_ne_nil _ new with ⟨id, member⟩
      have linked := others.grafted.isSome_link (adopted.bound held member)
      intro links
      rw [links id (older id member), free id member] at linked
      cases linked
    · intro avoids
      exact absurd (.inl new) avoids

/-! What is adopted had no parent. If an adoption fails, the nodes that are older than the
construction that it is a part of have the links that they had exactly if none is stranded. -/

mutual

theorem instantiate_takes (definition : Template) (grove : Grove) (sound : grove.Sound)
    (base : Nat) (recent : base ≤ grove.entries.size)
    (older : ∀ id ∈ definition.nodes, id.index < base) :
    Edit.Ensures (instantiate definition) grove
      (fun _ _ => ∀ id ∈ definition.nodes, grove.parentLink? id = none)
      (fun last => SameLinks base grove last ↔ ¬ definition.Strands grove) := by
  cases definition with
  | define givenName givenAttributes sources =>
      rw [Template.nodes] at older ⊢
      rw [instantiate]
      -- Names and attributes are checked before anything is adopted.
      cases named : checkedTagName givenName with
      | error fault =>
          apply Edit.Ensures.throw_bind
          refine ⟨fun _ => ?_, fun _ => .refl base grove⟩
          rw [Template.Strands]
          rintro ⟨name, attributes, equal, _⟩
          rw [named] at equal
          cases equal
      | ok name =>
          cases checked : checkedAttributes {} givenAttributes with
          | error fault =>
              apply Edit.Ensures.bind
              apply Edit.ensures_pure
              apply Edit.Ensures.throw_bind
              refine ⟨fun _ => ?_, fun _ => .refl base grove⟩
              rw [Template.Strands]
              rintro ⟨name, attributes, _, equal, _⟩
              rw [checked] at equal
              cases equal
          | ok attributes =>
              apply Edit.Ensures.bind
              apply Edit.ensures_pure
              apply Edit.Ensures.bind
              apply Edit.ensures_pure
              apply Edit.Ensures.bind
              apply Edit.ensures_create
              apply Edit.Ensures.bind
              apply (adoptAll_takes grove.nextId sources _
                (sound.add (.unfinished name attributes) trivial) bears_unfinished base recent
                older).mono
              · intro children last free
                apply Edit.Ensures.bind
                apply Edit.ensures_modify
                apply Edit.ensures_pure
                intro id member
                rw [← free id member, parentLink?_add_free]
              · intro last same
                rw [← sameLinks_add_iff, same, Template.strands_define_iff named checked]

theorem adopt_takes (parent : NodeId) (source : Source) (grove : Grove) (sound : grove.Sound)
    (base : Nat) (recent : base ≤ grove.entries.size)
    (older : ∀ id ∈ source.nodes, id.index < base) :
    Edit.Ensures (adopt parent source) grove
      (fun _ _ => ∀ id ∈ source.nodes, grove.parentLink? id = none)
      (fun last => SameLinks base grove last ↔ ¬ source.Strands grove) := by
  cases source with
  | text content =>
      rw [adopt]
      apply Edit.Ensures.bind
      apply Edit.ensures_create
      apply Edit.Ensures.bind
      apply Edit.ensures_modify
      apply Edit.ensures_pure
      intro id member
      cases member
  | node id =>
      rw [adopt]
      apply adoptNode_ensures.mono
      · intro child last adopted other member
        rw [Source.nodes, List.mem_singleton] at member
        cases adopted with
        | made created constructed => exact absurd rfl (created id)
        | found same free acyclic =>
            cases same
            rw [member, free]
      · rintro _ rfl
        exact ⟨fun _ strands => strands, fun _ => .refl base _⟩
  | template definition =>
      rw [Source.nodes] at older ⊢
      rw [adopt, Source.Strands]
      apply Edit.Ensures.bind
      apply (instantiate_takes definition grove sound base recent older).mono
      · intro child middle free
        apply Edit.Ensures.bind
        apply Edit.ensures_modify
        apply Edit.ensures_pure
        exact free
      · intro last same
        exact same
  | unfit =>
      rw [adopt]
      exact Edit.ensures_throw ⟨fun _ strands => strands, fun _ => .refl base grove⟩

theorem adoptAll_takes (parent : NodeId) (sources : List Source) (grove : Grove)
    (sound : grove.Sound) (bears : grove.Bears parent) (base : Nat)
    (recent : base ≤ parent.index) (older : ∀ id ∈ Source.allNodes sources, id.index < base) :
    Edit.Ensures (adoptAll parent sources) grove
      (fun _ _ => ∀ id ∈ Source.allNodes sources, grove.parentLink? id = none)
      (fun last => SameLinks base grove last ↔ ¬ Source.AnyStrands parent grove sources) := by
  cases sources with
  | nil =>
      rw [adoptAll]
      apply Edit.ensures_pure
      intro id member
      cases member
  | cons first rest =>
      have present := bears.1
      rw [Has] at present
      have former : ∀ id ∈ first.nodes, id.index < base := fun id member =>
        older id (List.mem_append_left _ member)
      have latter : ∀ id ∈ Source.allNodes rest, id.index < base := fun id member =>
        older id (List.mem_append_right _ member)
      have held : ∀ id ∈ first.nodes, grove.Has id := fun id member =>
        has_of_older bears.1 recent (former id member)
      rw [adoptAll, Source.AnyStrands]
      apply Edit.Ensures.bind
      apply (adopt_takes parent first grove sound base (by omega) former).with_outcome.mono
      · rintro child middle ⟨free, succeeded⟩
        have adopted := (adopt_ensures parent first grove sound held).of_ok succeeded
        have grafted := adopted.grafted held bears recent former
        rw [succeeded]
        apply Edit.Ensures.bind
        -- The base stays that of the whole construction, of which the first source is a part.
        apply (adoptAll_takes parent rest middle (grafted.sound sound) (grafted.bears bears)
          base recent latter).with_outcome.mono
        · rintro children last ⟨others, _⟩
          apply Edit.ensures_pure
          intro id member
          rcases List.mem_append.1 member with own | other
          · exact free id own
          · cases link : grove.parentLink? id with
            | none => rfl
            | some owner =>
                have taken := others id other
                rw [grafted.link_of_link link] at taken
                cases taken
        · rintro last ⟨same, fault, failed⟩
          have others := (adoptAll_ensures parent rest middle (grafted.sound sound)
            (grafted.bears bears) base recent latter).of_error failed
          exact others.sameLinks_iff bears recent former free adopted same
      · rintro last ⟨same, fault, failed⟩
        rw [failed]
        exact same

end

/-! ## Calls that attach children -/

/-- A call that attaches children: a construction with children, or one that appends or inserts
children, not clones of them. Children are prepended at the index zero. The content of a
construction, if there is one, replaces the texts among its children; other contents than texts
are not told apart. -/
inductive Attempt where
  | construct (name : GivenName) (attributes : List (GivenName × Option String))
      (sources : List Source) (content : Option (Option String))
  | append (parent : NodeId) (sources : List Source)
  | insert (parent : NodeId) (index : Int) (sources : List Source)

/-- Of sources that are attached one after the other, the first one is attached, or it strands an
existing node when it is refused. -/
def Begins (placement : Placement) (parent : NodeId) (grove : Grove) : List Source → Prop
  | [] => False
  | first :: _ =>
    match (attach placement parent first).outcome grove with
    | (.ok _, _) => True
    | (.error _, _) => (grove.childList? parent).isSome = true ∧ first.Strands grove

/-- Sources that are inserted at an index begin with the last one of them. -/
def BeginsAt (parent : NodeId) (index : Int) (grove : Grove) (sources : List Source) : Prop :=
  ∃ children position, grove.childList? parent = some children ∧
    insertionIndex? children.length index = some position ∧
    Begins (.atIndex position) parent grove sources.reverse

namespace Attempt

/-- Make the call; its results are the new children, or the constructed node. -/
def run : Attempt → Edit (List NodeId)
  | construct name attributes sources content => do
    let id ← createTag name attributes sources
    match content with
    | none => return [id]
    | some none => throw .unfitTextContent
    | some (some text) =>
      setTextContent id (some text)
      return [id]
  | append parent sources => appendChildren parent sources
  | insert parent index sources => insertChildren parent index sources

/-- The nodes that a call is handed. -/
def nodes : Attempt → List NodeId
  | construct _ _ sources _ => Source.allNodes sources
  | append parent sources | insert parent _ sources => parent :: Source.allNodes sources

/-- Before a call that fails refuses something, it has attached a child, or else a construction
that it gives up has adopted an existing node. -/
def Advanced (attempt : Attempt) (grove : Grove) : Prop :=
  match attempt with
  | construct name attributes sources _ =>
    match (createTag name attributes sources).outcome grove with
    | (.ok _, _) => Source.allNodes sources ≠ []
    | (.error _, _) => (Template.define name attributes sources).Strands grove
  | append parent sources => Begins .atEnd parent grove sources
  | insert parent index sources => BeginsAt parent index grove sources

end Attempt

namespace Grove

variable {before after : Grove}

/-- All nodes that were there before have the parent and the children that they had. -/
def Kept (before after : Grove) : Prop :=
  ∀ id, before.Has id → after.parentLink? id = before.parentLink? id ∧
    after.childList? id = before.childList? id

/-- Nodes that were there before can be detached as before. -/
def DetachesAlike (before after : Grove) : Prop :=
  ∀ id, before.Has id → ((detach id).outcome after).1 = ((detach id).outcome before).1

/-- Nodes that were there before can be attached to each other as before. -/
def AttachesAlike (before after : Grove) : Prop :=
  ∀ parent id, before.Has parent → before.Has id →
    ((appendChild parent (.node id)).outcome after).1 =
        ((appendChild parent (.node id)).outcome before).1 ∧
      ∀ index, ((insertChild parent index (.node id)).outcome after).1 =
        ((insertChild parent index (.node id)).outcome before).1

end Grove

/-- What a call that refuses a child leaves behind. -/
inductive Aftermath (advanced : Prop) (grove : Grove) : Grove → Prop
  | idle {held : List NodeId} {last : Grove} (avoids : ¬ advanced)
      (abandoned : Abandoned grove held last)
      (same : SameLinks grove.entries.size grove last) : Aftermath advanced grove last
  | begun {last : Grove} (advances : advanced) (changed : ¬ Kept grove last) :
      Aftermath advanced grove last

theorem Aftermath.unchanged {advanced : Prop} (avoids : ¬ advanced) :
    Aftermath advanced grove grove := by
  have abandoned : Abandoned grove [] grove := ⟨.none, .refl grove⟩
  exact .idle avoids abandoned (.refl _ grove)

theorem Abandoned.kept {held : List NodeId} (abandoned : Abandoned grove held last)
    (same : SameLinks grove.entries.size grove last) : Kept grove last :=
  fun id has => ⟨same id has, childList?_eq_of_node? (abandoned.grafted.node? has)⟩

theorem Abandoned.aftermath {held : List NodeId} {advanced : Prop}
    (abandoned : Abandoned grove held last)
    (same : SameLinks grove.entries.size grove last ↔ ¬ advanced) :
    Aftermath advanced grove last := by
  by_cases advances : advanced
  · apply Aftermath.begun advances
    intro kept
    exact same.1 (fun id has => (kept id has).1) advances
  · exact .idle advances abandoned (same.2 advances)

theorem Aftermath.kept_iff {advanced : Prop} (aftermath : Aftermath advanced grove last) :
    Kept grove last ↔ ¬ advanced := by
  cases aftermath with
  | idle avoids abandoned same => exact ⟨fun _ => avoids, fun _ => abandoned.kept same⟩
  | begun advances changed =>
      exact ⟨fun kept => absurd kept changed, fun avoids => absurd advances avoids⟩

/-- What was constructed is given up. -/
theorem Constructed.aftermath {held : List NodeId} (constructed : Constructed grove held child last)
    (present : ∀ id ∈ held, grove.Has id) (free : ∀ id ∈ held, grove.parentLink? id = none) :
    Aftermath (held ≠ []) grove last := by
  have abandoned : Abandoned grove held last := ⟨constructed.grafted, constructed.tight⟩
  apply abandoned.aftermath
  rw [ne_eq, not_not]
  constructor
  · intro same
    apply List.eq_nil_iff_forall_not_mem.2
    intro id member
    have linked := constructed.bound id member
    rw [same id (present id member), free id member] at linked
    cases linked
  · rintro rfl
    exact constructed.grafted.sameLinks

/-! ## Refusals of one child and of several -/

theorem attach_refuses (placement : Placement) (parent : NodeId) (source : Source)
    (sound : grove.Sound) (present : ∀ id ∈ source.nodes, grove.Has id) :
    Edit.Ensures (attach placement parent source) grove (fun _ _ => True)
      (Aftermath ((grove.childList? parent).isSome = true ∧ source.Strands grove) grove) := by
  rw [attach]
  apply Edit.Ensures.bind
  apply (requireChildren_tells parent grove).mono
  · rintro children _ ⟨rfl, listed⟩
    rw [listed]
    apply Edit.Ensures.bind
    apply (adopt_takes parent source _ sound _ (Nat.le_refl _) present).with_outcome.mono
    · intro child middle _
      trivial
    · rintro last ⟨same, fault, failed⟩
      have abandoned := (adopt_ensures parent source _ sound present).of_error failed
      apply abandoned.aftermath
      rw [same]
      simp
  · rintro _ ⟨rfl, unlisted⟩
    apply Aftermath.unchanged
    rintro ⟨listed, _⟩
    rw [unlisted] at listed
    cases listed

/-- A child that was attached is still listed after others were attached, too. -/
theorem Attached.not_kept {placement : Placement} (fair : placement.IsFair)
    (sound : grove.Sound) (attached : Attached placement grove parent source child middle)
    (offered : ∀ id ∈ source.nodes, grove.Offers id) {safe : Prop}
    (extended : Extended safe middle last) : ¬ Kept grove last := by
  have changed := attached.changed fair sound offered
  have own := attached.own
  rcases attached with ⟨_, listed, adopted, _⟩
  have member : child ∈ middle.children parent := by
    rw [own, (fair _ _).mem_iff]
    exact List.mem_cons_self
  have linked : last.Link child parent :=
    extended.keeps ((changed.moves.sound sound).listed member)
  rcases Option.isSome_iff_exists.1 listed with ⟨children, known⟩
  have has := has_of_childList? known
  have finished : last.isUnfinished parent = false := by
    rw [isUnfinished_of_shape? (extended.changed.moves.shape? (changed.moves.has has)),
      isUnfinished_of_shape? (changed.moves.shape? has)]
    exact isUnfinished_of_childList? known
  -- If the parent had its former children only, the link of the new child would be loose.
  intro kept
  have unlisted : child ∉ last.children parent := by
    rw [Grove.children, (kept parent has).2]
    exact sound.not_listed adopted.free
  have loose := extended.changed.tight id child parent ⟨linked, unlisted, finished⟩
  exact loose.unlisted member

theorem attachEach_refuses {placement : Placement} (fair : placement.IsFair) (parent : NodeId)
    (sources : List Source) (sound : grove.Sound)
    (offered : ∀ id ∈ Source.allNodes sources, grove.Offers id) :
    Edit.Ensures (attachEach placement false parent sources) grove (fun _ _ => True)
      (Aftermath (Begins placement parent grove sources) grove) := by
  cases sources with
  | nil => exact Edit.ensures_pure trivial
  | cons first rest =>
      have own : ∀ id ∈ first.nodes, grove.Offers id := fun id member =>
        offered id (List.mem_append_left _ member)
      have has : ∀ id ∈ first.nodes, grove.Has id := fun id member => (own id member).1
      rw [attachEach, attachNext_false, Begins]
      apply Edit.Ensures.bind
      apply (attach_refuses placement parent first sound has).with_outcome.mono
      · rintro child middle ⟨_, succeeded⟩
        have attached := (attach_ensures placement parent first sound has).of_ok succeeded
        have moves := (attached.changed fair sound own).moves
        rw [succeeded]
        apply Edit.Ensures.bind
        apply (attachEach_ensures fair false parent rest (moves.sound sound) fun id member =>
          moves.offers (offered id (List.mem_append_right _ member))).mono
        · intro children last _
          exact Edit.ensures_pure trivial
        · intro last extended
          exact .begun trivial (attached.not_kept fair sound own extended)
      · rintro last ⟨aftermath, fault, failed⟩
        rw [failed]
        exact aftermath

/-! ## The content of a constructed node -/

theorem instantiate_lists (definition : Template) (sound : grove.Sound)
    (held : ∀ id ∈ definition.nodes, grove.Has id) :
    Edit.Ensures (instantiate definition) grove
      (fun id last => (last.childList? id).isSome = true) (fun _ => True) := by
  cases definition with
  | define givenName givenAttributes sources =>
      rw [instantiate]
      apply Edit.Ensures.bind
      apply Edit.ensures_ofExcept _ trivial
      intro name _
      apply Edit.Ensures.bind
      apply Edit.ensures_ofExcept _ trivial
      intro attributes _
      apply Edit.Ensures.bind
      apply Edit.ensures_create
      apply Edit.Ensures.bind
      apply (adoptAll_ensures grove.nextId sources _
        (sound.add (.unfinished name attributes) trivial) bears_unfinished grove.entries.size
        (Nat.le_refl _) held).mono
      · intro children last adopted
        apply Edit.Ensures.bind
        apply Edit.ensures_modify
        apply Edit.ensures_pure
        rw [childList?, node?_setNode, if_pos ⟨rfl, adopted.grafted.has has_nextId_add⟩]
        rfl
      · intro last _
        trivial

theorem setTextContent_yields (text : String) (sound : grove.Sound)
    (listed : (grove.childList? id).isSome = true) :
    Edit.Yields (setTextContent id (some text)) grove (fun _ _ => True) := by
  rw [setTextContent.eq_def]
  apply Edit.Ensures.bind
  apply (requireChildren_tells id grove).mono
  · rintro children _ ⟨rfl, known⟩
    apply Edit.Ensures.bind
    apply Edit.ensures_get
    apply Edit.Ensures.bind
    have nodup := sound.nodup id
    have own := children_of_childList? known
    rw [own] at nodup
    apply (forM_removeSibling_yields _ (nodup.filter _) sound fun child member => by
      rw [own]
      exact (List.mem_filter.1 member).1).mono
    intro _ middle pruned
    rw [isSome_childList?_eq_shape?, ← pruned.shape, ← isSome_childList?_eq_shape?] at listed
    apply Edit.Ensures.bind
    rw [insertChild_eq_attach, attach]
    apply Edit.Ensures.bind
    apply (requireChildren_tells id middle).mono
    · rintro children _ ⟨rfl, _⟩
      rw [adopt]
      apply Edit.Ensures.bind
      apply Edit.Ensures.bind
      apply Edit.ensures_create
      apply Edit.Ensures.bind
      apply Edit.ensures_modify
      apply Edit.ensures_pure
      apply Edit.Ensures.bind
      apply Edit.ensures_modify
      apply Edit.ensures_pure
      apply Edit.ensures_pure
      trivial
    · rintro _ ⟨rfl, unlisted⟩
      rw [unlisted] at listed
      cases listed
  · rintro _ ⟨rfl, unlisted⟩
    rw [unlisted] at listed
    cases listed

/-! ## Refusals of whole calls -/

theorem createTag_refuses (name : GivenName) (attributes : List (GivenName × Option String))
    (sources : List Source) (sound : grove.Sound)
    (present : ∀ id ∈ Source.allNodes sources, grove.Has id) :
    Edit.Ensures (createTag name attributes sources) grove
      (fun id last => Aftermath (Source.allNodes sources ≠ []) grove last ∧ last.Sound ∧
        (last.childList? id).isSome = true)
      (Aftermath ((Template.define name attributes sources).Strands grove) grove) := by
  have held : ∀ id ∈ (Template.define name attributes sources).nodes, grove.Has id := present
  rw [createTag]
  apply (instantiate_takes _ grove sound _ (Nat.le_refl _) held).with_outcome.mono
  · rintro id last ⟨free, succeeded⟩
    have constructed := (instantiate_ensures _ grove sound held).of_ok succeeded
    have listed := (instantiate_lists _ sound held).of_ok succeeded
    exact ⟨constructed.aftermath present free, constructed.grafted.sound sound, listed⟩
  · rintro last ⟨same, fault, failed⟩
    exact ((instantiate_ensures _ grove sound held).of_error failed).aftermath same

theorem beginsAt_iff {index position : Int} {children : List NodeId}
    (listed : grove.childList? parent = some children)
    (found : insertionIndex? children.length index = some position) :
    BeginsAt parent index grove sources ↔
      Begins (.atIndex position) parent grove sources.reverse := by
  rw [BeginsAt, listed]
  simp [found]

theorem insertEachAt_refuses (parent : NodeId) (index : Int) (sources : List Source)
    (sound : grove.Sound) (offered : ∀ id ∈ Source.allNodes sources, grove.Offers id) :
    Edit.Ensures (insertEachAt false parent index sources) grove (fun _ _ => True)
      (Aftermath (BeginsAt parent index grove sources) grove) := by
  have reversed : ∀ id ∈ Source.allNodes sources.reverse, grove.Offers id := by
    intro id member
    rcases mem_allNodes.1 member with ⟨source, listed, held⟩
    exact offered id (mem_allNodes.2 ⟨source, List.mem_reverse.1 listed, held⟩)
  rw [insertEachAt]
  apply Edit.Ensures.bind
  apply (requireChildren_tells parent grove).mono
  · rintro children _ ⟨rfl, listed⟩
    split
    · rename_i outside
      apply Edit.ensures_throw
      apply Aftermath.unchanged
      rintro ⟨others, position, known, found, _⟩
      rw [listed] at known
      cases known
      rw [outside] at found
      cases found
    · rename_i position found
      apply Edit.Ensures.bind
      apply (attachEach_refuses (Placement.isFair_atIndex position) parent _ sound reversed).mono
      · intro inserted last _
        exact Edit.ensures_pure trivial
      · intro last aftermath
        rw [beginsAt_iff listed found]
        exact aftermath
  · rintro _ ⟨rfl, unlisted⟩
    apply Aftermath.unchanged
    rintro ⟨children, position, known, _⟩
    rw [unlisted] at known
    cases known

theorem Attempt.refuses (attempt : Attempt) (sound : grove.Sound)
    (available : ∀ id ∈ attempt.nodes, grove.Offers id) :
    Edit.Ensures attempt.run grove (fun _ _ => True)
      (Aftermath (attempt.Advanced grove) grove) := by
  cases attempt with
  | construct name attributes sources content =>
      have present : ∀ id ∈ Source.allNodes sources, grove.Has id :=
        fun id member => (available id member).1
      rw [run, Advanced]
      apply Edit.Ensures.bind
      apply (createTag_refuses name attributes sources sound present).with_outcome.mono
      · rintro id middle ⟨⟨aftermath, sound, listed⟩, succeeded⟩
        rw [succeeded]
        cases content with
        | none => exact Edit.ensures_pure trivial
        | some given =>
            cases given with
            | none => exact Edit.ensures_throw aftermath
            | some text =>
                apply Edit.Ensures.bind
                apply (setTextContent_yields text sound listed).ensures
                intro _ last _
                exact Edit.ensures_pure trivial
      · rintro last ⟨aftermath, fault, failed⟩
        rw [failed]
        exact aftermath
  | append parent sources =>
      rw [run, appendChildren_eq_attachEach]
      exact attachEach_refuses Placement.isFair_atEnd parent sources sound fun id member =>
        available id (List.mem_cons_of_mem _ member)
  | insert parent index sources =>
      rw [run, insertChildren_eq_insertEachAt]
      exact insertEachAt_refuses parent index sources sound fun id member =>
        available id (List.mem_cons_of_mem _ member)

/-! ## Nodes that were kept -/

theorem result_removeSibling (same : last.childList? parent = grove.childList? parent) :
    ((removeSibling parent child).outcome last).1 =
      ((removeSibling parent child).outcome grove).1 := by
  rw [removeSibling, Edit.outcome_bind, Edit.outcome_bind, outcome_requireChildren,
    outcome_requireChildren, same]
  cases grove.childList? parent with
  | none => rfl
  | some siblings =>
      dsimp only
      cases siblings.idxOf? child with
      | none => rfl
      | some position => rfl

theorem Abandoned.detachesAlike {held : List NodeId} (abandoned : Abandoned grove held last)
    (kept : Kept grove last) (sound : grove.Sound) : DetachesAlike grove last := by
  intro id has
  rw [detach, Edit.outcome_bind_of_ok (Edit.outcome_get last),
    Edit.outcome_bind_of_ok (Edit.outcome_get grove), (kept id has).1]
  cases linked : grove.parentLink? id with
  | none => rfl
  | some parent =>
      have owner := (sound.target linked).1
      have tag : last.isTag id = grove.isTag id := by
        rw [isTag, isTag, tag?, tag?, abandoned.grafted.node? has]
      have anchor : last.isAnchor parent = grove.isAnchor parent :=
        isAnchor_of_shape? (shape?_of_node? (abandoned.grafted.node? owner))
      dsimp only
      rw [tag, anchor]
      split
      · rfl
      · exact result_removeSibling (kept parent owner).2

theorem result_adoptNode :
    ((adoptNode parent id).outcome grove).1 =
      if (grove.parentLink? id).isSome then .error .attached
      else if grove.isTag id && grove.isAtOrAbove id parent then .error .cyclic
      else .ok id := by
  rw [adoptNode, Edit.outcome_bind_of_ok (Edit.outcome_get grove)]
  by_cases attached : (grove.parentLink? id).isSome = true
  · rw [if_pos attached, if_pos attached]
    rfl
  · rw [if_neg attached, if_neg attached]
    by_cases cyclic : (grove.isTag id && grove.isAtOrAbove id parent) = true
    · rw [if_pos cyclic, if_pos cyclic]
      rfl
    · rw [if_neg cyclic, if_neg cyclic]
      rfl

theorem result_attach (placement : Placement) :
    ((attach placement parent (.node id)).outcome grove).1 =
      match grove.childList? parent with
      | none => .error .noMember
      | some _ => ((adoptNode parent id).outcome grove).1 := by
  rw [attach, Edit.outcome_bind, outcome_requireChildren]
  cases grove.childList? parent with
  | none => rfl
  | some children =>
      dsimp only
      rw [adopt, Edit.outcome_bind]
      cases (adoptNode parent id).outcome grove with
      | mk result last => cases result <;> rfl

/-- The way up from a node that was there before is as before. -/
theorem Grove.Kept.way_iff (kept : Kept grove last) (sound : grove.Sound) {other : NodeId}
    (has : grove.Has id) :
    ReflTransGen last.Link id other ↔ ReflTransGen grove.Link id other := by
  constructor
  · intro way
    induction way using ReflTransGen.head_induction_on with
    | refl => exact .refl
    | @head child parent link _ induction =>
        rw [Link, (kept child has).1] at link
        exact (induction (sound.target link).1).head link
  · apply ReflTransGen.mono
    intro child parent link
    rw [Link, (kept child (has_of_parentLink? link)).1]
    exact link

theorem Abandoned.attachesAlike {held : List NodeId} (abandoned : Abandoned grove held last)
    (kept : Kept grove last) (sound : grove.Sound) (acyclic : grove.Acyclic) :
    AttachesAlike grove last := by
  have attached : ∀ (placement : Placement) parent id, grove.Has parent → grove.Has id →
      ((attach placement parent (.node id)).outcome last).1 =
        ((attach placement parent (.node id)).outcome grove).1 := by
    intro placement parent id owner has
    have tag : last.isTag id = grove.isTag id := by
      rw [isTag, isTag, tag?, tag?, abandoned.grafted.node? has]
    have above : last.isAtOrAbove id parent = grove.isAtOrAbove id parent := by
      rw [Bool.eq_iff_iff, isAtOrAbove_iff sound acyclic,
        isAtOrAbove_iff (abandoned.grafted.sound sound)
          (abandoned.grafted.acyclic has_of_parentLink? acyclic), kept.way_iff sound owner]
    rw [result_attach, result_attach, result_adoptNode, result_adoptNode, (kept parent owner).2,
      (kept id has).1, tag, above]
  intro parent id owner has
  constructor
  · rw [appendChild_eq_attach]
    exact attached .atEnd parent id owner has
  · intro index
    rw [insertChild_eq_attach]
    exact attached (.atIndex index) parent id owner has

/-- Whatever was done to documents and nodes, a call that attaches children and fails leaves all
nodes that were there with their parents and children exactly if it didn't advance before it
refused something. Then they can be detached as before, and also attached as before, unless
there already was a node above itself. -/
theorem kept_iff_of_reached (reached : Reached (fun _ _ => True) grove) (attempt : Attempt)
    (available : ∀ id ∈ attempt.nodes, grove.Offers id) {fault : Fault}
    (failed : attempt.run.outcome grove = (.error fault, last)) :
    (Kept grove last ↔ ¬ attempt.Advanced grove) ∧
      (¬ attempt.Advanced grove →
        DetachesAlike grove last ∧ (grove.Acyclic → AttachesAlike grove last)) := by
  have sound := reached.sound_and_anchored.1
  have aftermath := (attempt.refuses sound available).of_error failed
  refine ⟨aftermath.kept_iff, ?_⟩
  intro avoids
  cases aftermath with
  | idle _ abandoned same =>
      have kept := abandoned.kept same
      exact ⟨abandoned.detachesAlike kept sound, abandoned.attachesAlike kept sound⟩
  | begun advances _ => exact absurd advances avoids

/-- The grove of a text node and a tag node without a parent. -/
def scatteredGrove : Grove :=
  (Act.operate (.createTag (.text "parent") [] [])).apply
    ((Act.operate (.createLeaf (.text "loose"))).apply {})

theorem reached_scatteredGrove : Reached (fun _ _ => True) scatteredGrove := by
  apply Reached.step
  · apply Reached.start.step
    · exact ⟨fun id member => (by cases member), fun parts equal => (by cases equal)⟩
    · trivial
  · exact ⟨fun id member => (by cases member), fun parts equal => (by cases equal)⟩
  · trivial

theorem Edit.outcome_of_isOk_eq_false {operation : Edit α}
    (failed : (operation.outcome grove).1.isOk = false) :
    ∃ fault, operation.outcome grove = (.error fault, operation.after grove) := by
  rw [Edit.after]
  cases outcome : operation.outcome grove with
  | mk result last =>
      cases result with
      | error fault => exact ⟨fault, rfl⟩
      | ok value =>
          rw [outcome] at failed
          cases failed

/-- A template that can't be constructed because of a name within it. -/
def misnamedTemplate : Template :=
  .define (.text "new") [] [.text "text", .template (.define (.text "1") [] [])]

/-- Such a template in front of an existing node. -/
def refusedAttempt : Attempt := .append ⟨1⟩ [.template misnamedTemplate, .node ⟨0⟩]

theorem not_advanced_refusedAttempt : ¬ refusedAttempt.Advanced scatteredGrove := by
  rw [refusedAttempt, Attempt.Advanced, Begins]
  split
  · rename_i child last succeeded
    have failed : ((attach .atEnd ⟨1⟩ (.template misnamedTemplate)).outcome
        scatteredGrove).1.isOk = false := by decide
    rw [succeeded] at failed
    cases failed
  · rintro ⟨_, strands⟩
    exact Source.not_strands _ _ rfl strands

theorem kept_iff_of_reached_refusedAttempt :
    Reached (fun _ _ => True) scatteredGrove ∧
      (∀ id ∈ refusedAttempt.nodes, scatteredGrove.Offers id) ∧
      ∃ fault last, refusedAttempt.run.outcome scatteredGrove = (.error fault, last) ∧
        Kept scatteredGrove last ∧ DetachesAlike scatteredGrove last := by
  have available : ∀ id ∈ refusedAttempt.nodes, scatteredGrove.Offers id := by
    unfold Offers
    decide
  have refused : (refusedAttempt.run.outcome scatteredGrove).1.isOk = false := by decide
  rcases Edit.outcome_of_isOk_eq_false refused with ⟨fault, failed⟩
  rcases kept_iff_of_reached reached_scatteredGrove refusedAttempt available failed with
    ⟨kept, alike⟩
  exact ⟨reached_scatteredGrove, available, fault, _, failed,
    kept.2 not_advanced_refusedAttempt, (alike not_advanced_refusedAttempt).1⟩

/-- A text node that is handed to the construction of a tag node along with what is no source of a
child keeps a link to a tag node that nobody gets. -/
theorem not_kept_of_reached :
    ¬ ∀ (grove last : Grove) (attempt : Attempt) (fault : Fault),
      Reached (fun _ _ => True) grove → (∀ id ∈ attempt.nodes, grove.Offers id) →
        attempt.run.outcome grove = (.error fault, last) → Kept grove last := by
  intro keeps
  let attempt : Attempt := .construct (.text "tag") [] [.node ⟨0⟩, .unfit] none
  have available : ∀ id ∈ attempt.nodes, scatteredGrove.Offers id := by
    unfold Offers
    decide
  have refused : (attempt.run.outcome scatteredGrove).1.isOk = false := by decide
  rcases Edit.outcome_of_isOk_eq_false refused with ⟨fault, failed⟩
  have kept := keeps scatteredGrove _ attempt fault reached_scatteredGrove available failed
  have has : scatteredGrove.Has ⟨0⟩ := by
    unfold Has
    decide
  have linked : (attempt.run.after scatteredGrove).parentLink? ⟨0⟩ = some ⟨2⟩ := by
    decide
  have free : scatteredGrove.parentLink? ⟨0⟩ = none := by decide
  rw [(kept ⟨0⟩ has).1, free] at linked
  cases linked

end XmlGrove
