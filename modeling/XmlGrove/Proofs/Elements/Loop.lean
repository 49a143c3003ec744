import XmlGrove.Proofs.Building.Filling
import XmlGrove.Proofs.Document.Copy
import XmlGrove.Proofs.Elements.Recursion

/-!
# The conversion loop

The loop that converts an element tree makes the nodes on one level from their sketches, and fills
the elements among them afterwards, the last one first. What comes out is what the recursion over
the element tree yields, and the loop fails exactly where that has no result.
-/

namespace XmlGrove.Loading

open Grove

variable {grove middle last : Grove} {namer : Namer} {options : ParserOptions} {target : NodeId}

/-! ## Single nodes -/

/-- What the conversion of a node comes to that was sketched: a new node, unless its kind is
removed. -/
def Drawn (grove : Grove) (sketch : Option Sketch) (found : Option NodeId) (last : Grove) : Prop :=
  match sketch with
  | none => found = none ∧ last = grove
  | some sketch => found = some grove.nextId ∧ last = grove.add ⟨sketch.node, none⟩

theorem createLeaf_draws (content : Leaf) {sketches : Option (Option Sketch)}
    (sketched : sketches = (content.checked.toOption.map some).map fun leaf => leaf.map .leaf) :
    Edit.Ensures (some <$> createLeaf content) grove
      (fun found last => ∃ sketch, sketches = some sketch ∧ Drawn grove sketch found last)
      (fun _ => sketches = none) := by
  rw [map_eq_pure_bind, createLeaf]
  apply Edit.Ensures.bind
  cases checked : content.checked with
  | error fault =>
      apply Edit.Ensures.throw_bind
      rw [sketched, checked]
      rfl
  | ok leaf =>
      apply Edit.Ensures.bind
      apply Edit.ensures_pure
      apply Edit.ensures_create
      apply Edit.ensures_pure
      exact ⟨some (.leaf leaf), by rw [sketched, checked]; rfl, rfl, rfl⟩

theorem createLocalTag_makes (name : String) (attributes : List (String × String)) :
    Edit.Ensures (createLocalTag namer name attributes) grove
      (fun id last => ∃ valid entries, tagOf? namer name attributes = some (valid, entries) ∧
        id = grove.nextId ∧ last = grove.add ⟨.tag valid entries [], none⟩)
      (fun _ => tagOf? namer name attributes = none) := by
  rw [createLocalTag, tagOf?]
  apply Edit.Ensures.bind
  cases namer.localName name with
  | error fault => exact Edit.ensures_throw rfl
  | ok own =>
      apply Edit.ensures_pure
      apply Edit.Ensures.bind
      cases namer.localAttributes attributes with
      | error fault => exact Edit.ensures_throw rfl
      | ok given =>
          apply Edit.ensures_pure
          cases named : checkedTagName (.text own) with
          | error fault =>
              rw [createTag, instantiate, named]
              apply Edit.Ensures.throw_bind
              simp [Except.toOption, named]
          | ok valid =>
              cases checked : checkedAttributes {} given with
              | error fault =>
                  rw [createTag, instantiate, named]
                  apply Edit.Ensures.bind
                  apply Edit.ensures_pure
                  rw [checked]
                  apply Edit.Ensures.throw_bind
                  simp [Except.toOption, checked]
              | ok entries =>
                  apply (createTag_yields named checked).ensures
                  rintro _ _ ⟨rfl, rfl⟩
                  refine ⟨valid, entries, ?_, rfl, rfl⟩
                  simp [Except.toOption, named, checked]

theorem createLocalTag_draws {name : String} {attributes : List (String × String)} (item : Item)
    {sketches : Option (Option Sketch)}
    (sketched : sketches = (tagOf? namer name attributes).map
      fun (valid, entries) => some (.element valid entries item)) :
    Edit.Ensures (some <$> createLocalTag namer name attributes) grove
      (fun found last => ∃ sketch, sketches = some sketch ∧ Drawn grove sketch found last)
      (fun _ => sketches = none) := by
  rw [map_eq_pure_bind]
  apply Edit.Ensures.bind
  apply (createLocalTag_makes name attributes).mono
  · rintro _ _ ⟨valid, entries, accepted, rfl, rfl⟩
    apply Edit.ensures_pure
    exact ⟨some (.element valid entries item), by rw [sketched, accepted]; rfl, rfl, rfl⟩
  · intro _ refused
    rw [sketched, refused]
    rfl

theorem convertItem_draws (item : Item) :
    Edit.Ensures (convertItem namer options item) grove
      (fun found last =>
        ∃ sketch, item.sketch? namer options = some sketch ∧ Drawn grove sketch found last)
      (fun _ => item.sketch? namer options = none) := by
  cases item with
  | comment content tail =>
      rw [convertItem]
      apply Edit.ensures_ite
      · intro removed
        exact Edit.ensures_pure ⟨none, by simp [Item.sketch?, Item.leaf?, removed], rfl, rfl⟩
      · intro kept
        exact createLeaf_draws _ (by simp [Item.sketch?, Item.leaf?, kept])
  | instruction target content tail =>
      rw [convertItem]
      apply Edit.ensures_ite
      · intro removed
        exact Edit.ensures_pure ⟨none, by simp [Item.sketch?, Item.leaf?, removed], rfl, rfl⟩
      · intro kept
        apply Edit.Ensures.bind
        cases checked : checkedTarget target with
        | error fault =>
            apply Edit.ensures_throw
            simp only [Item.sketch?, Item.leaf?, if_neg kept, checked]
            rfl
        | ok valid =>
            apply Edit.ensures_pure
            apply createLeaf_draws
            simp only [Item.sketch?, Item.leaf?, if_neg kept, checked]
            rfl
  | entity name tail => exact createLeaf_draws _ rfl
  | element name attributes text children tail => exact createLocalTag_draws _ rfl

/-! ## Children -/

/-- New nodes became the last children of a tag node, as they were sketched, and everything else is
as it was. -/
structure Appended (target : NodeId) (sketches : List Sketch) (before : Grove) (added : List NodeId)
    (after : Grove) : Prop where
  grown : Grown (fun id => id = target) before after
  own : after.children target = before.children target ++ added
  drawn : List.Forall₂ (fun id sketch => ¬ before.Has id ∧ after.node? id = some sketch.node)
    added sketches
  distinct : added.Nodup

namespace Appended

variable {sketches more : List Sketch} {added others : List NodeId} {sketch : Sketch}

theorem nil (grove : Grove) : Appended target [] grove [] grove where
  grown := .refl grove
  own := (List.append_nil _).symm
  drawn := .nil
  distinct := .nil

theorem single {child : NodeId} (gained : Gained grove target child sketch.node last) :
    Appended target [sketch] grove [child] last where
  grown := gained.grown
  own := gained.own
  drawn := .cons ⟨gained.recent, gained.node?⟩ .nil
  distinct := List.nodup_singleton child

theorem recent (appended : Appended target sketches grove added last) :
    ∀ id ∈ added, ¬ grove.Has id :=
  forall_mem_of_forall₂ appended.drawn fun drawn => drawn.1

theorem has (appended : Appended target sketches grove added last) : ∀ id ∈ added, last.Has id :=
  forall_mem_of_forall₂ appended.drawn fun drawn => has_of_node? drawn.2

theorem append (former : Appended target sketches grove added middle)
    (latter : Appended target more middle others last) (has : grove.Has target) :
    Appended target (sketches ++ more) grove (added ++ others) last where
  grown := former.grown.trans latter.grown
  own := by rw [latter.own, former.own, List.append_assoc]
  drawn := by
    apply List.rel_append
    · apply former.drawn.imp
      rintro id sketch ⟨recent, present⟩
      refine ⟨recent, ?_⟩
      rw [latter.grown.node? (has_of_node? present), present]
      rintro rfl
      exact recent has
    · apply latter.drawn.imp
      rintro id sketch ⟨recent, present⟩
      exact ⟨fun earlier => recent (former.grown.has earlier), present⟩
  distinct := by
    apply former.distinct.append latter.distinct
    intro id member other
    exact latter.recent id other (former.has id member)

theorem listed (appended : Appended target sketches grove added last) (has : grove.Has target)
    (listed : (grove.childList? target).isSome = true) :
    (last.childList? target).isSome = true := by
  rwa [isSome_childList?_eq_shape?, appended.grown.shape has, ← isSome_childList?_eq_shape?]

end Appended

/-- To append a text is to append a new leaf. -/
theorem outcome_appendChild_text {parent : NodeId} (content : String)
    (listed : (grove.childList? parent).isSome = true) :
    (appendChild parent (.text content)).outcome grove =
      (appendChild parent (.node grove.nextId)).outcome
        (grove.add ⟨.leaf (.text content), none⟩) := by
  rcases Option.isSome_iff_exists.1 listed with ⟨siblings, known⟩
  have has : grove.Has parent := has_of_childList? known
  have kept : (grove.add ⟨.leaf (.text content), none⟩).childList? parent = some siblings := by
    rw [childList?_eq_of_node? (node?_add_of_has has), known]
  have childless : (grove.add ⟨.leaf (.text content), none⟩).isTag grove.nextId = false := by
    rw [isTag, tag?, node?_nextId_add]
    rfl
  have created : (adopt parent (.text content)).outcome grove = (.ok grove.nextId,
      (grove.add ⟨.leaf (.text content), none⟩).setParent grove.nextId (some parent)) := by
    rw [adopt]
    rfl
  have adopted : (adopt parent (.node grove.nextId)).outcome
      (grove.add ⟨.leaf (.text content), none⟩) = (.ok grove.nextId,
        (grove.add ⟨.leaf (.text content), none⟩).setParent grove.nextId (some parent)) := by
    rw [adopt, adoptNode, Edit.outcome_bind_of_ok (Edit.outcome_get _), free_nextId_add, childless]
    rfl
  rw [appendChild, appendChild,
    Edit.outcome_bind_of_ok (outcome_requireChildren_of_listed known),
    Edit.outcome_bind_of_ok (outcome_requireChildren_of_listed kept),
    Edit.outcome_bind_of_ok created, Edit.outcome_bind_of_ok adopted]

theorem appendText_yields (text : Option String) (sound : grove.Sound)
    (listed : (grove.childList? target).isSome = true) :
    (appendText options target text).Yields grove fun _ last =>
      ∃ added, Appended target (keptSketches options text) grove added last := by
  rw [appendText, keptSketches]
  cases keptText? options text with
  | none => exact Edit.ensures_pure ⟨[], .nil grove⟩
  | some content =>
      have barren : Node.IsBarren (.leaf (.text content)) := trivial
      apply Edit.Ensures.bind
      rw [Edit.Ensures, outcome_appendChild_text content listed]
      apply (appendChild_gains barren rfl sound listed).mono
      intro child last gained
      exact Edit.ensures_pure ⟨_, .single gained⟩

/-- The elements that nodes were sketched for, along with those nodes. -/
def pendingOf (sketches : List Sketch) (added : List NodeId) : List (Item × NodeId) :=
  (added.zip sketches).filterMap fun (id, sketch) => sketch.item?.map fun item => (item, id)

theorem pendingOf_element (name : Name) (attributes : Attributes) (item : Item)
    (sketches : List Sketch) (id : NodeId) (added : List NodeId) :
    pendingOf (.element name attributes item :: sketches) (id :: added) =
      (item, id) :: pendingOf sketches added := rfl

theorem pendingOf_append {sketches : List Sketch} {added : List NodeId}
    (paired : added.length = sketches.length) (more : List Sketch) (others : List NodeId) :
    pendingOf (sketches ++ more) (added ++ others) =
      pendingOf sketches added ++ pendingOf more others := by
  rw [pendingOf, List.zip_append paired, List.filterMap_append]
  rfl

theorem pendingOf_keptSketches (text : Option String) (added : List NodeId) :
    pendingOf (keptSketches options text) added = [] := by
  rw [keptSketches]
  cases keptText? options text with
  | none => cases added <;> rfl
  | some content => cases added <;> simp [pendingOf, Sketch.item?]

theorem Appended.paired {sketches : List Sketch} {added : List NodeId}
    (appended : Appended target sketches grove added last) : added.length = sketches.length :=
  appended.drawn.length_eq

theorem pendingOf_sketch {item : Item} {sketch : Sketch}
    (sketched : item.sketch? namer options = some (some sketch)) (id : NodeId) :
    pendingOf [sketch] [id] = if item.isElement then [(item, id)] else [] := by
  rcases Item.sketch?_cases sketched with
    ⟨other, content, rfl⟩ | ⟨element, name, attributes, rfl⟩
  · rw [other]
    rfl
  · rw [element]
    rfl

/-- Nodes with the texts behind them became the last children of a tag node, and the elements among
them were put in front of others, the last one first. -/
def AppendedAll (namer : Namer) (options : ParserOptions) (target : NodeId) (items : List Item)
    (converted : List (Item × NodeId)) (before : Grove) (result : List (Item × NodeId))
    (after : Grove) : Prop :=
  ∃ sketches added, Item.sketches? namer options items = some sketches ∧
    Appended target sketches before added after ∧
    result = (pendingOf sketches added).reverse ++ converted

theorem AppendedAll.cons {item : Item} {rest : List Item} {sketch : Option Sketch}
    {added : List NodeId} {converted result : List (Item × NodeId)} (has : grove.Has target)
    (sketched : item.sketch? namer options = some sketch)
    (appended : Appended target (sketch.toList ++ keptSketches options item.tail) grove added
      middle)
    (all : AppendedAll namer options target rest
      ((pendingOf (sketch.toList ++ keptSketches options item.tail) added).reverse ++ converted)
      middle result last) :
    AppendedAll namer options target (item :: rest) converted grove result last := by
  rcases all with ⟨more, others, found, further, rfl⟩
  refine ⟨_, _, ?_, appended.append further has, ?_⟩
  · rw [Item.sketches?, sketched, found, Option.bind_some, Option.map_some, ← List.append_assoc]
  · rw [pendingOf_append appended.paired, List.reverse_append, List.append_assoc]

theorem appendItems_ensures (items : List Item) (converted : List (Item × NodeId))
    (sound : grove.Sound) (listed : (grove.childList? target).isSome = true) :
    Edit.Ensures (appendItems namer options target converted items) grove
      (fun result last => AppendedAll namer options target items converted grove result last)
      (fun _ => Item.sketches? namer options items = none) := by
  induction items generalizing grove converted with
  | nil => exact Edit.ensures_pure ⟨[], [], rfl, .nil grove, rfl⟩
  | cons item rest induction =>
      have has : grove.Has target := by
        rcases Option.isSome_iff_exists.1 listed with ⟨siblings, known⟩
        exact has_of_childList? known
      -- What comes of the rest, once the first node and the text behind it were appended.
      have follow {sketch : Option Sketch} {added : List NodeId} {between : Grove}
          (sketched : item.sketch? namer options = some sketch)
          (appended : Appended target (sketch.toList ++ keptSketches options item.tail) grove added
            between) :
          Edit.Ensures (appendItems namer options target
              ((pendingOf (sketch.toList ++ keptSketches options item.tail) added).reverse ++
                converted) rest) between
            (fun result last =>
              AppendedAll namer options target (item :: rest) converted grove result last)
            (fun _ => Item.sketches? namer options (item :: rest) = none) := by
        apply (induction _ (appended.grown.sound sound) (appended.listed has listed)).mono
        · intro result last all
          exact all.cons has sketched appended
        · intro last refused
          rw [Item.sketches?, refused, sketched]
          rfl
      rw [appendItems]
      apply Edit.Ensures.bind
      apply (convertItem_draws item).mono
      · rintro found middle ⟨sketch, sketched, drawn⟩
        cases sketch with
        | none =>
            rcases drawn with ⟨rfl, rfl⟩
            apply Edit.Ensures.bind
            apply (appendText_yields item.tail sound listed).ensures
            rintro _ between ⟨texts, appended⟩
            have further := follow sketched appended
            rwa [Option.toList_none, List.nil_append, pendingOf_keptSketches] at further
        | some sketch =>
            rcases drawn with ⟨rfl, rfl⟩
            apply Edit.Ensures.bind
            apply (appendChild_gains sketch.isBarren_node sketch.isAnchor_node sound listed).ensures
            intro _ between gained
            have single : Appended target [sketch] grove [grove.nextId] between := .single gained
            apply Edit.Ensures.bind
            apply (appendText_yields item.tail (single.grown.sound sound)
              (single.listed has listed)).ensures
            rintro _ below ⟨texts, appended⟩
            have further := follow sketched (single.append appended has)
            rw [Option.toList_some, pendingOf_append single.paired, pendingOf_keptSketches,
              List.append_nil, pendingOf_sketch sketched] at further
            apply Edit.ensures_ite
            · intro element
              rwa [if_pos element] at further
            · intro other
              rwa [if_neg other] at further
      · intro last refused
        rw [Item.sketches?, refused, Option.bind_none]

/-! ## Filling -/

/-- Several tag nodes, which were empty, were filled with what the elements hold that they stand
for. -/
structure Completed (namer : Namer) (options : ParserOptions) (pending : List (Item × NodeId))
    (before after : Grove) : Prop where
  grown : Grown (fun id => id ∈ pending.map Prod.snd) before after
  filled : ∀ pair ∈ pending, ∃ trees, pair.1.contents? namer options = some trees ∧
    ∀ name attributes, before.node? pair.2 = some (.tag name attributes []) →
      after.view? pair.2 = some (.tag name attributes trees)

/-- Tag nodes without children, all of them different. -/
structure Blank (grove : Grove) (pending : List (Item × NodeId)) : Prop where
  present : ∀ pair ∈ pending, ∃ name attributes,
    grove.node? pair.2 = some (.tag name attributes [])
  distinct : (pending.map Prod.snd).Nodup

section

variable {sketches : List Sketch} {added : List NodeId} {pending : List (Item × NodeId)}

theorem map_snd_pendingOf_sublist (sketches : List Sketch) (added : List NodeId) :
    ((pendingOf sketches added).map Prod.snd).Sublist added := by
  induction added generalizing sketches with
  | nil => exact List.Sublist.refl []
  | cons id added induction =>
      cases sketches with
      | nil => exact List.nil_sublist _
      | cons sketch sketches =>
          cases sketch with
          | leaf content => exact (induction sketches).cons id
          | element name attributes item => exact (induction sketches).cons_cons id

theorem map_fst_pendingOf_sublist (sketches : List Sketch) (added : List NodeId) :
    ((pendingOf sketches added).map Prod.fst).Sublist (sketches.filterMap Sketch.item?) := by
  induction added generalizing sketches with
  | nil => exact List.nil_sublist _
  | cons id added induction =>
      cases sketches with
      | nil => exact List.nil_sublist _
      | cons sketch sketches =>
          cases sketch with
          | leaf content => exact induction sketches
          | element name attributes item => exact (induction sketches).cons_cons item

theorem Appended.mem_pendingOf (appended : Appended target sketches grove added last)
    {pair : Item × NodeId} (member : pair ∈ pendingOf sketches added) :
    ∃ name attributes, Sketch.element name attributes pair.1 ∈ sketches ∧ ¬ grove.Has pair.2 ∧
      last.node? pair.2 = some (.tag name attributes []) := by
  rcases List.mem_filterMap.1 member with ⟨⟨id, sketch⟩, listed, equal⟩
  have drawn := List.forall₂_zip appended.drawn listed
  cases sketch with
  | leaf content => cases equal
  | element name attributes item =>
      cases equal
      exact ⟨name, attributes, (List.of_mem_zip listed).2, drawn⟩

/-- Once the elements are filled, the new children show what their sketches are completed to. -/
theorem Appended.shows (appended : Appended target sketches grove added middle)
    (blank : Blank middle pending) (completed : Completed namer options pending middle last)
    (among : ∀ pair ∈ pendingOf sketches added, pair ∈ pending) :
    ∃ trees, Sketch.allTrees? namer options sketches = some trees ∧
      List.Forall₂ (fun id tree => last.view? id = some tree) added trees := by
  have drawn := appended.drawn
  clear appended
  induction drawn with
  | nil => exact ⟨[], rfl, .nil⟩
  | @cons id sketch ids sketches first _ induction =>
      cases sketch with
      | leaf content =>
          rcases induction among with ⟨trees, found, shown⟩
          have apart : id ∉ pending.map Prod.snd := by
            intro member
            rcases List.mem_map.1 member with ⟨pair, listed, rfl⟩
            rcases blank.present pair listed with ⟨_, _, present⟩
            rw [first.2] at present
            cases present
          refine ⟨.leaf content :: trees, ?_, .cons ?_ shown⟩
          · rw [Sketch.allTrees?, found]
            rfl
          · apply view?_of_leaf
            rw [completed.grown.node? (has_of_node? first.2) apart, first.2]
            rfl
      | element name attributes item =>
          rw [pendingOf_element, List.forall_mem_cons] at among
          rcases induction among.2 with ⟨trees, found, shown⟩
          rcases completed.filled (item, id) among.1 with ⟨contents, own, filled⟩
          refine ⟨.tag name attributes contents :: trees, ?_, .cons (filled _ _ first.2) shown⟩
          rw [Sketch.allTrees?, Sketch.tree?, own, found]
          rfl

theorem Appended.blank (appended : Appended target sketches grove added middle)
    (blank : Blank grove pending) (has : grove.Has target) (other : target ∉ pending.map Prod.snd) :
    Blank middle ((pendingOf sketches added).reverse ++ pending) where
  present pair member := by
    rcases List.mem_append.1 member with new | old
    · rcases appended.mem_pendingOf (List.mem_reverse.1 new) with ⟨name, attributes, _, _, present⟩
      exact ⟨name, attributes, present⟩
    · rcases blank.present pair old with ⟨name, attributes, present⟩
      refine ⟨name, attributes, ?_⟩
      rw [appended.grown.node? (has_of_node? present), present]
      rintro rfl
      exact other (List.mem_map_of_mem old)
  distinct := by
    rw [List.map_append, List.map_reverse, List.nodup_append']
    refine ⟨?_, blank.distinct, ?_⟩
    · rw [List.nodup_reverse]
      exact appended.distinct.sublist (map_snd_pendingOf_sublist sketches added)
    · intro id new old
      rcases List.mem_map.1 (List.mem_reverse.1 new) with ⟨pair, member, rfl⟩
      rcases List.mem_map.1 old with ⟨earlier, listed, same⟩
      rcases appended.mem_pendingOf member with ⟨_, _, _, recent, _⟩
      rcases blank.present earlier listed with ⟨_, _, present⟩
      rw [same] at present
      exact recent (has_of_node? present)

theorem Blank.rest {first : Item × NodeId} (blank : Blank grove (first :: pending)) :
    Blank grove pending where
  present pair member := blank.present pair (List.mem_cons_of_mem first member)
  distinct := (List.nodup_cons.1 blank.distinct).2

theorem Blank.outside {first : Item × NodeId} (blank : Blank grove (first :: pending)) :
    first.2 ∉ pending.map Prod.snd :=
  (List.nodup_cons.1 blank.distinct).1

/-- A tag node that got its children is completed along with the elements among them. -/
theorem Appended.completed {item : Item} {id : NodeId} {name : Name} {attributes : Attributes}
    (appended : Appended id sketches grove added middle)
    (blank : Blank grove ((item, id) :: pending))
    (present : grove.node? id = some (.tag name attributes []))
    (completed :
      Completed namer options ((pendingOf sketches added).reverse ++ pending) middle last)
    (contents : item.contents? namer options = Sketch.allTrees? namer options sketches) :
    Completed namer options ((item, id) :: pending) grove last := by
  have has : grove.Has id := has_of_node? present
  have outside : id ∉ pending.map Prod.snd := blank.outside
  have ready := appended.blank blank.rest has outside
  rcases appended.shows ready completed
    (fun pair member => List.mem_append_left _ (List.mem_reverse.2 member)) with
    ⟨trees, found, shown⟩
  constructor
  · have wide : Grown (fun node => node ∈ ((item, id) :: pending).map Prod.snd ∨ ¬ grove.Has node)
        grove last := by
      apply (appended.grown.mono ?_).trans (completed.grown.mono ?_)
      · rintro _ rfl
        exact .inl List.mem_cons_self
      · intro node member
        rcases List.mem_map.1 member with ⟨pair, listed, rfl⟩
        rcases List.mem_append.1 listed with new | old
        · rcases appended.mem_pendingOf (List.mem_reverse.1 new) with ⟨_, _, _, recent, _⟩
          exact .inr recent
        · exact .inl (List.mem_cons_of_mem _ (List.mem_map_of_mem old))
    exact wide.convert fun node earlier fills => fills.resolve_right (not_not_intro earlier)
  · have filled : middle.node? id = some (.tag name attributes added) := by
      apply node?_of_tag present (appended.grown.shape has)
      rw [appended.own, children_of_node? present, List.nil_append]
    have apart : id ∉ ((pendingOf sketches added).reverse ++ pending).map Prod.snd := by
      intro member
      rcases List.mem_map.1 member with ⟨pair, listed, same⟩
      rcases List.mem_append.1 listed with new | old
      · rcases appended.mem_pendingOf (List.mem_reverse.1 new) with ⟨_, _, _, recent, _⟩
        exact recent (same ▸ has)
      · exact outside (same ▸ List.mem_map_of_mem old)
    rw [List.forall_mem_cons]
    constructor
    · refine ⟨trees, contents.trans found, ?_⟩
      intro other others equal
      rw [present] at equal
      cases equal
      apply view?_of_tag _ shown
      rw [completed.grown.node? (appended.grown.has has) apart, filled]
    · intro pair member
      rcases completed.filled pair (List.mem_append_right _ member) with ⟨others, own, views⟩
      refine ⟨others, own, fun other entries earlier => views other entries ?_⟩
      rw [appended.grown.node? (has_of_node? earlier), earlier]
      rintro rfl
      exact outside (List.mem_map_of_mem member)

end

theorem fillPending_completes (bound : Nat) (pending : List (Item × NodeId)) (sound : grove.Sound)
    (enough : Item.sizeOfAll (pending.map Prod.fst) ≤ bound) (blank : Blank grove pending) :
    Edit.Ensures (fillPending namer options bound pending) grove
      (fun _ last => Completed namer options pending grove last)
      (fun _ => ∃ pair ∈ pending, pair.1.contents? namer options = none) := by
  induction bound generalizing grove pending with
  | zero =>
      rw [fillPending]
      cases pending with
      | nil => exact Edit.ensures_pure ⟨.refl _, List.forall_mem_nil _⟩
      | cons first rest =>
          have positive := first.1.size_eq
          rw [List.map_cons, Item.sizeOfAll] at enough
          omega
  | succ bound induction =>
      cases pending with
      | nil =>
          have finished : fillPending namer options (bound + 1) [] = pure () := rfl
          rw [finished]
          exact Edit.ensures_pure ⟨.refl _, List.forall_mem_nil _⟩
      | cons first rest =>
          rcases first with ⟨item, id⟩
          rcases blank.present _ List.mem_cons_self with ⟨name, attributes, present⟩
          have listed : (grove.childList? id).isSome = true :=
            Option.isSome_of_eq_some (childList?_of_node? present)
          have has : grove.Has id := has_of_node? present
          rw [fillPending]
          apply Edit.Ensures.bind
          apply (appendText_yields item.text sound listed).ensures
          rintro _ between ⟨texts, front⟩
          apply Edit.Ensures.bind
          apply (appendItems_ensures item.children [] (front.grown.sound sound)
            (front.listed has listed)).mono
          · rintro _ middle ⟨sketches, added, sketched, behind, rfl⟩
            rw [List.append_nil]
            have appended := front.append behind has
            have same : pendingOf (keptSketches options item.text ++ sketches) (texts ++ added) =
                pendingOf sketches added := by
              rw [pendingOf_append front.paired, pendingOf_keptSketches, List.nil_append]
            have ready := appended.blank blank.rest has blank.outside
            rw [same] at ready
            have fits : Item.sizeOfAll (((pendingOf sketches added).reverse ++ rest).map Prod.fst) ≤
                bound := by
              have inner := Item.sizeOfAll_le_of_sublist
                ((map_fst_pendingOf_sublist sketches added).trans
                  (Item.sublist_of_sketches? sketched))
              have whole := item.size_eq
              rw [List.map_cons, Item.sizeOfAll] at enough
              dsimp only at enough
              rw [List.map_append, Item.sizeOfAll_append, List.map_reverse, Item.sizeOfAll_reverse]
              omega
            apply (induction _ (appended.grown.sound sound) fits ready).mono
            · intro _ last completed
              rw [← same] at completed
              exact appended.completed blank present completed
                (Item.contents?_of_sketches? sketched)
            · rintro last ⟨pair, member, refused⟩
              rcases List.mem_append.1 member with new | old
              · rcases behind.mem_pendingOf (List.mem_reverse.1 new) with ⟨_, _, listed, _⟩
                refine ⟨_, List.mem_cons_self, ?_⟩
                rw [Item.contents?_of_sketches? sketched]
                apply Sketch.allTrees?_eq_none (List.mem_append_right _ listed)
                rw [Sketch.tree?, refused]
                rfl
              · exact ⟨pair, List.mem_cons_of_mem _ old, refused⟩
          · intro last refused
            refine ⟨_, List.mem_cons_self, ?_⟩
            rw [Item.contents?, Item.allTrees?_eq, refused]
            rfl

/-! ## Element trees -/

/-- An element becomes a tag node that shows the tree that the element stands for. The conversion
fails exactly if there is no such tree, or if it is not an element that is to be converted. -/
theorem convertElement_shows (item : Item) (sound : grove.Sound) :
    Edit.Ensures (convertElement namer options item) grove
      (fun id last => Enlarged grove last ∧
        ∃ tree, item.isElement = true ∧ item.tree? namer options = some (some tree) ∧
          last.view? id = some tree)
      (fun _ => item.isElement = false ∨ item.tree? namer options = none) := by
  rw [convertElement]
  apply Edit.Ensures.bind
  apply (convertItem_draws item).mono
  · rintro found middle ⟨sketch, sketched, drawn⟩
    cases item with
    | comment content tail => exact Edit.ensures_throw (.inl rfl)
    | instruction target content tail => exact Edit.ensures_throw (.inl rfl)
    | entity name tail => exact Edit.ensures_throw (.inl rfl)
    | element name attributes text children tail =>
        rcases Option.map_eq_some_iff.1 sketched with ⟨⟨valid, entries⟩, _, rfl⟩
        rcases drawn with ⟨rfl, rfl⟩
        have completed := Item.tree?_eq_of_sketch? sketched
        rw [Sketch.tree?, Option.map_map] at completed
        have enlarged : Enlarged grove
          (grove.add ⟨.tag valid entries [], none⟩) := enlarged_add rfl rfl
        have blank : Blank (grove.add ⟨.tag valid entries [], none⟩)
            [(Item.element name attributes text children tail, grove.nextId)] := by
          constructor
          · simp [node?_nextId_add]
          · exact List.nodup_singleton _
        apply Edit.Ensures.bind
        apply (fillPending_completes _ _ (enlarged.sound sound) (Nat.le_refl _) blank).mono
        · intro _ last completes
          apply Edit.ensures_pure
          rcases completes.filled _ List.mem_cons_self with ⟨trees, own, filled⟩
          refine ⟨?_, _, rfl, ?_, filled valid entries node?_nextId_add⟩
          · apply (enlarged.grown.trans completes.grown).convert
            intro id earlier fills
            rw [List.map_singleton, List.mem_singleton] at fills
            exact ne_nextId_of_has earlier fills
          · rw [completed, own]
            rfl
        · rintro last ⟨pair, member, refused⟩
          rw [List.mem_singleton.1 member] at refused
          right
          rw [completed, refused]
          rfl
  · intro last refused
    exact .inr (Item.tree?_eq_none refused)

end XmlGrove.Loading
