import XmlGrove.Proofs.Document.Growth

/-!
# The shape of documents

An anchor lists nodes that may precede a root, and then a tag node, which is the root. Changes
that spare an anchor keep that, and so does what prologues and the assignment of a root do.
-/

namespace XmlGrove

namespace Grove

variable {grove before middle after : Grove} {anchor child parent root : NodeId}
  {nodes preceding : List NodeId} {touched : List NodeId}

/-! ## Lists of nodes -/

theorem insertIdx_append {item : α} {first rest : List α} {position : Nat}
    (early : position ≤ first.length) :
    (first ++ rest).insertIdx position item = first.insertIdx position item ++ rest := by
  induction first generalizing position with
  | nil =>
      rw [List.length_nil, Nat.le_zero] at early
      rw [early]
      rfl
  | cons head first induction =>
      cases position with
      | zero => rfl
      | succ position =>
          rw [List.cons_append, List.insertIdx_succ_cons, List.insertIdx_succ_cons,
            induction (Nat.le_of_succ_le_succ early), List.cons_append]

theorem insertIdx_append_add (front behind : List α) (offset : Nat) (item : α) :
    (front ++ behind).insertIdx (front.length + offset) item =
      front ++ behind.insertIdx offset item := by
  induction front with
  | nil => rw [List.nil_append, List.nil_append, List.length_nil, Nat.zero_add]
  | cons first front induction =>
      rw [List.cons_append, List.length_cons, Nat.add_right_comm, List.insertIdx_succ_cons,
        induction, List.cons_append]

/-- A node that may precede the root of a document. -/
def Precedes (grove : Grove) (node : NodeId) : Prop :=
  grove.kind? node = some .comment ∨ grove.kind? node = some .instruction

/-- Nodes that may precede a root, and then one tag node. -/
def Ordered (grove : Grove) (nodes : List NodeId) : Prop :=
  ∃ preceding root, nodes = preceding ++ [root] ∧ (∀ node ∈ preceding, grove.Precedes node) ∧
    grove.kind? root = some .tag

theorem Precedes.isTag_eq_false {node : NodeId} (precedes : grove.Precedes node) :
    grove.isTag node = false := by
  rw [← Bool.not_eq_true, isTag_iff_kind?]
  rcases precedes with comment | instruction
  · rw [comment]
    simp
  · rw [instruction]
    simp

theorem Precedes.offers {node : NodeId} (precedes : grove.Precedes node) : grove.Offers node := by
  rcases precedes with comment | instruction
  · exact ⟨has_of_kind? comment, not_isAnchor_of_kind? comment⟩
  · exact ⟨has_of_kind? instruction, not_isAnchor_of_kind? instruction⟩

/-- The order of nodes is a matter of their kinds. -/
theorem ordered_of_map_kind? {others : List NodeId} (ordered : before.Ordered nodes)
    (same : others.map after.kind? = nodes.map before.kind?) : after.Ordered others := by
  rcases ordered with ⟨preceding, root, rfl, precedes, tag⟩
  rw [List.map_append] at same
  rcases List.map_eq_append_iff.1 same with ⟨front, back, rfl, fronts, backs⟩
  rcases List.map_eq_singleton_iff.1 backs with ⟨last, rfl, shown⟩
  refine ⟨front, last, rfl, ?_, shown.trans tag⟩
  intro node member
  have listed := List.mem_map_of_mem (f := after.kind?) member
  rw [fronts] at listed
  rcases List.mem_map.1 listed with ⟨former, present, equal⟩
  rw [Precedes, ← equal]
  exact precedes former present

theorem Ordered.has (ordered : grove.Ordered nodes) : ∀ node ∈ nodes, grove.Has node := by
  rcases ordered with ⟨preceding, root, rfl, precedes, tag⟩
  intro node member
  rcases List.mem_append.1 member with before | last
  · exact (precedes node before).offers.1
  · rw [List.mem_singleton] at last
    rw [last]
    exact has_of_kind? tag

theorem Spared.ordered (spared : Spared touched before after) (ordered : before.Ordered nodes) :
    after.Ordered nodes :=
  ordered_of_map_kind? ordered
    (List.map_congr_left fun node member => spared.kind (ordered.has node member))

/-- All but the root may be taken out. -/
theorem Ordered.filter (ordered : grove.Ordered nodes) {keep : NodeId → Bool}
    (kept : ∀ node, grove.isTag node = true → keep node = true) :
    grove.Ordered (nodes.filter keep) := by
  rcases ordered with ⟨preceding, root, rfl, precedes, tag⟩
  refine ⟨preceding.filter keep, root, ?_, ?_, tag⟩
  · rw [List.filter_append, List.filter_singleton, kept root (isTag_iff_kind?.2 tag)]
    rfl
  · intro node member
    exact precedes node (List.mem_of_mem_filter member)

theorem Ordered.insertIdx {position : Nat} (ordered : grove.Ordered nodes)
    (precedes : grove.Precedes child) (early : position < nodes.length) :
    grove.Ordered (nodes.insertIdx position child) := by
  rcases ordered with ⟨preceding, root, rfl, others, tag⟩
  rw [List.length_append, List.length_singleton] at early
  refine ⟨preceding.insertIdx position child, root, ?_, ?_, tag⟩
  · exact insertIdx_append (by omega)
  · intro node member
    rcases (List.mem_insertIdx (by omega)).1 member with equal | present
    · rw [equal]
      exact precedes
    · exact others node present

/-! ## What precedes a tag node -/

section

variable {node : NodeId} {front behind : List NodeId} {position : Nat}

/-- Nodes among which there is no tag node, and then nothing or a tag node and whatever follows. -/
structure Divided (grove : Grove) (nodes front behind : List NodeId) : Prop where
  eq : nodes = front ++ behind
  plain : ∀ node ∈ front, grove.isTag node = false
  head : ∀ node ∈ behind.head?, grove.isTag node = true

namespace Divided

theorem takeWhile (divided : grove.Divided nodes front behind) :
    nodes.takeWhile (fun node => !grove.isTag node) = front := by
  rw [divided.eq, List.takeWhile_append_of_pos]
  · cases behind with
    | nil => rw [List.takeWhile_nil, List.append_nil]
    | cons first rest =>
        rw [List.takeWhile_cons, divided.head first rfl]
        exact List.append_nil front
  · intro node member
    rw [divided.plain node member]
    rfl

theorem find? (divided : grove.Divided nodes front behind) :
    nodes.find? grove.isTag = behind.head? := by
  rw [divided.eq, List.find?_append, List.find?_eq_none.2, Option.none_or]
  · cases behind with
    | nil => rfl
    | cons first rest => rw [List.find?_cons, divided.head first rfl, List.head?_cons]
  · intro node member
    rw [divided.plain node member]
    exact Bool.false_ne_true

/-- A node that is inserted in front of the tag node becomes one of those that precede it. -/
theorem insertIdx (divided : grove.Divided nodes front behind) (plain : grove.isTag node = false)
    (early : position ≤ front.length) :
    grove.Divided (nodes.insertIdx position node) (front.insertIdx position node) behind where
  eq := by rw [divided.eq, insertIdx_append early]
  plain := by
    intro present member
    rcases (List.mem_insertIdx early).1 member with rfl | member
    · exact plain
    · exact divided.plain present member
  head := divided.head

theorem exists_insertIdx (divided : grove.Divided nodes front behind) (node : NodeId)
    (late : front.length < position) (bounded : position ≤ nodes.length) :
    ∃ rest, grove.Divided (nodes.insertIdx position node) front rest ∧
      rest.head? = behind.head? := by
  rcases divided with ⟨rfl, plain, head⟩
  obtain ⟨offset, rfl⟩ := Nat.exists_eq_add_of_lt late
  cases behind with
  | nil =>
      rw [List.append_nil] at bounded
      omega
  | cons first rest =>
      refine ⟨first :: rest.insertIdx offset node, ⟨?_, plain, head⟩, rfl⟩
      rw [Nat.add_assoc, insertIdx_append_add, List.insertIdx_succ_cons]

theorem filter (divided : grove.Divided nodes front behind) {keep : NodeId → Bool}
    (kept : ∀ node, grove.isTag node = true → keep node = true) :
    grove.Divided (nodes.filter keep) (front.filter keep) (behind.filter keep) ∧
      (behind.filter keep).head? = behind.head? := by
  have head : (behind.filter keep).head? = behind.head? := by
    cases behind with
    | nil => rfl
    | cons first rest => rw [List.filter_cons_of_pos (kept first (divided.head first rfl))]; rfl
  refine ⟨⟨?_, ?_, ?_⟩, head⟩
  · rw [divided.eq, List.filter_append]
  · intro node member
    exact divided.plain node (List.mem_filter.1 member).1
  · rw [head]
    exact divided.head

end Divided

end

/-- What precedes the root and the root itself are told apart by their kinds. -/
theorem divided_ordered (precedes : ∀ node ∈ preceding, grove.Precedes node)
    (tag : grove.kind? root = some .tag) :
    grove.Divided (preceding ++ [root]) preceding [root] where
  eq := rfl
  plain node member := (precedes node member).isTag_eq_false
  head node member := by
    cases member
    exact isTag_iff_kind?.2 tag

theorem takeWhile_ordered (precedes : ∀ node ∈ preceding, grove.Precedes node)
    (tag : grove.kind? root = some .tag) :
    (preceding ++ [root]).takeWhile (fun node => !grove.isTag node) = preceding :=
  (divided_ordered precedes tag).takeWhile

theorem find?_ordered (precedes : ∀ node ∈ preceding, grove.Precedes node)
    (tag : grove.kind? root = some .tag) :
    (preceding ++ [root]).find? grove.isTag = some root :=
  (divided_ordered precedes tag).find?

/-! ## Well-formed groves -/

/-- Links and lists agree as far as they must between steps, documents have anchors without a
parent, and apart from some of them these list nodes in order. -/
structure Regular (apart : List NodeId) (grove : Grove) : Prop where
  sound : grove.Sound
  anchored : grove.Anchored
  free : ∀ id document, grove.document? id = some document →
    grove.parentLink? document.anchor = none
  ordered : ∀ id document, grove.document? id = some document → document.anchor ∉ apart →
    grove.Ordered (grove.children document.anchor)
  instructed : grove.Instructed

theorem regular_empty : Regular [] {} where
  sound := sound_empty
  anchored id document present := by cases present
  free id document present := by cases present
  ordered id document present := by cases present
  instructed id document declaration present := by cases present

theorem isAnchor_of_document? {id : DocumentId} {document : Document} (anchored : grove.Anchored)
    (present : grove.document? id = some document) : grove.isAnchor document.anchor = true := by
  rw [isAnchor, anchored id document present]
  rfl

theorem bears_of_document? {id : DocumentId} {document : Document} (anchored : grove.Anchored)
    (present : grove.document? id = some document) : grove.Bears document.anchor :=
  bears_of_isSome_childList? (childList?_of_anchored? (anchored id document present))

/-- A spared document has the anchor that it had. -/
theorem Spared.exists_document? {id : DocumentId} {document : Document}
    (spared : Spared touched before after) (present : after.document? id = some document) :
    ∃ former, before.document? id = some former ∧ former.anchor = document.anchor := by
  have same := spared.anchors id
  rw [present] at same
  rcases Option.map_eq_some_iff.1 same.symm with ⟨former, found, equal⟩
  exact ⟨former, found, equal⟩

theorem Spared.keeps_anchored (spared : Spared touched before after)
    (anchored : before.Anchored) : after.Anchored := by
  intro id document present
  rcases spared.exists_document? present with ⟨former, found, equal⟩
  have known := anchored id former found
  rw [← equal, spared.anchored (has_of_anchored? known)]
  exact known

theorem Enlarged.keeps_anchored (enlarged : Enlarged before after) (anchored : before.Anchored) :
    after.Anchored :=
  Spared.keeps_anchored (enlarged.spared : Spared [] before after) anchored

/-- What a change touches has to be in order afterwards; all else stays in order. -/
theorem Regular.spare (regular : before.Regular touched) (spared : Spared touched before after)
    (ordered : ∀ id document, before.document? id = some document → document.anchor ∈ touched →
      before.Ordered (after.children document.anchor)) : after.Regular [] where
  sound := spared.sound regular.sound
  anchored := spared.keeps_anchored regular.anchored
  free id document present := by
    rcases spared.exists_document? present with ⟨former, found, equal⟩
    rw [← equal]
    exact spared.free (isAnchor_of_document? regular.anchored found) (regular.free id former found)
  ordered id document present _ := by
    rcases spared.exists_document? present with ⟨former, found, equal⟩
    have anchor := isAnchor_of_document? regular.anchored found
    rw [← equal]
    by_cases member : former.anchor ∈ touched
    · exact spared.ordered (ordered id former found member)
    · rw [spared.children anchor member]
      exact spared.ordered (regular.ordered id former found member)
  instructed := spared.instructed regular.instructed

theorem Regular.mono {wider : List NodeId} (regular : grove.Regular touched)
    (subset : touched ⊆ wider) : grove.Regular wider where
  sound := regular.sound
  anchored := regular.anchored
  free := regular.free
  ordered id document present apart :=
    regular.ordered id document present fun member => apart (subset member)
  instructed := regular.instructed

theorem Regular.spare_all (regular : before.Regular []) (spared : Spared [] before after) :
    after.Regular [] := by
  apply regular.spare spared
  intro id document present member
  cases member

theorem Regular.spare_one (regular : before.Regular []) (spared : Spared [anchor] before after)
    (ordered : before.Ordered (before.children anchor) → before.Ordered (after.children anchor)) :
    after.Regular [] := by
  apply (regular.mono (List.nil_subset [anchor])).spare spared
  intro id document present member
  rw [List.mem_singleton] at member
  rw [member]
  apply ordered
  rw [← member]
  exact regular.ordered id document present List.not_mem_nil

/-! ## Documents of well-formed groves -/

section

variable {id : DocumentId} {document : Document}

theorem anchoredNodes_eq (present : grove.document? id = some document) :
    grove.anchoredNodes id = grove.children document.anchor := by
  rw [anchoredNodes, present]

theorem prologue_sublist (grove : Grove) (id : DocumentId) :
    (grove.prologue id).Sublist (grove.anchoredNodes id) := List.takeWhile_sublist _

theorem mem_anchoredNodes_of_mem_prologue {node : NodeId} (member : node ∈ grove.prologue id) :
    node ∈ grove.anchoredNodes id :=
  (prologue_sublist grove id).subset member

theorem prologue_and_root_of_children (present : grove.document? id = some document)
    (list : grove.children document.anchor = preceding ++ [root])
    (precedes : ∀ node ∈ preceding, grove.Precedes node) (tag : grove.kind? root = some .tag) :
    grove.prologue id = preceding ∧ grove.documentRoot? id = some root := by
  rw [prologue, documentRoot?, anchoredNodes_eq present, list]
  exact ⟨takeWhile_ordered precedes tag, find?_ordered precedes tag⟩

theorem Regular.exists_root (regular : grove.Regular [])
    (present : grove.document? id = some document) :
    ∃ root, grove.children document.anchor = grove.prologue id ++ [root] ∧
      grove.documentRoot? id = some root ∧ (∀ node ∈ grove.prologue id, grove.Precedes node) ∧
        grove.kind? root = some .tag := by
  rcases regular.ordered id document present List.not_mem_nil with
    ⟨preceding, root, list, precedes, tag⟩
  rcases prologue_and_root_of_children present list precedes tag with ⟨prologue, found⟩
  rw [prologue]
  exact ⟨root, list, found, precedes, tag⟩

end

end Grove

open Grove

variable {grove middle last : Grove} {id : DocumentId} {node root anchor : NodeId}

/-- An operation keeps a grove well-formed, whether it succeeds or not. -/
def Edit.Regulates (operation : Edit α) (grove : Grove) : Prop :=
  Edit.Ensures operation grove (fun _ last => last.Regular []) (Regular [])

theorem Edit.Sparing.regulates {operation : Edit α} (sparing : operation.Sparing grove)
    (regular : grove.Regular []) : operation.Regulates grove := by
  apply Edit.Ensures.mono sparing
  · intro _ last spared
    exact regular.spare_all spared
  · intro last spared
    exact regular.spare_all spared

/-- An operation that only looks at the grove, and another one after it. -/
theorem Edit.Regulates.bind_looking {first : Edit α} {next : α → Edit β}
    (regular : grove.Regular [])
    (looks : Ensures first grove (fun value last => last = grove ∧ Regulates (next value) grove)
      (fun last => last = grove)) : Regulates (first >>= next) grove := by
  apply Ensures.bind
  apply looks.mono
  · rintro value _ ⟨rfl, latter⟩
    exact latter
  · rintro _ rfl
    exact regular

theorem Edit.Regulates.seq {first : Edit α} {next : α → Edit β} (former : Regulates first grove)
    (latter : ∀ value middle, middle.Regular [] → Regulates (next value) middle) :
    Regulates (first >>= next) grove := by
  apply Ensures.bind
  apply former.mono
  · intro value middle regular
    exact latter value middle regular
  · intro last regular
    exact regular

/-! ## Taking nodes out -/

theorem Pruned.regular (pruned : Pruned grove last anchor [node]) (regular : grove.Regular [])
    (other : grove.isTag node = false) : last.Regular [] := by
  apply regular.spare_one (Grove.Pruned.spared pruned regular.sound)
  intro ordered
  rw [pruned.own]
  apply ordered.filter
  intro kept tag
  rw [decide_eq_true_iff, List.mem_singleton]
  rintro rfl
  rw [other] at tag
  cases tag

theorem regulates_removeSibling (regular : grove.Regular []) (other : grove.isTag node = false) :
    (removeSibling anchor node).Regulates grove := by
  apply (removeSibling_ensures anchor node regular.sound).mono
  · intro _ last pruned
    exact Pruned.regular pruned regular other
  · rintro _ rfl
    exact regular

theorem regulates_forM_removeSibling {nodes : List NodeId} (regular : grove.Regular [])
    (others : ∀ node ∈ nodes, grove.isTag node = false) :
    (nodes.forM (removeSibling anchor)).Regulates grove := by
  induction nodes generalizing grove with
  | nil => exact regular
  | cons first rest induction =>
      change (removeSibling anchor first >>= fun _ =>
        rest.forM (removeSibling anchor)).Regulates grove
      apply Edit.Ensures.bind
      apply (removeSibling_ensures anchor first regular.sound).mono
      · intro _ middle pruned
        apply induction (Pruned.regular pruned regular (others first List.mem_cons_self))
        intro node member
        rw [isTag, tag?_eq_shape?, pruned.shape, ← tag?_eq_shape?]
        exact others node (List.mem_cons_of_mem _ member)
      · rintro _ rfl
        exact regular

theorem regulates_detach (regular : grove.Regular []) : (detach node).Regulates grove := by
  rw [detach]
  apply Edit.Regulates.bind_looking regular
  apply Edit.ensures_get
  refine ⟨rfl, ?_⟩
  split
  · exact regular
  · rename_i parent linked
    apply Edit.ensures_ite
    · intro rooted
      exact Edit.Ensures.throw_bind regular
    · intro unrooted
      rw [Bool.and_eq_true, not_and, Bool.not_eq_true] at unrooted
      by_cases tag : grove.isTag node = true
      · exact (sparing_removeSibling node regular.sound (unrooted tag)).regulates regular
      · exact regulates_removeSibling regular (Bool.not_eq_true _ ▸ tag)

/-! ## Prologues -/

namespace Prologue

theorem Placeable.precedes (placeable : Placeable grove node) : grove.Precedes node := by
  rcases placeable.leaf with ⟨content, leaf⟩ | ⟨target, content, leaf, _⟩
  · exact .inl (kind?_of_leaf? leaf)
  · exact .inr (kind?_of_leaf? leaf)

theorem requirePlaceable_precedes :
    Edit.Ensures (requirePlaceable node) grove
      (fun _ last => last = grove ∧ grove.Precedes node ∧ grove.parentLink? node = none)
      (fun last => last = grove) := by
  apply (requirePlaceable_decides grove node).mono
  · rintro _ last ⟨same, placeable⟩
    exact ⟨same, placeable.precedes, placeable.detached⟩
  · rintro last ⟨same, _⟩
    exact same

/-- A node that is attached to an anchor in front of the root. -/
theorem regulates_attach {placement : Placement} (fair : placement.IsFair)
    (regular : grove.Regular []) (precedes : grove.Precedes node)
    (front : grove.Ordered (grove.children anchor) →
      grove.Ordered (placement (grove.children anchor) node)) :
    (attach placement anchor (.node node)).Regulates grove := by
  have offered : ∀ id ∈ (Source.node node).nodes, grove.Offers id := by
    intro id member
    rw [Source.nodes, List.mem_singleton] at member
    rw [member]
    exact precedes.offers
  apply (attach_ensures placement anchor (.node node) regular.sound
    fun id member => (offered id member).1).mono
  · intro child last attached
    apply regular.spare_one (attached.spared fair regular.sound offered)
    intro ordered
    rw [attached.own]
    rcases attached.relisted with ⟨middle, adopted, _⟩
    cases adopted with
    | made created constructed => exact absurd rfl (created node)
    | found same free acyclic =>
        cases same
        exact front ordered
  · intro last abandoned
    exact regular.spare_all (abandoned.spared offered)

theorem insertionPosition_lt {length : Nat} {index : Int} (positive : 0 < length)
    (early : index < length) : insertionPosition length index < length := by
  rw [insertionPosition]
  split
  · omega
  · omega

theorem regulates_attach_atIndex {id : DocumentId} {document : Document} {index : Int}
    (regular : grove.Regular []) (present : grove.document? id = some document)
    (precedes : grove.Precedes node) (early : index ≤ (grove.prologue id).length) :
    (attach (.atIndex index) document.anchor (.node node)).Regulates grove := by
  apply regulates_attach (Placement.isFair_atIndex index) regular precedes
  intro ordered
  apply ordered.insertIdx precedes
  rcases regular.exists_root present with ⟨root, list, _⟩
  rw [list, List.length_append, List.length_singleton]
  apply insertionPosition_lt
  · omega
  · omega

theorem regulates_append (id : DocumentId) (regular : grove.Regular []) :
    (append id node).Regulates grove := by
  rw [append]
  apply Edit.Regulates.bind_looking regular
  apply requirePlaceable_precedes.mono
  · rintro _ _ ⟨rfl, precedes, free⟩
    refine ⟨rfl, ?_⟩
    apply Edit.Regulates.bind_looking regular
    apply (requireDocument_ensures id).mono
    · rintro document _ ⟨rfl, present⟩
      refine ⟨rfl, ?_⟩
      apply Edit.Regulates.bind_looking regular
      apply Edit.ensures_get
      refine ⟨rfl, ?_⟩
      apply (regulates_attach_atIndex regular present precedes (Int.le_refl _)).seq
      intro child last regular
      exact regular
    · intro last same
      exact same
  · intro last same
    exact same

theorem regulates_insert (id : DocumentId) (index : Int) (regular : grove.Regular []) :
    (insert id index node).Regulates grove := by
  rw [insert]
  apply Edit.Regulates.bind_looking regular
  apply requirePlaceable_precedes.mono
  · rintro _ _ ⟨rfl, precedes, free⟩
    refine ⟨rfl, ?_⟩
    apply Edit.Regulates.bind_looking regular
    apply (requireDocument_ensures id).mono
    · rintro document _ ⟨rfl, present⟩
      refine ⟨rfl, ?_⟩
      apply Edit.Regulates.bind_looking regular
      apply Edit.ensures_get
      refine ⟨rfl, ?_⟩
      apply Edit.ensures_ite
      · intro outside
        exact Edit.Ensures.throw_bind regular
      · intro inside
        apply Edit.ensures_ite
        · intro beyond
          -- The node is linked to the anchor, which does not list it.
          apply Edit.Ensures.bind_of_ok (outcome_adopt_node free
            (by rw [precedes.isTag_eq_false, Bool.false_and]))
          apply Edit.Ensures.throw_bind
          exact regular.spare_all (.link precedes.offers.1 free precedes.offers.2
            (bears_of_document? regular.anchored present))
        · intro within
          apply (regulates_attach_atIndex regular present precedes (Int.not_lt.1 inside)).seq
          intro child last regular
          exact regular
    · intro last same
      exact same
  · intro last same
    exact same

theorem isTag_of_mem_prologue {id : DocumentId} (member : node ∈ grove.prologue id) :
    grove.isTag node = false := by
  have other := List.all_eq_true.1 List.all_takeWhile node member
  simpa using other

theorem isTag_of_contains (contained : contains grove id node = true) :
    grove.isTag node = false := by
  rw [contains, List.any_eq_true] at contained
  rcases contained with ⟨present, member, same⟩
  rw [Grove.equal, Bool.or_eq_true, beq_iff_eq] at same
  rcases same with rfl | alike
  · exact isTag_of_mem_prologue member
  · split at alike
    · rename_i leaf
      exact (offers_of_leaf? (Option.isSome_of_eq_some leaf)).2
    · cases alike

theorem contains_of_mem_prologue (member : node ∈ grove.prologue id) :
    contains grove id node = true := by
  rw [contains, List.any_eq_true]
  refine ⟨node, member, ?_⟩
  rw [Grove.equal, beq_self_eq_true, Bool.true_or]

/-- What an index is found for is among all the anchor's nodes, and holds the same as one in the
prologue. -/
theorem index_locates (grove : Grove) (id : DocumentId) (node : NodeId) :
    (Prologue.index id node).Ensures grove
      (fun position last => last = grove ∧ contains grove id node = true ∧
        (grove.anchoredNodes id).idxOf? node = some position)
      (fun last => last = grove ∧ node ∉ grove.prologue id) := by
  rw [Prologue.index]
  apply Edit.Ensures.bind
  apply Edit.ensures_get
  apply Edit.ensures_ite
  · intro contained
    split
    · rename_i position found
      exact Edit.ensures_pure ⟨rfl, contained, found⟩
    · rename_i missing
      refine Edit.ensures_throw ⟨rfl, fun member => ?_⟩
      exact List.idxOf?_eq_none_iff.1 missing (mem_anchoredNodes_of_mem_prologue member)
  · intro missing
    apply Edit.Ensures.throw_bind
    exact ⟨rfl, fun member => missing (contains_of_mem_prologue member)⟩

theorem index_ensures (id : DocumentId) :
    Edit.Ensures (index id node) grove (fun _ last => last = grove ∧ grove.isTag node = false)
      (fun last => last = grove) := by
  apply (index_locates grove id node).mono
  · rintro position last ⟨same, contained, _⟩
    exact ⟨same, isTag_of_contains contained⟩
  · rintro last ⟨same, _⟩
    exact same

theorem regulates_remove (id : DocumentId) (regular : grove.Regular []) :
    (remove id node).Regulates grove := by
  rw [remove]
  apply Edit.Regulates.bind_looking regular
  apply (index_ensures id).mono
  · rintro _ _ ⟨rfl, other⟩
    refine ⟨rfl, ?_⟩
    apply Edit.Regulates.bind_looking regular
    apply (requireDocument_ensures id).mono
    · rintro document _ ⟨rfl, _⟩
      exact ⟨rfl, regulates_removeSibling regular other⟩
    · intro last same
      exact same
  · intro last same
    exact same

theorem regulates_clear (id : DocumentId) (regular : grove.Regular []) :
    (clear id).Regulates grove := by
  rw [clear]
  apply Edit.Regulates.bind_looking regular
  apply (requireDocument_ensures id).mono
  · rintro document _ ⟨rfl, _⟩
    refine ⟨rfl, ?_⟩
    apply Edit.Regulates.bind_looking regular
    apply Edit.ensures_get
    exact ⟨rfl, regulates_forM_removeSibling regular fun node => isTag_of_mem_prologue⟩
  · intro last same
    exact same

end Prologue

/-! ## Roots -/

/-- A new root is there, in the place of the former one. -/
structure Rerooted (grove : Grove) (id : DocumentId) (root : NodeId) (last : Grove) : Prop where
  regular : last.Regular []
  root : last.documentRoot? id = some root
  prologue : last.prologue id = grove.prologue id
  free : ∀ former, grove.documentRoot? id = some former → last.parentLink? former = none
  kind : ∀ {node}, grove.Has node → last.kind? node = grove.kind? node

theorem Attached.link_of_node {placement : Placement} {other : NodeId} (has : grove.Has node)
    (attached : Attached placement grove anchor (.node node) node last) (different : other ≠ node) :
    last.parentLink? other = grove.parentLink? other := by
  rcases attached with ⟨middle, _, adopted, rfl⟩
  rw [parentLink?_setChildren]
  cases adopted with
  | made created constructed => exact absurd rfl (created node)
  | found same free acyclic => rw [parentLink?_setParent_of_has has, if_neg different]

/-- What is left of the list of an anchor when the root was taken out. -/
theorem Grove.Pruned.children_of_root {document : Document} {current : NodeId}
    (pruned : Grove.Pruned grove middle document.anchor [current])
    (list : grove.children document.anchor = grove.prologue id ++ [current])
    (tag : grove.kind? current = some .tag) :
    middle.children document.anchor = grove.prologue id := by
  rw [pruned.own, list, List.filter_append, List.filter_eq_self.2, List.filter_eq_nil_iff.2,
    List.append_nil]
  · intro node member
    simpa using member
  · intro node member
    rw [decide_eq_true_iff, List.mem_singleton]
    rintro rfl
    have other := Prologue.isTag_of_mem_prologue member
    rw [isTag_iff_kind?.2 tag] at other
    cases other

/-- A node that has no parent is attached behind all that a parent without a parent lists. -/
theorem insertLast_yields {siblings : List NodeId}
    (listed : grove.childList? anchor = some siblings) (free : grove.parentLink? node = none)
    (top : grove.parentLink? anchor = none) (different : node ≠ anchor) :
    Edit.Yields (insertChildren anchor siblings.length [.node node]) grove
      (fun _ last => Attached (.atIndex siblings.length) grove anchor (.node node) node last) := by
  have position : insertionIndex? siblings.length siblings.length =
      some (siblings.length : Int) := by
    have inside : ¬ ((siblings.length : Int) < -siblings.length ||
        (siblings.length : Int) < siblings.length) = true := by
      rw [Bool.or_eq_true, decide_eq_true_iff, decide_eq_true_iff]
      omega
    rw [insertionIndex?, if_neg inside, if_neg (by omega)]
  rw [insertChildren_eq_insertEachAt, insertEachAt]
  apply Edit.Ensures.bind_of_ok (outcome_requireChildren_of_listed listed)
  rw [position]
  apply Edit.Ensures.bind
  apply Edit.Ensures.bind
  apply (attach_node_yields (Option.isSome_of_eq_some listed) free
    (isAtOrAbove_of_free top different)).mono
  intro child last attached
  have same := attached.child_eq
  rw [same] at attached
  apply Edit.Ensures.bind
  apply Edit.ensures_pure
  apply Edit.ensures_pure
  exact Edit.ensures_pure attached

theorem insertionPosition_le {length : Nat} {index : Int} :
    insertionPosition length index ≤ length := by
  rw [insertionPosition]
  split
  · omega
  · omega

theorem insertionPosition_of_le {length position : Nat} (bounded : position ≤ length) :
    insertionPosition length position = position := by
  rw [insertionPosition, if_neg (by omega), Int.toNat_natCast, Nat.min_eq_right bounded]

theorem atIndex_length (siblings : List NodeId) (child : NodeId) :
    Placement.atIndex siblings.length siblings child = siblings ++ [child] := by
  rw [Placement.atIndex, insertionPosition_of_le (Nat.le_refl _), List.insertIdx_length_self]

theorem offers_of_isTag (tag : grove.isTag node = true) : grove.Offers node :=
  ⟨has_of_kind? (isTag_iff_kind?.1 tag), not_isAnchor_of_kind? (isTag_iff_kind?.1 tag)⟩

/-- Taking the former root out and attaching another one behind the prologue. -/
theorem rerooted_of_attached {document : Document} {current : NodeId} (regular : grove.Regular [])
    (present : grove.document? id = some document) (tag : grove.isTag root = true)
    (free : grove.parentLink? root = none) (found : grove.documentRoot? id = some current)
    (pruned : Grove.Pruned grove middle document.anchor [current])
    (left : middle.children document.anchor = grove.prologue id)
    (attached : Attached (.atIndex (grove.prologue id).length) middle document.anchor (.node root)
      root last) : Rerooted grove id root last := by
  rcases regular.exists_root present with ⟨former, list, known, precedes, formerTag⟩
  rw [found] at known
  cases known
  have removed := Grove.Pruned.spared pruned regular.sound
  have offered : ∀ id ∈ (Source.node root).nodes, middle.Offers id := by
    intro id member
    rw [Source.nodes, List.mem_singleton] at member
    rw [member]
    exact removed.offers (offers_of_isTag tag)
  have spared := removed.trans
    (attached.spared (Placement.isFair_atIndex _) (pruned.sound regular.sound) offered)
  have own : last.children document.anchor = grove.prologue id ++ [root] := by
    rw [attached.own, left, atIndex_length]
  have ordered : grove.Ordered (grove.prologue id ++ [root]) :=
    ⟨_, root, rfl, precedes, isTag_iff_kind?.1 tag⟩
  have after : last.Regular [] := by
    apply regular.spare_one spared
    intro _
    rw [own]
    exact ordered
  have anchors := spared.anchors id
  rw [present] at anchors
  rcases Option.map_eq_some_iff.1 anchors with ⟨changed, kept, same⟩
  change changed.anchor = document.anchor at same
  rw [← same] at own
  rcases prologue_and_root_of_children kept own
      (fun node member => by
        rw [Precedes, spared.kind (precedes node member).offers.1]
        exact precedes node member)
      ((spared.kind (offers_of_isTag tag).1).trans (isTag_iff_kind?.1 tag)) with
    ⟨prologue, installed⟩
  refine ⟨after, installed, prologue, ?_, spared.kind⟩
  intro former rooted
  rw [found] at rooted
  cases rooted
  have linked : grove.parentLink? current = some document.anchor := by
    apply regular.sound.listed
    rw [list]
    exact List.mem_append_right _ (List.mem_singleton_self current)
  have different : current ≠ root := by
    rintro rfl
    rw [free] at linked
    cases linked
  rw [attached.link_of_node (removed.offers (offers_of_isTag tag)).1 different, pruned.link,
    if_pos (List.mem_singleton_self current)]

theorem setRoot_ensures (id : DocumentId) (root : NodeId) (regular : grove.Regular []) :
    Edit.Ensures (setRoot id root) grove (fun _ last => Rerooted grove id root last)
      (fun last => last = grove) := by
  rw [setRoot]
  apply Edit.Ensures.bind
  apply Edit.ensures_get
  apply Edit.ensures_ite
  · intro tag
    apply Edit.ensures_ite
    · intro attached
      exact Edit.Ensures.throw_bind rfl
    · intro unattached
      rw [Bool.not_eq_true, Option.isSome_eq_false_iff, Option.isNone_iff_eq_none] at unattached
      apply Edit.Ensures.bind
      apply (requireDocument_ensures id).mono
      · rintro document _ ⟨rfl, present⟩
        rcases regular.exists_root present with ⟨current, list, found, precedes, currentTag⟩
        apply Edit.Ensures.bind
        rw [requireRoot]
        apply Edit.Ensures.bind
        apply Edit.ensures_get
        rw [found]
        apply Edit.ensures_pure
        apply Edit.Ensures.bind
        apply (removeSibling_ensures document.anchor current regular.sound).mono
        · intro _ middle pruned
          have left := pruned.children_of_root list currentTag
          have free : middle.parentLink? root = none := by
            rw [pruned.link, unattached, ite_self]
          have top : middle.parentLink? document.anchor = none := by
            rw [pruned.link, regular.free id document present, ite_self]
          have different : root ≠ document.anchor := by
            rintro rfl
            have plain := (offers_of_isTag tag).2
            rw [isAnchor_of_document? regular.anchored present] at plain
            cases plain
          have anchored : middle.anchored? document.anchor = some id := by
            rw [anchored?_of_shape? (pruned.shape _)]
            exact regular.anchored id document present
          rcases Option.isSome_iff_exists.1 (childList?_of_anchored? anchored) with
            ⟨siblings, listed⟩
          have same : siblings = _ := (children_of_childList? listed).symm.trans left
          rw [same] at listed
          apply Edit.Ensures.bind
          apply (insertLast_yields listed free top different).ensures
          intro _ last attached
          apply Edit.ensures_pure
          exact rerooted_of_attached regular present tag unattached found pruned left attached
        · intro last same
          exact same
      · intro last same
        exact same
  · intro other
    exact Edit.Ensures.throw_bind rfl

end XmlGrove
