import XmlGrove.Proofs.Document.History

/-!
# Anchors without a parent

Whatever is done to nodes and documents, no anchor gets a parent, not even that of a document
whose root follows something else. So what is below the anchor of a document belongs to it.
-/

namespace XmlGrove

open Grove

namespace Grove

variable {grove before after : Grove} {touched : List NodeId} {document : Document}

/-- Links and lists agree as far as they must between steps, and documents have anchors without
a parent. -/
structure Founded (grove : Grove) : Prop where
  sound : grove.Sound
  anchored : grove.Anchored
  free : ∀ id document, grove.document? id = some document →
    grove.parentLink? document.anchor = none

theorem founded_empty : Founded {} where
  sound := regular_empty.sound
  anchored := regular_empty.anchored
  free := regular_empty.free

theorem Founded.spare (founded : before.Founded) (spared : Spared touched before after) :
    after.Founded where
  sound := spared.sound founded.sound
  anchored := spared.keeps_anchored founded.anchored
  free id document present := by
    rcases spared.exists_document? present with ⟨former, found, equal⟩
    rw [← equal]
    exact spared.free (isAnchor_of_document? founded.anchored found) (founded.free id former found)

theorem Founded.enlarge (founded : before.Founded) (enlarged : Enlarged before after) :
    after.Founded :=
  founded.spare (enlarged.spared : Spared [] before after)

theorem Founded.enter (founded : grove.Founded) (anchor : document.anchor = grove.nextId) :
    (grove.enter document).Founded where
  sound := founded.sound.enter anchor
  anchored := founded.anchored.enter anchor
  free id other present := by
    rw [parentLink?_enter]
    rw [document?_enter] at present
    split at present
    · cases present
      rw [anchor]
      exact parentLink?_of_not_has not_has_nextId
    · exact founded.free id other present

theorem Founded.note {id : DocumentId} {change : Document → Document} (founded : grove.Founded)
    (same : ∀ present, (change present).anchor = present.anchor) :
    (grove.modifyDocument id change).Founded where
  sound := ⟨founded.sound.target, founded.sound.listed, founded.sound.nodup⟩
  anchored := founded.anchored.note same
  free other present known := by
    rw [document?, modifyDocument, Array.getElem?_modify] at known
    split at known
    · rcases Option.map_eq_some_iff.1 known with ⟨former, found, rfl⟩
      rw [same]
      exact founded.free other former found
    · exact founded.free other present known

end Grove

variable {grove : Grove} {anchor child node : NodeId} {id : DocumentId} {parts : DocumentParts}

/-- An operation keeps anchors on top, whether it succeeds or not. -/
def Edit.Founds (operation : Edit α) (grove : Grove) : Prop :=
  Edit.Ensures operation grove (fun _ last => last.Founded) Founded

namespace Edit

theorem Founds.seq {first : Edit α} {next : α → Edit β} (former : Founds first grove)
    (latter : ∀ value middle, middle.Founded → Founds (next value) middle) :
    Founds (first >>= next) grove := by
  apply Ensures.bind
  apply former.mono
  · intro value middle founded
    exact latter value middle founded
  · intro last founded
    exact founded

/-- An operation that only looks at the grove, and another one after it. -/
theorem Founds.bind_looking {first : Edit α} {next : α → Edit β} (founded : grove.Founded)
    (looks : Ensures first grove (fun value last => last = grove ∧ Founds (next value) grove)
      (fun last => last = grove)) : Founds (first >>= next) grove := by
  apply Ensures.bind
  apply looks.mono
  · rintro value _ ⟨rfl, latter⟩
    exact latter
  · rintro _ rfl
    exact founded

end Edit

/-! ## Nodes that are taken out or placed -/

theorem founds_removeSibling (founded : grove.Founded) :
    (removeSibling anchor child).Founds grove := by
  apply (removeSibling_ensures anchor child founded.sound).mono
  · intro _ last pruned
    exact founded.spare (Pruned.spared pruned founded.sound)
  · rintro _ rfl
    exact founded

theorem founds_forM_removeSibling (nodes : List NodeId) (founded : grove.Founded) :
    (nodes.forM (removeSibling anchor)).Founds grove := by
  induction nodes generalizing grove with
  | nil => exact founded
  | cons first rest induction =>
      change (removeSibling anchor first >>= fun _ =>
        rest.forM (removeSibling anchor)).Founds grove
      apply (founds_removeSibling founded).seq
      intro _ middle founded
      exact induction founded

theorem founds_detach (founded : grove.Founded) : (detach node).Founds grove := by
  rw [detach]
  apply Edit.Founds.bind_looking founded
  apply Edit.ensures_get
  refine ⟨rfl, ?_⟩
  split
  · exact founded
  · apply Edit.ensures_ite
    · intro rooted
      exact Edit.Ensures.throw_bind founded
    · intro unrooted
      exact founds_removeSibling founded

theorem founds_attach {placement : Placement} (fair : placement.IsFair) (founded : grove.Founded)
    (offered : grove.Offers node) : (attach placement anchor (.node node)).Founds grove := by
  have usable : ∀ id ∈ (Source.node node).nodes, grove.Offers id := by
    intro id member
    rw [Source.nodes, List.mem_singleton] at member
    rw [member]
    exact offered
  apply (attach_ensures placement anchor _ founded.sound fun id member => (usable id member).1).mono
  · intro child last attached
    exact founded.spare (attached.spared fair founded.sound usable)
  · intro last abandoned
    exact founded.spare (abandoned.spared usable : Spared [] grove last)

namespace Prologue

theorem founds_append (founded : grove.Founded) : (append id node).Founds grove := by
  rw [append]
  apply Edit.Founds.bind_looking founded
  apply requirePlaceable_precedes.mono
  · rintro _ _ ⟨rfl, precedes, free⟩
    refine ⟨rfl, ?_⟩
    apply Edit.Founds.bind_looking founded
    apply (requireDocument_ensures id).mono
    · rintro document _ ⟨rfl, present⟩
      refine ⟨rfl, ?_⟩
      apply Edit.Founds.bind_looking founded
      apply Edit.ensures_get
      refine ⟨rfl, ?_⟩
      apply (founds_attach (Placement.isFair_atIndex _) founded precedes.offers).seq
      intro child last founded
      exact founded
    · intro last same
      exact same
  · intro last same
    exact same

theorem founds_insert (index : Int) (founded : grove.Founded) :
    (insert id index node).Founds grove := by
  rw [insert]
  apply Edit.Founds.bind_looking founded
  apply requirePlaceable_precedes.mono
  · rintro _ _ ⟨rfl, precedes, free⟩
    refine ⟨rfl, ?_⟩
    apply Edit.Founds.bind_looking founded
    apply (requireDocument_ensures id).mono
    · rintro document _ ⟨rfl, present⟩
      refine ⟨rfl, ?_⟩
      apply Edit.Founds.bind_looking founded
      apply Edit.ensures_get
      refine ⟨rfl, ?_⟩
      apply Edit.ensures_ite
      · intro outside
        exact Edit.Ensures.throw_bind founded
      · intro inside
        apply Edit.ensures_ite
        · intro beyond
          apply Edit.Ensures.bind_of_ok (outcome_adopt_node free
            (by rw [precedes.isTag_eq_false, Bool.false_and]))
          apply Edit.Ensures.throw_bind
          have bears := bears_of_document? founded.anchored present
          exact founded.spare
            (.link precedes.offers.1 free precedes.offers.2 bears : Spared [] _ _)
        · intro within
          apply (founds_attach (Placement.isFair_atIndex _) founded precedes.offers).seq
          intro child last founded
          exact founded
    · intro last same
      exact same
  · intro last same
    exact same

theorem founds_remove (founded : grove.Founded) : (remove id node).Founds grove := by
  rw [remove]
  apply Edit.Founds.bind_looking founded
  apply (index_looks id node).mono
  · rintro _ _ rfl
    refine ⟨rfl, ?_⟩
    apply Edit.Founds.bind_looking founded
    apply (requireDocument_ensures id).mono
    · rintro document _ ⟨rfl, _⟩
      exact ⟨rfl, founds_removeSibling founded⟩
    · intro last same
      exact same
  · intro last same
    exact same

theorem founds_clear (founded : grove.Founded) : (clear id).Founds grove := by
  rw [clear]
  apply Edit.Founds.bind_looking founded
  apply (requireDocument_ensures id).mono
  · rintro document _ ⟨rfl, _⟩
    refine ⟨rfl, ?_⟩
    apply Edit.Founds.bind_looking founded
    apply Edit.ensures_get
    exact ⟨rfl, founds_forM_removeSibling _ founded⟩
  · intro last same
    exact same

end Prologue

theorem founds_setRoot (root : NodeId) (founded : grove.Founded) :
    (setRoot id root).Founds grove := by
  rw [setRoot]
  apply Edit.Founds.bind_looking founded
  apply Edit.ensures_get
  refine ⟨rfl, ?_⟩
  apply Edit.ensures_ite
  · intro tag
    apply Edit.ensures_ite
    · intro attached
      exact Edit.Ensures.throw_bind founded
    · intro unattached
      apply Edit.Founds.bind_looking founded
      apply (requireDocument_ensures id).mono
      · rintro document _ ⟨rfl, _⟩
        refine ⟨rfl, ?_⟩
        apply Edit.Founds.bind_looking founded
        apply (requireRoot_ensures id).mono
        · rintro current _ ⟨rfl, _⟩
          refine ⟨rfl, ?_⟩
          apply Edit.Ensures.bind
          apply (removeSibling_ensures document.anchor current founded.sound).mono
          · intro _ middle pruned
            have removed := Pruned.spared pruned founded.sound
            have between := founded.spare removed
            rw [insertChildren_eq_insertEachAt, insertEachAt, bind_assoc]
            apply Edit.Founds.bind_looking between
            apply (requireChildren_ensures document.anchor middle).mono
            · rintro siblings _ ⟨rfl, _⟩
              refine ⟨rfl, ?_⟩
              split
              · exact Edit.Ensures.throw_bind between
              · apply Edit.Founds.seq
                · apply Edit.Founds.seq
                  · apply Edit.Founds.seq
                    · exact founds_attach (Placement.isFair_atIndex _) between
                        (removed.offers (offers_of_isTag tag))
                    · intro _ last founded
                      exact founded
                  · intro _ last founded
                    exact founded
                · intro _ last founded
                  exact founded
            · intro last same
              exact same
          · rintro _ rfl
            exact founded
        · intro last same
          exact same
      · intro last same
        exact same
  · intro other
    exact Edit.Ensures.throw_bind founded

/-! ## New documents -/

theorem createDocument_founds {nodes : List NodeId} (founded : grove.Founded)
    (sources : parts.sources = nodes.map .node) (distinct : nodes.Nodup)
    (usable : ∀ node ∈ nodes, Usable grove node) :
    Edit.Ensures (createDocument parts) grove (fun _ last => last.Founded)
      (fun last => last = grove) := by
  rw [createDocument]
  apply Edit.Ensures.bind
  apply prepareDocument_enters.mono
  · rintro ⟨id, anchor⟩ ready entered
    apply Edit.Ensures.bind
    apply (entered.adopts founded.sound sources distinct usable).ensures
    rintro children last ⟨spared, _⟩
    apply Edit.Ensures.bind
    apply Edit.ensures_modify
    apply Edit.ensures_pure
    rcases entered with ⟨middle, document, _, enlarged, _, rfl, _, _, equal, _⟩
    exact ((founded.enlarge enlarged).enter equal).spare spared
  · intro last same
    exact same

theorem founds_cloneDocument (founded : grove.Founded) : (cloneDocument id).Founds grove := by
  rw [cloneDocument]
  apply Edit.Founds.bind_looking founded
  apply (requireDocument_ensures id).mono
  · rintro document _ ⟨rfl, present⟩
    refine ⟨rfl, ?_⟩
    apply Edit.Founds.bind_looking founded
    apply Edit.ensures_get
    refine ⟨rfl, ?_⟩
    rw [anchoredNodes_eq present]
    apply Edit.Ensures.bind
    apply Edit.Ensures.adapt
    apply (cloneNodes_grows _ founded.sound fun node member =>
      has_of_parentLink? (founded.sound.listed member)).mono
    · rintro clones middle ⟨enlarged, kinds, _, fresh⟩
      have between := founded.enlarge enlarged
      apply Edit.Ensures.bind
      apply (createDocument_founds between rfl fresh.distinct fresh.usable).mono
      · intro clone last after
        split
        · apply Edit.Ensures.bind
          rw [map_eq_pure_bind]
          apply Edit.Ensures.bind
          apply (cloneNode_grows after.sound).mono
          · rintro copy final ⟨further, _⟩
            apply Edit.ensures_pure
            apply Edit.Ensures.bind
            apply Edit.ensures_modify
            apply Edit.ensures_pure
            exact (after.enlarge further).note fun _ => rfl
          · rintro _ rfl
            exact after
        · apply Edit.Ensures.bind
          apply Edit.ensures_pure
          apply Edit.Ensures.bind
          apply Edit.ensures_modify
          apply Edit.ensures_pure
          exact after.note fun _ => rfl
      · rintro _ rfl
        exact between
    · intro last enlarged
      exact founded.enlarge enlarged
  · intro last same
    exact same

theorem loadDocument_founds {state : Loading.State} (loaders : List Loading.Loader)
    (options : ParserOptions) (sourceUrl : Option Value) (source : Loading.LoadSource)
    (fair : ∀ loader ∈ loaders, loader.IsFair) (founded : state.grove.Founded) :
    Activity.Ensures (Loading.loadDocument loaders options sourceUrl source) state
      (fun _ last => last.grove.Founded) (fun last => last.grove.Founded) := by
  rw [Loading.loadDocument]
  apply Activity.Ensures.bind
  rw [Loading.configure]
  apply Activity.ensures_modify
  apply Activity.Ensures.bind
  have all : ∀ loader ∈ Loading.nodeLoader :: loaders, loader.IsFair := by
    intro loader member
    rcases List.mem_cons.1 member with rfl | other
    · exact Loading.isFair_nodeLoader
    · exact fair loader other
  refine Activity.Ensures.mono (Loading.tryLoaders_ensures source _ all [] ?_) ?_ ?_
  · exact founded.sound
  · rintro sources middle ⟨followed, ids, rfl, distinct, usable, _⟩
    have between := founded.enlarge followed.enlarged
    apply Activity.Ensures.bind
    apply Activity.ensures_get
    apply Loading.edit_ensures
    apply (createDocument_founds between rfl distinct usable).mono
    · intro id last after
      exact after
    · rintro _ rfl
      exact between
  · intro last followed
    exact founded.enlarge followed.enlarged

/-! ## Histories -/

theorem Operation.founded_apply {operation : Operation} (founded : grove.Founded)
    (available : operation.Available grove) (made : ∀ parts, operation ≠ .createDocument parts) :
    (operation.apply grove).Founded := by
  cases operation with
  | detach id => exact (founds_detach founded).after
  | createDocument parts => exact absurd rfl (made parts)
  | cloneDocument id => exact (founds_cloneDocument founded).after
  | setRoot id root => exact (founds_setRoot root founded).after
  | appendToPrologue id node => exact (Prologue.founds_append founded).after
  | insertIntoPrologue id index node => exact (Prologue.founds_insert index founded).after
  | prependToPrologue id node => exact (Prologue.founds_insert 0 founded).after
  | removeFromPrologue id node => exact (Prologue.founds_remove founded).after
  | clearPrologue id => exact (Prologue.founds_clear founded).after
  | _ => exact founded.spare (spared_apply founded.sound available rfl)

theorem Act.founded_apply {act : Act} (founded : grove.Founded) (available : act.Available grove) :
    (act.apply grove).Founded := by
  cases act with
  | operate operation => exact operation.founded_apply founded available.1 available.2
  | load services loaders options sourceUrl source notes =>
      have fair : ∀ loader ∈ loaders, loader.IsFair :=
        fun loader member => Loading.isFair_of_mem_standardLoaders (available loader member)
      exact (loadDocument_founds loaders options sourceUrl source fair founded).after
  | _ =>
      apply founded.spare
      exact Act.spared_apply available (fun _ equal => (by cases equal))
        fun _ _ _ _ _ _ equal => (by cases equal)

theorem Reached.founded {allowed : Act → Grove → Prop} (reached : Reached allowed grove) :
    grove.Founded := by
  induction reached with
  | start => exact founded_empty
  | step reached available _ induction => exact Act.founded_apply induction available

end XmlGrove
