import XmlGrove.Proofs.Building.Calls

/-!
# The stack of a builder

A builder that was made for a new document or for one that was there writes into this document,
whatever it is called with and whatever else is done, as long as nobody else changes the document.
-/

namespace XmlGrove

open Grove Activity

namespace Grove

variable {grove before after : Grove} {id : DocumentId} {document : Document}
  {anchor node root : NodeId} {stack : List NodeId}

/-- A document consists of the same nodes with the same parents as before. -/
structure Undisturbed (document : DocumentId) (before after : Grove) : Prop where
  sound : after.Sound
  anchor : (after.document? document).map (·.anchor) = (before.document? document).map (·.anchor)
  node? : ∀ id, before.documentOf? id = some document → after.node? id = before.node? id
  link : ∀ id, before.documentOf? id = some document →
    after.parentLink? id = before.parentLink? id

/-! ## Ways up to an anchor -/

theorem exists_ascent_of_isChain (sound : grove.Sound)
    (lists : stack.IsChain fun upper lower => grove.Lists lower upper)
    (bottom : stack.getLast? = some root) (linked : grove.parentLink? root = some anchor)
    (free : grove.parentLink? anchor = none) :
    ∀ node ∈ stack, ∃ above, grove.Ascent node above ∧ above.getLast? = some anchor := by
  induction stack with
  | nil => simp
  | cons upper rest induction =>
      cases rest with
      | nil =>
          intro node member
          rw [List.getLast?_singleton, Option.some.injEq] at bottom
          rw [List.mem_singleton, bottom] at member
          rw [member]
          exact ⟨[anchor], .link linked (.top free), rfl⟩
      | cons lower rest =>
          rcases List.isChain_cons_cons.1 lists with ⟨listed, others⟩
          have below := induction others bottom
          intro node member
          rcases List.mem_cons.1 member with rfl | later
          · rcases below lower List.mem_cons_self with ⟨above, ascent, last⟩
            refine ⟨lower :: above, .link (sound.listed listed) ascent, ?_⟩
            rw [List.getLast?_cons, last, Option.getD_some]
          · exact below node later

theorem documentOf?_of_ascent (sound : grove.Sound) {above : List NodeId}
    (ascent : grove.Ascent node above) (last : above.getLast? = some anchor)
    (anchored : grove.anchored? anchor = some id) : grove.documentOf? node = some id := by
  rw [ascent.documentOf?_eq sound, last, Option.getD_some, anchored]

end Grove

namespace Script

variable {builder : Builder} {workspace : Workspace} {grove before after : Grove}
  {document : DocumentId} {root : NodeId}

namespace Builder.Stands

theorem exists_root (stands : builder.Stands grove) :
    ∃ root, builder.stack.getLast? = some root ∧ grove.documentRoot? builder.document = some root := by
  rw [stands.bottom, stack]
  exact ⟨_, List.getLast?_cons, List.getLast?_cons⟩

theorem documentOf? (stands : builder.Stands grove) {id : NodeId} (member : id ∈ builder.stack) :
    grove.documentOf? id = some builder.document := by
  rcases stands.anchor with ⟨document, present, anchored, free⟩
  rcases stands.exists_root with ⟨root, bottom, found⟩
  have listed := List.mem_of_find?_eq_some found
  rw [anchoredNodes_eq present] at listed
  rcases exists_ascent_of_isChain stands.sound stands.lists bottom (stands.sound.listed listed) free
    id member with ⟨above, ascent, last⟩
  exact documentOf?_of_ascent stands.sound ascent last anchored

theorem parent? (stands : builder.Stands grove) {upper lower : NodeId}
    (member : lower ∈ builder.stack) (listed : grove.Lists lower upper) :
    grove.parent? upper = some lower := by
  have plain := not_isAnchor_of_kind? (isTag_iff_kind?.1 (stands.tags lower member))
  rw [Grove.parent?, stands.sound.listed listed, Option.filter_some, plain]
  rfl

/-- While nobody changes its document, a builder goes on standing on it. -/
theorem undisturbed (stands : builder.Stands before)
    (undisturbed : Undisturbed builder.document before after) : builder.Stands after := by
  rcases stands.anchor with ⟨document, present, anchored, free⟩
  have same := undisturbed.anchor
  rw [present] at same
  rcases Option.map_eq_some_iff.1 same with ⟨latter, found, equal⟩
  change latter.anchor = document.anchor at equal
  have topmost : before.documentOf? document.anchor = some builder.document := by
    rw [(Ascent.top free).documentOf?_eq stands.sound]
    exact anchored
  have kept : ∀ node ∈ before.children document.anchor, after.isTag node = before.isTag node := by
    intro node listed
    have below := (Ascent.top free).documentOf?_of_link stands.sound (stands.sound.listed listed)
    rw [isTag, isTag, tag?, tag?, undisturbed.node? node (below.trans topmost)]
  exact {
    sound := undisturbed.sound
    anchor := by
      refine ⟨latter, found, ?_, ?_⟩
      · rw [equal, anchored?, undisturbed.node? _ topmost]
        exact anchored
      · rw [equal, undisturbed.link _ topmost, free]
    bottom := by
      rw [← stands.bottom, documentRoot?, documentRoot?, anchoredNodes_eq present,
        anchoredNodes_eq found, equal, children_eq_of_node? (undisturbed.node? _ topmost)]
      exact List.find?_congr kept
    tags := by
      intro id member
      have tag := stands.tags id member
      rw [isTag, tag?] at tag ⊢
      rw [undisturbed.node? id (stands.documentOf? member)]
      exact tag
    lists := by
      apply stands.lists.imp_of_mem_imp
      intro upper lower _ member listed
      rw [Grove.Lists, children_eq_of_node? (undisturbed.node? lower (stands.documentOf? member))]
      exact listed }

end Builder.Stands

/-! ## Foundations -/

/-- A grove is founded, and a document of it has a root. -/
def Rooted (id : DocumentId) (grove : Grove) : Prop :=
  grove.Founded ∧ (grove.documentRoot? id).isSome = true

theorem Rooted.spare (rooted : Rooted document before) (spared : Spared [] before after) :
    Rooted document after := by
  rcases rooted with ⟨founded, found⟩
  rcases Option.isSome_iff_exists.1 found with ⟨root, known⟩
  rcases exists_document_of_root known with ⟨content, present⟩
  refine ⟨founded.spare spared, ?_⟩
  rw [spared.documentRoot? founded.sound present (isAnchor_of_document? founded.anchored present)]
  exact found

theorem stands_of_root (founded : grove.Founded) (found : grove.documentRoot? document = some root) :
    Builder.Stands ⟨document, root, []⟩ grove := by
  rcases exists_document_of_root found with ⟨content, present⟩
  exact {
    sound := founded.sound
    anchor := ⟨content, present, founded.anchored document content present,
      founded.free document content present⟩
    bottom := found
    tags := by
      intro id member
      rw [Builder.stack, List.mem_singleton] at member
      rw [member]
      exact List.find?_some found
    lists := List.isChain_singleton root }

theorem builderFor_ensures (founded : workspace.grove.Founded) :
    Ensures (Foundation.builderFor document) workspace
      (fun builder last => builder.Stands last.grove) (fun _ => True) := by
  rw [Foundation.builderFor]
  apply Ensures.bind
  apply edit_ensures
  rw [requireRoot]
  apply Edit.Ensures.bind
  apply Edit.ensures_get
  split
  · rename_i root found
    exact Edit.ensures_pure (ensures_pure (stands_of_root founded found))
  · exact Edit.ensures_throw trivial

theorem edit_preserves_rooted {operation : Edit α} (sparing : ∀ grove, operation.Sparing grove) :
    Preserves (edit operation) fun workspace => Rooted document workspace.grove := by
  intro workspace rooted
  apply edit_ensures
  apply (sparing workspace.grove).mono
  · intro _ last spared
    exact rooted.spare spared
  · intro last spared
    exact rooted.spare spared

theorem redeclare_preserves (id : DocumentId) :
    Preserves (redeclare id) fun workspace => Rooted document workspace.grove := by
  have looks : ∀ value, Looks (displayed value) := fun value =>
    looks_get.bind fun _ => looks_ofExcept _
  rw [redeclare]
  apply Preserves.bind
  · apply edit_preserves_rooted
    intro grove
    apply (requireDocument_ensures id).mono
    · rintro content _ ⟨rfl, _⟩
      exact .refl _
    · rintro _ rfl
      exact .refl _
  · intro content
    split
    · apply (looks _).preserves.bind
      intro version
      apply (looks _).preserves.bind
      intro encoding
      exact edit_preserves_rooted fun grove => sparing_declareAnew id version encoding
    · exact (looks_pure _).preserves

/-- What a document notes about its version and its encoding is changed with the declaration. -/
theorem setNote_preserves {property : String} (value : Value)
    (notes : property = "version" ∨ property = "encoding") :
    Preserves (setDocumentProperty document property value)
      fun workspace => Rooted document workspace.grove := by
  have sparing : ∀ {change : Document → Document} (grove : Grove),
      (∀ present, (change present).anchor = present.anchor) →
      (∀ present, (change present).declaration = present.declaration) →
      (modify (·.modifyDocument document change) : Edit PUnit).Sparing grove := by
    intro change grove anchor declaration
    apply Edit.ensures_modify
    refine .note anchor fun present noted equal => .inl ?_
    rw [← declaration, equal]
  rcases notes with rfl | rfl
  · unfold setDocumentProperty
    apply Preserves.bind
    · exact edit_preserves_rooted fun grove => sparing grove (fun _ => rfl) fun _ => rfl
    · intro _
      exact redeclare_preserves document
  · unfold setDocumentProperty
    apply Preserves.bind
    · exact edit_preserves_rooted fun grove => sparing grove (fun _ => rfl) fun _ => rfl
    · intro _
      exact redeclare_preserves document

theorem loadDocument_roots {source : Loading.LoadSource} (founded : workspace.grove.Founded)
    (plain : source.isCrowded = false) :
    Ensures (load (Loading.loadDocument (Loading.standardLoaders {}) {} none source)) workspace
      (fun id last => Rooted id last.grove) (fun _ => True) := by
  have fair : ∀ loader ∈ Loading.standardLoaders {}, loader.IsFair :=
    fun loader member => Loading.isFair_of_mem_standardLoaders member
  apply load_ensures
  apply ((Loading.loadDocument_ensures _ {} none source fair founded.sound).and
    (loadDocument_founds _ {} none source fair founded)).mono
  · rintro id last ⟨loaded, after⟩
    refine ⟨after, ?_⟩
    rcases loaded.ordered.2 plain with ⟨preceding, root, list, precedes, tag⟩
    rw [documentRoot?, list, find?_ordered precedes tag]
    rfl
  · intro last _
    trivial

theorem lay_ensures (foundation : Foundation) (founded : workspace.grove.Founded) :
    Ensures foundation.lay workspace (fun builder last => builder.Stands last.grove)
      (fun _ => True) := by
  cases foundation with
  | source text =>
      rw [Foundation.lay]
      apply (loadDocument_roots founded rfl).andThen
      intro document last rooted
      exact builderFor_ensures rooted.1
  | root name attributes version encoding =>
      rw [Foundation.lay]
      apply (newTag_ensures name attributes .null founded.sound).andThen
      rintro root middle ⟨enlarged, _⟩
      apply (loadDocument_roots (founded.enlarge enlarged) rfl).andThen
      intro document loaded rooted
      apply (setNote_preserves version (.inl rfl) loaded rooted).andThen
      intro _ noted rooted
      apply (setNote_preserves encoding (.inr rfl) noted rooted).andThen
      intro _ last rooted
      exact builderFor_ensures rooted.1

/-! ## Calls one after the other -/

namespace Site

variable {site after : Site} {fault : Fault} {activity : Builder → Action Builder}

theorem attempt_eq (site : Site) (activity : Builder → Action Builder) :
    site.attempt activity =
      match outcome (activity site.builder) site.workspace with
      | (.ok builder, workspace) => (none, ⟨workspace, builder⟩)
      | (.error fault, workspace) => (some fault, { site with workspace := workspace }) := rfl

/-- What was done with a builder, from its creation on. Other things than its document may be
changed in the meantime. -/
inductive Built : Site → Prop
  | laid {foundation : Foundation} {workspace last : Workspace} {builder : Builder}
      (reached : Reached (fun _ _ => True) workspace.grove)
      (succeeded : outcome foundation.lay workspace = (.ok builder, last)) :
      Built ⟨last, builder⟩
  | resumed {document : DocumentId} {workspace last : Workspace} {builder : Builder}
      (reached : Reached (fun _ _ => True) workspace.grove)
      (succeeded : outcome (Foundation.builderFor document) workspace = (.ok builder, last)) :
      Built ⟨last, builder⟩
  | call {site : Site} (built : Built site) (method : String) (arguments : List Value) :
      Built (site.attempt fun builder => builder.call method arguments).2
  | meanwhile {site : Site} {workspace : Workspace} (built : Built site)
      (undisturbed : Undisturbed site.builder.document site.workspace.grove workspace.grove) :
      Built { site with workspace := workspace }

theorem stands_attempt
    (ensures : Ensures (activity site.builder) site.workspace
      (fun builder last => builder.Stands last.grove)
      (fun last => site.builder.Stands last.grove)) :
    (site.attempt activity).2.builder.Stands (site.attempt activity).2.workspace.grove := by
  rw [attempt_eq]
  rw [Ensures] at ensures
  split
  · rename_i builder last equal
    rw [equal] at ensures
    exact ensures
  · rename_i fault last equal
    rw [equal] at ensures
    exact ensures

theorem Built.stands (built : Built site) : site.builder.Stands site.workspace.grove := by
  induction built with
  | laid reached succeeded => exact (lay_ensures _ reached.founded).of_ok succeeded
  | resumed reached succeeded => exact (builderFor_ensures reached.founded).of_ok succeeded
  | call built method arguments induction =>
      exact stands_attempt (Builder.call_ensures method arguments induction)
  | meanwhile built undisturbed induction => exact induction.undisturbed undisturbed

theorem enlarged_of_failure {method : String} {arguments : List Value}
    (stands : site.builder.Stands site.workspace.grove) (appends : method ∈ Builder.appending)
    (failed : site.attempt (fun builder => builder.call method arguments) = (some fault, after)) :
    after.builder = site.builder ∧ Enlarged site.workspace.grove after.workspace.grove := by
  have ensures := Builder.call_appending_ensures arguments appends stands
  rw [attempt_eq] at failed
  rw [Ensures] at ensures
  split at failed
  · cases failed
  · rename_i fault last equal
    rw [equal] at ensures
    cases failed
    exact ⟨rfl, ensures⟩

/-! ## Nested steps -/

theorem built_leave (built : Built site) : Built site.leave := built.call "parent" []

theorem built_enter (built : Built site) (arguments : List Value) :
    Built (site.attempt fun builder => builder.elementOf arguments).2 :=
  built.call "element" arguments

end Site

mutual

/-- A step is a sequence of calls, in which a block is left by one more call. -/
theorem BuildStep.run_built {site : Site} (built : site.Built) (step : BuildStep) :
    (step.run site).2.Built := by
  cases step with
  | call method arguments => exact built.call method arguments
  | within arguments steps =>
      have entered := Site.built_enter built arguments
      rw [run]
      split
      · rename_i fault after equal
        rw [equal] at entered
        exact entered
      · rename_i middle equal
        rw [equal] at entered
        exact Site.built_leave (BuildStep.runAll_built entered steps)
  | group steps => exact Site.built_leave (BuildStep.runAll_built built steps)
  | abandon arguments =>
      have entered := Site.built_enter built arguments
      rw [run]
      split
      · rename_i fault after equal
        rw [equal] at entered
        exact entered
      · rename_i middle equal
        rw [equal] at entered
        exact Site.built_leave entered

theorem BuildStep.runAll_built {site : Site} (built : site.Built) (steps : List BuildStep) :
    (BuildStep.runAll site steps).2.Built := by
  cases steps with
  | nil => exact built
  | cons first rest => exact BuildStep.runAll_built (BuildStep.run_built built first) rest

end

/-- After whatever calls, failing ones and those of nested blocks among them, the bottom of the
stack is the root of the document, and each node on it is a child of the one below, so that all of
them belong to the document. A call that is to append a node and fails leaves the stack and all
nodes and documents as they were. Running further steps is nothing but making further calls. -/
theorem stack_of_built {site : Site} (built : site.Built) :
    site.workspace.grove.documentRoot? site.builder.document = site.builder.stack.getLast? ∧
      (site.builder.stack.IsChain fun upper lower => site.workspace.grove.Lists lower upper ∧
        site.workspace.grove.parent? upper = some lower) ∧
      (∀ id ∈ site.builder.stack, site.workspace.grove.isTag id = true ∧
        site.workspace.grove.documentOf? id = some site.builder.document) ∧
      (∀ method ∈ Builder.appending, ∀ arguments fault after,
        site.attempt (fun builder => builder.call method arguments) = (some fault, after) →
          after.builder = site.builder ∧
            after.workspace.grove.documents = site.workspace.grove.documents ∧
            ∀ id, site.workspace.grove.Has id →
              after.workspace.grove.node? id = site.workspace.grove.node? id ∧
                after.workspace.grove.parentLink? id = site.workspace.grove.parentLink? id) ∧
      ∀ steps, (BuildStep.runAll site steps).2.Built := by
  have stands := built.stands
  refine ⟨stands.bottom, ?_, ?_, ?_, BuildStep.runAll_built built⟩
  · apply stands.lists.imp_of_mem_imp
    intro upper lower _ member listed
    exact ⟨listed, stands.parent? member listed⟩
  · intro id member
    exact ⟨stands.tags id member, stands.documentOf? member⟩
  · intro method appends arguments fault after failed
    rcases Site.enlarged_of_failure stands appends failed with ⟨same, enlarged⟩
    refine ⟨same, enlarged.documents, fun id has => ⟨?_, enlarged.link has⟩⟩
    exact node?_of_shape? (enlarged.shape has) (enlarged.children has fun fills => fills)

/-- A builder for a new document with a root that is called library. -/
def libraryOutcome : Except Fault Builder × Workspace :=
  outcome (Foundation.root (.text "library") .null (.text "1.0") (.text "UTF-8")).lay {}

theorem libraryOutcome_eq : libraryOutcome = (.ok ⟨⟨0⟩, ⟨0⟩, []⟩, libraryOutcome.2) := by
  have succeeded : libraryOutcome.1.toOption = some ⟨⟨0⟩, ⟨0⟩, []⟩ := by decide
  apply Prod.ext
  · cases result : libraryOutcome.1 with
    | error fault =>
        rw [result] at succeeded
        cases succeeded
    | ok builder =>
        rw [result] at succeeded
        cases succeeded
        rfl
  · rfl

/-- The site where an element is begun in the library. -/
def librarySite : Site :=
  (Site.attempt ⟨libraryOutcome.2, ⟨⟨0⟩, ⟨0⟩, []⟩⟩
    fun builder => builder.call "element" [.text "book"]).2

theorem built_librarySite : librarySite.Built :=
  (Site.Built.laid .start libraryOutcome_eq).call "element" [.text "book"]

theorem stack_of_built_librarySite :
    librarySite.Built ∧ librarySite.builder.stack = [⟨5⟩, ⟨0⟩] ∧
      librarySite.workspace.grove.parent? ⟨5⟩ = some ⟨0⟩ := by
  have chain := (stack_of_built built_librarySite).2.1
  have stack : librarySite.builder.stack = [⟨5⟩, ⟨0⟩] := by decide
  rw [stack] at chain
  exact ⟨built_librarySite, stack, (List.isChain_cons_cons.1 chain).1.2⟩

end Script

end XmlGrove
