import XmlGrove.Proofs.Document.History
import XmlGrove.Proofs.Grove.Reserve

/-!
# What is done to other documents

Whatever is done to documents and nodes that do not belong to a reserve leaves it as it is, and
with it what is below its nodes and what its documents are rendered as. This holds for what
loaders do as well.
-/

namespace XmlGrove

open Grove

variable {start grove : Grove} {reserve : Reserve start} {id child parent : NodeId}
  {source : Source}

/-! ## Documents -/

theorem respects_requireDocument {document : DocumentId} {next : Document → Edit α}
    {result : α → Prop} (intact : reserve.Intact grove) (anchored : grove.Anchored)
    (apart : ¬ reserve.documents document)
    (respects : ∀ content, ¬ reserve.nodes content.anchor →
      (next content).Respects reserve grove result) :
    (requireDocument document >>= next).Respects reserve grove result := by
  apply Edit.Respects.bind_looking intact
  apply (requireDocument_ensures document).mono
  · rintro content _ ⟨rfl, found⟩
    exact ⟨rfl, respects content (intact.not_nodes_anchor anchored found apart)⟩
  · intro last same
    exact same

theorem respects_declare {parts : DocumentParts} (intact : reserve.Intact grove) :
    parts.declare.Respects reserve grove fun _ => True := by
  unfold DocumentParts.declare
  split
  · exact Edit.respects_pure intact trivial
  · exact Edit.Ensures.mono (respects_createLeaf intact) (fun _ _ both => ⟨trivial, both.2⟩)
      fun _ intact => intact

theorem respects_prepareDocument {parts : DocumentParts} (intact : reserve.Intact grove) :
    (prepareDocument parts).Respects reserve grove fun made =>
      ¬ reserve.documents made.1 ∧ ¬ reserve.nodes made.2 := by
  rw [prepareDocument]
  apply Edit.Ensures.bind
  apply Edit.ensures_get
  apply Edit.ensures_ite
  · intro _
    apply (respects_declare intact).bind
    intro declaration middle _ intact
    apply Edit.Ensures.bind
    apply Edit.ensures_get
    have later : ¬ reserve.documents ⟨middle.documents.size⟩ := by
      intro member
      exact Nat.not_lt.2 intact.count (reserve.present member)
    apply (respects_create intact (by
      intro content equal
      cases equal)).bind
    intro anchor last apart intact
    apply Edit.Ensures.bind
    apply Edit.ensures_modify
    exact Edit.respects_pure intact.enter ⟨later, apart⟩
  · intro _
    exact Edit.Ensures.throw_bind intact

theorem respects_createDocument {parts : DocumentParts} (intact : reserve.Intact grove) :
    (createDocument parts).Respects reserve grove fun made => ¬ reserve.documents made := by
  rw [createDocument]
  apply (respects_prepareDocument intact).bind
  rintro ⟨made, anchor⟩ middle ⟨apart, outside⟩ intact
  apply (respects_adoptAll anchor parts.sources middle intact).bind
  intro children last _ intact
  apply Edit.Ensures.bind
  apply Edit.ensures_modify
  exact Edit.respects_pure (intact.setChildren outside) apart

theorem respects_cloneDocument {document : DocumentId} (intact : reserve.Intact grove) :
    (cloneDocument document).Respects reserve grove fun clone => ¬ reserve.documents clone := by
  rw [cloneDocument]
  apply Edit.Respects.bind_looking intact
  apply (requireDocument_ensures document).mono
  · rintro content _ ⟨rfl, found⟩
    refine ⟨rfl, ?_⟩
    apply Edit.Ensures.bind
    apply Edit.ensures_get
    apply (respects_cloneNodes intact).adapt.bind
    intro nodes middle _ intact
    apply (respects_createDocument intact).bind
    intro clone middle apart intact
    have noted : ∀ (declaration : Option NodeId) (last : Grove), reserve.Intact last →
        (do
          modify fun grove => grove.modifyDocument clone fun created =>
            { content with anchor := created.anchor, declaration := declaration }
          return clone : Edit DocumentId).Respects reserve last
            fun clone => ¬ reserve.documents clone := by
      intro declaration last intact
      apply Edit.Ensures.bind
      apply Edit.ensures_modify
      exact Edit.respects_pure (intact.modifyDocument apart) apart
    split
    · rename_i found _
      rw [map_eq_pure_bind]
      apply (respects_cloneNode intact).bind_pure.bind
      intro declaration last _ intact
      exact noted declaration last intact
    · have undeclared : (pure none : Edit (Option NodeId)).Respects reserve middle fun _ => True :=
        Edit.respects_pure intact trivial
      apply undeclared.bind
      intro declaration last _ intact
      exact noted declaration last intact
  · intro last same
    exact same

theorem respects_setRoot {document : DocumentId} {root : NodeId} (intact : reserve.Intact grove)
    (anchored : grove.Anchored) (apart : ¬ reserve.documents document) :
    (setRoot document root).Respects reserve grove fun _ => True := by
  rw [setRoot]
  apply Edit.Ensures.bind
  apply Edit.ensures_get
  apply Edit.ensures_ite
  · intro _
    apply Edit.ensures_ite
    · intro _
      exact Edit.Ensures.throw_bind intact
    · intro _
      apply respects_requireDocument intact anchored apart
      intro content outside
      apply Edit.Respects.bind_looking intact
      apply (requireRoot_ensures document).mono
      · rintro current _ rfl
        refine ⟨rfl, ?_⟩
        apply (respects_removeSibling intact (.inl outside)).bind
        intro _ middle _ intact
        rw [insertChildren_eq_insertEachAt]
        exact (respects_insertEachAt intact outside).bind_pure
      · intro last same
        exact same
  · intro _
    exact Edit.Ensures.throw_bind intact

namespace Prologue

variable {document : DocumentId} {node : NodeId}

theorem respects_requirePlaceable {next : Edit Unit} (intact : reserve.Intact grove)
    (respects : next.Respects reserve grove fun _ => True) :
    (do
      requirePlaceable node
      next).Respects reserve grove fun _ => True := by
  apply Edit.Respects.bind_looking intact
  apply (requirePlaceable_ensures node).mono
  · rintro _ _ ⟨rfl, _⟩
    exact ⟨rfl, respects⟩
  · intro last same
    exact same

theorem respects_append (intact : reserve.Intact grove) (anchored : grove.Anchored)
    (apart : ¬ reserve.documents document) :
    (append document node).Respects reserve grove fun _ => True := by
  rw [append]
  apply respects_requirePlaceable intact
  apply respects_requireDocument intact anchored apart
  intro content outside
  apply Edit.Ensures.bind
  apply Edit.ensures_get
  simp only [insertChild_eq_attach]
  exact (respects_attach intact outside).bind_pure

theorem respects_insert {index : Int} (intact : reserve.Intact grove) (anchored : grove.Anchored)
    (apart : ¬ reserve.documents document) :
    (insert document index node).Respects reserve grove fun _ => True := by
  rw [insert]
  apply respects_requirePlaceable intact
  apply respects_requireDocument intact anchored apart
  intro content outside
  apply Edit.Ensures.bind
  apply Edit.ensures_get
  apply Edit.ensures_ite
  · intro _
    exact Edit.Ensures.throw_bind intact
  · intro _
    apply Edit.ensures_ite
    · intro _
      apply (respects_adopt content.anchor (.node node) grove intact).bind
      intro _ last _ intact
      exact Edit.Ensures.throw_bind intact
    · intro _
      simp only [insertChild_eq_attach]
      exact (respects_attach intact outside).bind_pure

theorem respects_remove (intact : reserve.Intact grove) (anchored : grove.Anchored)
    (apart : ¬ reserve.documents document) :
    (remove document node).Respects reserve grove fun _ => True := by
  rw [remove]
  apply Edit.Respects.bind_looking intact
  apply (index_looks document node).mono
  · rintro _ _ rfl
    refine ⟨rfl, ?_⟩
    apply respects_requireDocument intact anchored apart
    intro content outside
    exact respects_removeSibling intact (.inl outside)
  · intro last same
    exact same

theorem respects_clear (intact : reserve.Intact grove) (anchored : grove.Anchored)
    (apart : ¬ reserve.documents document) :
    (clear document).Respects reserve grove fun _ => True := by
  rw [clear]
  apply respects_requireDocument intact anchored apart
  intro content outside
  apply Edit.Ensures.bind
  apply Edit.ensures_get
  exact respects_forM_removeSibling intact outside

end Prologue

/-! ## All operations -/

namespace Operation

/-- The node that an operation is done to. Those that it reads, or that it attaches elsewhere,
don't count. -/
def target? : Operation → Option NodeId
  | append _ parent _ | insert _ parent _ _ | deleteChild parent _ | removeChild parent _
  | removeChildAt parent _ | clearChildren parent | setTextContent parent _ => some parent
  | detach id => some id
  | createLeaf _ | createTag .. | plant _ | clone .. | createDocument _ | cloneDocument _
  | setRoot .. | appendToPrologue .. | insertIntoPrologue .. | prependToPrologue ..
  | removeFromPrologue .. | clearPrologue _ => none

/-- The document that an operation is done to. -/
def targetDocument? : Operation → Option DocumentId
  | setRoot id _ | appendToPrologue id _ | insertIntoPrologue id _ _ | prependToPrologue id _
  | removeFromPrologue id _ | clearPrologue id => some id
  | createLeaf _ | createTag .. | plant _ | clone .. | append .. | insert .. | detach _
  | deleteChild .. | removeChild .. | removeChildAt .. | clearChildren _ | setTextContent ..
  | createDocument _ | cloneDocument _ => none

/-- What is planted is writable, as what parsers make of a text is. -/
def Checks : Operation → Prop
  | plant tree => tree.isWritable = true
  | _ => True

theorem intact_apply {operation : Operation} (sound : grove.Sound) (anchored : grove.Anchored)
    (checks : operation.Checks) (apart : ∀ id ∈ operation.target?, ¬ reserve.nodes id)
    (outside : ∀ document ∈ operation.targetDocument?, ¬ reserve.documents document)
    (intact : reserve.Intact grove) : reserve.Intact (operation.apply grove) := by
  cases operation with
  | createLeaf content => exact (respects_createLeaf intact).after
  | createTag name attributes sources => exact (respects_instantiate _ grove intact).after
  | plant tree => exact (respects_plant intact checks).after
  | clone deep id => exact (respects_cloneNode intact).after
  | append cloned parent sources =>
      rw [append_eq_attachEach]
      exact (respects_attachEach intact (apart parent rfl)).after
  | insert cloned parent index sources =>
      rw [insert_eq_insertEachAt]
      exact (respects_insertEachAt intact (apart parent rfl)).after
  | detach id => exact (respects_detach intact (.inl (apart id rfl))).after
  | deleteChild parent index =>
      exact (respects_deleteChild sound intact (apart parent rfl)).after
  | removeChild parent child => exact (respects_removeChild? intact (apart parent rfl)).after
  | removeChildAt parent index => exact (respects_removeChildAt? intact (apart parent rfl)).after
  | clearChildren parent => exact (respects_clearChildren intact (apart parent rfl)).after
  | setTextContent parent content => exact (respects_setTextContent intact (apart parent rfl)).after
  | createDocument parts => exact (respects_createDocument intact).after
  | cloneDocument id => exact (respects_cloneDocument intact).after
  | setRoot id root => exact (respects_setRoot intact anchored (outside id rfl)).after
  | appendToPrologue id node =>
      exact (Prologue.respects_append intact anchored (outside id rfl)).after
  | insertIntoPrologue id index node =>
      exact (Prologue.respects_insert intact anchored (outside id rfl)).after
  | prependToPrologue id node =>
      exact (Prologue.respects_insert intact anchored (outside id rfl)).after
  | removeFromPrologue id node =>
      exact (Prologue.respects_remove intact anchored (outside id rfl)).after
  | clearPrologue id => exact (Prologue.respects_clear intact anchored (outside id rfl)).after

end Operation

/-! ## Converted element trees -/

namespace Loading

variable {namer : Namer} {options : ParserOptions}

theorem respects_convertItem {item : Item} (intact : reserve.Intact grove) :
    (convertItem namer options item).Respects reserve grove
      fun found => ∀ id ∈ found, ¬ reserve.nodes id := by
  have made : ∀ {operation : Edit NodeId},
      operation.Respects reserve grove (fun id => ¬ reserve.nodes id) →
      (some <$> operation).Respects reserve grove
        fun found => ∀ id ∈ found, ¬ reserve.nodes id := by
    intro operation respects
    rw [map_eq_pure_bind]
    apply respects.bind
    intro id middle apart intact
    apply Edit.respects_pure intact
    rintro _ ⟨⟩
    exact apart
  have removed : (pure none : Edit (Option NodeId)).Respects reserve grove
      fun found => ∀ id ∈ found, ¬ reserve.nodes id :=
    Edit.respects_pure intact fun _ impossible => by cases impossible
  cases item with
  | comment content tail =>
      rw [convertItem]
      exact Edit.ensures_ite (fun _ => removed) fun _ => made (respects_createLeaf intact)
  | instruction target content tail =>
      rw [convertItem]
      apply Edit.ensures_ite
      · intro _
        exact removed
      · intro _
        apply Edit.Ensures.bind
        refine Edit.ensures_ofExcept ?_ intact
        intro name _
        exact made (respects_createLeaf intact)
  | entity name tail =>
      rw [convertItem]
      exact made (respects_createLeaf intact)
  | element name attributes text children tail =>
      rw [convertItem]
      exact made (ensures_createLocalTag intact fun _ _ => respects_instantiate _ grove intact)

theorem respects_appendText {text : Option String} (intact : reserve.Intact grove)
    (apart : ¬ reserve.nodes id) :
    (appendText options id text).Respects reserve grove fun _ => True := by
  rw [appendText]
  split
  · exact Edit.respects_pure intact trivial
  · rw [appendChild_eq_attach]
    exact (respects_attach intact apart).bind_pure

/-- None of the tag nodes that elements became belongs to a reserve. -/
def Outside (reserve : Reserve start) (converted : List (Item × NodeId)) : Prop :=
  ∀ pair ∈ converted, ¬ reserve.nodes pair.2

theorem Outside.cons {pair : Item × NodeId} {converted : List (Item × NodeId)}
    (apart : ¬ reserve.nodes pair.2) (outside : Outside reserve converted) :
    Outside reserve (pair :: converted) :=
  List.forall_mem_cons.2 ⟨apart, outside⟩

theorem respects_appendItems {items : List Item} {converted : List (Item × NodeId)}
    (intact : reserve.Intact grove) (apart : ¬ reserve.nodes id)
    (outside : Outside reserve converted) :
    (appendItems namer options id converted items).Respects reserve grove (Outside reserve) := by
  induction items generalizing grove converted with
  | nil => exact Edit.respects_pure intact outside
  | cons item rest induction =>
      rw [appendItems]
      apply (respects_convertItem intact).bind
      intro found middle free intact
      split
      · apply (respects_appendText intact apart).bind
        intro _ last _ intact
        exact induction intact outside
      · rename_i made
        rw [appendChild_eq_attach]
        apply (respects_attach intact apart).bind
        intro _ between _ intact
        apply (respects_appendText intact apart).bind
        intro _ last _ intact
        apply Edit.ensures_ite
        · intro _
          exact induction intact (.cons (free made rfl) outside)
        · intro _
          exact induction intact outside

theorem respects_fillPending {bound : Nat} {pending : List (Item × NodeId)}
    (intact : reserve.Intact grove) (outside : Outside reserve pending) :
    (fillPending namer options bound pending).Respects reserve grove fun _ => True := by
  induction bound generalizing grove pending with
  | zero =>
      rw [fillPending]
      exact Edit.respects_pure intact trivial
  | succ bound induction =>
      cases pending with
      | nil =>
          rw [fillPending]
          · exact Edit.respects_pure intact trivial
          · intro impossible
            cases impossible
      | cons first rest =>
          rcases first with ⟨item, id⟩
          rcases List.forall_mem_cons.1 outside with ⟨apart, others⟩
          rw [fillPending]
          apply (respects_appendText intact apart).bind
          intro _ middle _ intact
          apply (respects_appendItems intact apart (by
            intro pair member
            cases member)).bind
          intro converted last more intact
          apply induction intact
          intro pair member
          rcases List.mem_append.1 member with new | old
          · exact more pair new
          · exact others pair old

theorem respects_convertElement {item : Item} (intact : reserve.Intact grove) :
    (convertElement namer options item).Respects reserve grove fun _ => True := by
  rw [convertElement]
  apply (respects_convertItem intact).bind
  intro found middle free intact
  split
  · rename_i name attributes text children tail id
    apply Edit.Respects.bind_pure
    exact respects_fillPending intact (.cons (free id rfl) (by
      intro pair member
      cases member))
  · exact Edit.respects_throw intact

theorem respects_convertItems {items : List Item} (intact : reserve.Intact grove) :
    (convertItems namer options items).Respects reserve grove fun _ => True := by
  induction items generalizing grove with
  | nil => exact Edit.respects_pure intact trivial
  | cons first rest induction =>
      rw [convertItems]
      apply (respects_convertItem intact).bind
      intro found middle _ intact
      exact (induction intact).bind_pure

theorem respects_convertTree {preceding : List Item} {item : Item}
    (intact : reserve.Intact grove) :
    (convertTree namer options preceding item).Respects reserve grove fun _ => True := by
  rw [convertTree]
  apply (respects_convertItems intact).bind
  intro before middle _ intact
  exact (respects_convertElement intact).bind_pure

/-! ## Planted documents -/

theorem respects_mapM_plant {trees : List Tree} (intact : reserve.Intact grove)
    (writable : ∀ tree ∈ trees, tree.isWritable = true) :
    (trees.mapM plant).Respects reserve grove fun _ => True := by
  induction trees generalizing grove with
  | nil => exact Edit.respects_pure intact trivial
  | cons first rest induction =>
      rw [List.forall_mem_cons] at writable
      rw [List.mapM_cons]
      apply (respects_plant intact writable.1).bind
      intro id middle _ intact
      exact (induction intact writable.2).bind_pure

theorem respects_plantDocument {document : ParsedDocument} (intact : reserve.Intact grove)
    (writable : document.IsWritable) :
    (plantDocument document).Respects reserve grove fun _ => True := by
  rw [plantDocument]
  have declares : (document.declaration.mapM fun content =>
      plant (.leaf (.instruction Name.xml content))).Respects reserve grove fun _ => True := by
    cases declared : document.declaration with
    | none => exact Edit.respects_pure intact trivial
    | some content =>
        change (some <$> plant (.leaf (.instruction Name.xml content))).Respects _ _ _
        rw [map_eq_pure_bind]
        apply Edit.Respects.bind_pure
        apply respects_plant intact
        rw [Tree.isWritable]
        exact writable.declaration content declared
  apply declares.bind
  intro declaration middle _ intact
  exact (respects_mapM_plant intact writable.nodes).bind_pure

/-! ## Loaders -/

variable {state : State}

/-- An activity leaves a reserve as it is, whether it succeeds or not. -/
def Load.Respects (activity : Load α) (reserve : Reserve start) (state : State) : Prop :=
  Activity.Ensures activity state (fun _ last => reserve.Intact last.grove)
    fun last => reserve.Intact last.grove

theorem Load.Respects.bind {first : Load α} {next : α → Load β}
    (former : first.Respects reserve state)
    (latter : ∀ value middle, reserve.Intact middle.grove → (next value).Respects reserve middle) :
    (first >>= next).Respects reserve state := by
  apply Activity.Ensures.bind
  apply Activity.Ensures.mono former
  · intro value middle intact
    exact latter value middle intact
  · intro last intact
    exact intact

theorem Load.Respects.after {activity : Load α} (respects : activity.Respects reserve state) :
    reserve.Intact (Activity.outcome activity state).2.grove := by
  rw [Respects, Activity.Ensures] at respects
  split at respects
  · rename_i outcome
    rw [outcome]
    exact respects
  · rename_i outcome
    rw [outcome]
    exact respects

theorem load_respects_pure {value : α} (intact : reserve.Intact state.grove) :
    (pure value : Load α).Respects reserve state := intact

theorem load_respects_throw {fault : Fault} (intact : reserve.Intact state.grove) :
    (throw fault : Load α).Respects reserve state := intact

theorem load_respects_ofExcept {value : Except Fault α} (intact : reserve.Intact state.grove) :
    (MonadExcept.ofExcept value : Load α).Respects reserve state :=
  Activity.ensures_ofExcept (fun _ _ => intact) intact

theorem load_respects_configure {change : Configuration → Configuration}
    (intact : reserve.Intact state.grove) : (configure change).Respects reserve state := intact

theorem load_respects_edit {operation : Edit α} {result : α → Prop}
    (respects : operation.Respects reserve state.grove result) :
    (edit operation).Respects reserve state :=
  edit_ensures (Edit.Ensures.mono respects (fun _ _ both => both.2) fun _ intact => intact)

theorem load_respects_parseInput {input : Input} (intact : reserve.Intact state.grove) :
    (parseInput options input).Respects reserve state := by
  rw [parseInput]
  split
  · exact load_respects_throw intact
  · rename_i document note parsed
    rcases Parse.exists_document_of_parse parsed with ⟨characters, read⟩
    have writable := Parse.isWritable_document read
    apply Activity.Ensures.bind
    apply Activity.ensures_modify
    apply Load.Respects.bind
    · apply load_respects_edit
      exact respects_plantDocument intact writable
    · rintro ⟨declaration, nodes⟩ middle intact
      exact (load_respects_configure intact).bind fun _ _ intact => load_respects_pure intact

theorem load_respects_parseConfigured {input : Input} (intact : reserve.Intact state.grove) :
    (parseConfigured input).Respects reserve state := by
  rw [parseConfigured]
  apply Activity.Ensures.bind
  apply Activity.ensures_get
  exact load_respects_parseInput intact

/-- A loader leaves reserves as they are. -/
def Loader.IsDiscreet (loader : Loader) : Prop :=
  ∀ ⦃start : Grove⦄ (reserve : Reserve start) (source : LoadSource) (state : State),
    reserve.Intact state.grove → (loader.load source).Respects reserve state

theorem isDiscreet_nodeLoader : nodeLoader.IsDiscreet := by
  intro start reserve source state intact
  change (loadNode source).Respects reserve state
  unfold loadNode
  split
  · rename_i id
    apply Activity.Ensures.bind
    apply Activity.ensures_get
    apply Activity.ensures_ite
    · intro _
      exact load_respects_pure intact
    · intro _
      split
      · exact load_respects_pure intact
      · apply Activity.ensures_ite
        · intro _
          apply Load.Respects.bind (load_respects_edit (respects_cloneNode intact))
          intro clone last intact
          exact load_respects_pure intact
        · intro _
          exact load_respects_pure intact
  · exact load_respects_pure intact

theorem load_respects_noteOrigin {path : String} (intact : reserve.Intact state.grove) :
    (noteOrigin path).Respects reserve state :=
  load_respects_configure intact

theorem isDiscreet_loadFile : Loader.IsDiscreet ⟨"path_loader", loadFile⟩ := by
  intro start reserve source state intact
  change (loadFile source).Respects reserve state
  unfold loadFile
  split
  · rename_i file
    apply (load_respects_noteOrigin intact).bind
    intro _ middle intact
    apply Activity.ensures_ite
    · intro _
      exact load_respects_throw intact
    · intro _
      apply Activity.ensures_ite
      · intro _
        exact load_respects_throw intact
      · intro _
        split
        · exact load_respects_throw intact
        · exact load_respects_parseConfigured intact
  · exact load_respects_pure intact

theorem isDiscreet_loadStream : Loader.IsDiscreet ⟨"buffer_loader", loadStream⟩ := by
  intro start reserve source state intact
  change (loadStream source).Respects reserve state
  unfold loadStream
  split
  · rename_i stream
    have reads : ∀ middle : State, reserve.Intact middle.grove →
        Load.Respects (do
          let data ← MonadExcept.ofExcept stream.read
          parseConfigured (.bytes data)) reserve middle := by
      intro middle intact
      apply (load_respects_ofExcept intact).bind
      intro data last intact
      exact load_respects_parseConfigured intact
    split
    · exact (load_respects_noteOrigin intact).bind fun _ middle intact => reads middle intact
    · exact reads state intact
  · exact load_respects_pure intact

theorem isDiscreet_loadUrl (services : Services) :
    Loader.IsDiscreet ⟨"web_loader", loadUrl services⟩ := by
  intro start reserve source state intact
  change (loadUrl services source).Respects reserve state
  unfold loadUrl
  split
  · rename_i address
    apply Activity.ensures_ite
    · intro _
      exact load_respects_pure intact
    · intro _
      apply (load_respects_ofExcept intact).bind
      intro fetched middle intact
      apply (load_respects_configure intact).bind
      intro _ middle intact
      apply Activity.Ensures.bind
      apply Activity.ensures_get
      apply (load_respects_ofExcept intact).bind
      intro options middle intact
      exact load_respects_parseInput intact
  · exact load_respects_pure intact

theorem isDiscreet_loadElements (services : Services) :
    Loader.IsDiscreet ⟨"lxml_loader", loadElements services⟩ := by
  intro start reserve source state intact
  change (loadElements services source).Respects reserve state
  unfold loadElements
  split
  · apply Activity.Ensures.bind
    apply Activity.ensures_get
    split
    · exact load_respects_throw intact
    · apply Activity.ensures_ite
      · intro _
        apply (load_respects_configure intact).bind
        intro _ middle intact
        apply (load_respects_edit (respects_convertTree intact)).bind
        intro nodes last intact
        exact load_respects_pure intact
      · intro _
        apply Activity.ensures_ite
        · intro _
          apply (load_respects_edit (respects_convertElement intact)).bind
          intro root last intact
          exact load_respects_pure intact
        · intro _
          exact load_respects_pure intact
  · exact load_respects_pure intact

theorem isDiscreet_loadInput : Loader.IsDiscreet ⟨"text_loader", loadInput⟩ := by
  intro start reserve source state intact
  change (loadInput source).Respects reserve state
  unfold loadInput
  split
  · exact load_respects_parseConfigured intact
  · exact load_respects_pure intact

theorem isDiscreet_of_mem_standardLoaders {services : Services} {loader : Loader}
    (member : loader ∈ standardLoaders services) : loader.IsDiscreet := by
  rw [standardLoaders] at member
  rcases List.mem_cons.1 member with rfl | member
  · exact isDiscreet_loadFile
  rcases List.mem_cons.1 member with rfl | member
  · exact isDiscreet_loadStream
  rcases List.mem_cons.1 member with rfl | member
  · exact isDiscreet_loadUrl services
  rcases List.mem_cons.1 member with rfl | member
  · exact isDiscreet_loadElements services
  rcases List.mem_cons.1 member with rfl | member
  · exact isDiscreet_loadInput
  · cases member

theorem load_respects_tryLoaders {source : LoadSource} {loaders : List Loader}
    {excuses : List (String × (String ⊕ Fault))}
    (discreet : ∀ loader ∈ loaders, loader.IsDiscreet) (intact : reserve.Intact state.grove) :
    (tryLoaders source excuses loaders).Respects reserve state := by
  induction loaders generalizing state excuses with
  | nil =>
      rw [tryLoaders]
      exact load_respects_throw intact
  | cons first rest induction =>
      have others := fun loader member => discreet loader (List.mem_cons_of_mem first member)
      rw [tryLoaders]
      apply Activity.Ensures.bind
      apply Activity.Ensures.attempt
      apply Activity.Ensures.mono (discreet first List.mem_cons_self reserve source state intact)
      · intro outcome middle intact
        cases outcome with
        | nodes sources => exact load_respects_pure intact
        | excuse text => exact induction others intact
      · intro middle intact fault
        exact induction others intact

theorem load_respects_loadDocument {loaders : List Loader} {sourceUrl : Option Value}
    {source : LoadSource} (discreet : ∀ loader ∈ loaders, loader.IsDiscreet)
    (intact : reserve.Intact state.grove) :
    (loadDocument loaders options sourceUrl source).Respects reserve state := by
  have all : ∀ loader ∈ nodeLoader :: loaders, loader.IsDiscreet :=
    List.forall_mem_cons.2 ⟨isDiscreet_nodeLoader, discreet⟩
  rw [loadDocument]
  apply (load_respects_configure intact).bind
  intro _ middle intact
  apply (load_respects_tryLoaders all intact).bind
  intro sources middle intact
  apply Activity.Ensures.bind
  apply Activity.ensures_get
  exact load_respects_edit (respects_createDocument intact)

end Loading

/-! ## Acts -/

theorem respects_setDeclaration {document : DocumentId} {declaration : Option NodeId}
    (intact : reserve.Intact grove) (apart : ¬ reserve.documents document) :
    (setDeclaration document declaration).Respects reserve grove fun _ => True := by
  rw [setDeclaration]
  apply Edit.Ensures.bind
  apply Edit.ensures_get
  apply Edit.ensures_ite
  · intro _
    exact ⟨trivial, intact.modifyDocument apart⟩
  · intro _
    exact Edit.Ensures.throw_bind intact

theorem respects_declareAnew {document : DocumentId} {version encoding : String}
    (intact : reserve.Intact grove) (apart : ¬ reserve.documents document) :
    (declareAnew document version encoding).Respects reserve grove fun _ => True := by
  rw [declareAnew]
  apply Edit.Respects.bind_looking intact
  apply (requireDocument_ensures document).mono
  · rintro content _ ⟨rfl, _⟩
    refine ⟨rfl, ?_⟩
    apply Edit.ensures_ite
    · intro _
      apply Edit.Respects.bind (respects_createLeaf intact)
      intro declaration middle _ intact
      exact ⟨trivial, intact.modifyDocument apart⟩
    · intro _
      exact Edit.respects_pure intact trivial
  · intro last same
    exact same

namespace Act

/-- The node that an act is done to. -/
def target? : Act → Option NodeId
  | operate operation => operation.target?
  | rename id _ | setAttributes id _ | setLeaf id _ => some id
  | load .. | setDeclaration .. | declareAnew .. | revise .. => none

/-- The document that an act is done to. -/
def targetDocument? : Act → Option DocumentId
  | operate operation => operation.targetDocument?
  | setDeclaration id _ | declareAnew id _ _ | revise id _ _ _ => some id
  | load .. | rename .. | setAttributes .. | setLeaf .. => none

/-- What is planted or set as a content is writable, as it is checked before. -/
def Checks : Act → Prop
  | operate operation => operation.Checks
  | setLeaf _ content => content.isWritable = true
  | _ => True

/-- An act is done to none of these nodes and documents. -/
structure Avoids (act : Act) (nodes : NodeId → Prop) (documents : DocumentId → Prop) : Prop where
  nodes : ∀ id ∈ act.target?, ¬ nodes id
  documents : ∀ document ∈ act.targetDocument?, ¬ documents document

theorem intact_apply {act : Act} (sound : grove.Sound) (anchored : grove.Anchored)
    (available : act.Available grove) (checks : act.Checks)
    (avoids : act.Avoids reserve.nodes reserve.documents) (intact : reserve.Intact grove) :
    reserve.Intact (act.apply grove) := by
  cases act with
  | operate operation =>
      exact Operation.intact_apply sound anchored checks avoids.nodes avoids.documents intact
  | load services loaders options sourceUrl source notes =>
      have discreet : ∀ loader ∈ loaders, loader.IsDiscreet := fun loader member =>
        Loading.isDiscreet_of_mem_standardLoaders (available loader member)
      have respects : (Loading.loadDocument loaders options sourceUrl source).Respects reserve
          { grove := grove, notes := notes } := Loading.load_respects_loadDocument discreet intact
      exact respects.after
  | rename id name => exact intact.setName (avoids.nodes id rfl)
  | setAttributes id attributes => exact intact.setAttributes (avoids.nodes id rfl)
  | setLeaf id content =>
      apply intact.setNode (avoids.nodes id rfl)
      intro other equal
      cases equal
      exact checks
  | setDeclaration id declaration =>
      exact (respects_setDeclaration intact (avoids.documents id rfl)).after
  | declareAnew id version encoding =>
      exact (respects_declareAnew intact (avoids.documents id rfl)).after
  | revise id version encoding sourceUrl => exact intact.modifyDocument (avoids.documents id rfl)

end Act

/-! ## Histories -/

/-- The groves that histories lead to from a grove on. -/
inductive Continued (allowed : Act → Grove → Prop) (start : Grove) : Grove → Prop
  | start : Continued allowed start start
  | step {grove : Grove} {act : Act} (continued : Continued allowed start grove)
      (available : act.Available grove) (admitted : allowed act grove) :
      Continued allowed start (act.apply grove)

theorem Reached.continued {allowed stricter : Act → Grove → Prop} (reached : Reached allowed start)
    (continued : Continued stricter start grove)
    (implies : ∀ act grove, stricter act grove → allowed act grove) : Reached allowed grove := by
  induction continued with
  | start => exact reached
  | step continued available admitted induction =>
      exact induction.step available (implies _ _ admitted)

/-- All leaves are writable all the time. -/
theorem Reached.writable (reached : Reached (fun act _ => act.Checks) grove) :
    grove.Writable := by
  have intact : (Reserve.nothing {}).Intact grove := by
    induction reached with
    | start =>
        apply Reserve.intact_start
        intro id content present
        cases present
    | step reached available checks induction =>
        rcases reached.sound_and_anchored with ⟨sound, anchored⟩
        exact Act.intact_apply sound anchored available checks
          ⟨fun _ _ => id, fun _ _ => id⟩ induction
  exact intact.writable

/-- A reserve stays as it is as long as nothing is done to it. -/
theorem Continued.intact (reached : Reached (fun act _ => act.Checks) start)
    (continued : Continued
      (fun act _ => act.Checks ∧ act.Avoids reserve.nodes reserve.documents) start grove) :
    reserve.Intact grove := by
  induction continued with
  | start => exact reserve.intact_start reached.writable
  | step continued available admitted induction =>
      have before := reached.continued continued fun _ _ both => both.1
      rcases before.sound_and_anchored with ⟨sound, anchored⟩
      exact Act.intact_apply sound anchored available admitted.1 admitted.2 induction

end XmlGrove
