import XmlGrove.Proofs.Document.Activity
import XmlGrove.Proofs.Document.Conversion
import XmlGrove.Proofs.Document.Reading

/-!
# Loaded documents

What loaders make of a source are nodes without parents. They are comments and processing
instructions that precede a tag node, unless an element tree is converted whose root follows
something else. The document that is created of them notes what its declaration does.
-/

namespace XmlGrove

open Grove

namespace Loading

variable {source : LoadSource} {state middle last : State}

/-! ## Sources -/

/-- Tell whether a node of an element tree becomes one that can't precede a root. -/
def Item.isStray : Item → Bool
  | .element .. | .entity .. => true
  | .comment .. | .instruction .. => false

namespace LoadSource

def isElements : LoadSource → Bool
  | .elements _ => true
  | _ => false

/-- Tell whether a tree is meant whose root follows an element or a reference to an entity. -/
def isCrowded : LoadSource → Bool
  | .elements source =>
    source.isTree &&
      match locate? source.root source.before source.way with
      | some (_, preceding) => preceding.any Item.isStray
      | none => false
  | _ => false

theorem isCrowded_of_isElements (other : source.isElements = false) :
    source.isCrowded = false := by
  cases source with
  | elements _ => cases other
  | _ => rfl

end LoadSource

theorem ordered_keptKinds_iff {options : ParserOptions} {preceding : List Item} :
    NodeKind.Ordered (keptKinds options preceding ++ [.tag]) ↔
      preceding.any Item.isStray = false := by
  rw [NodeKind.ordered_append_tag_iff, List.any_eq_false]
  constructor
  · intro precedes item member stray
    -- What can't precede a root is kept whatever the options are.
    have kept : item.kind ∈ keptKinds options preceding := by
      apply List.mem_map_of_mem
      rw [List.mem_filter]
      cases item with
      | element => exact ⟨member, rfl⟩
      | entity => exact ⟨member, rfl⟩
      | comment => cases stray
      | instruction => cases stray
    cases item with
    | element => rcases precedes _ kept with impossible | impossible <;> cases impossible
    | entity => rcases precedes _ kept with impossible | impossible <;> cases impossible
    | comment => cases stray
    | instruction => cases stray
  · intro plain kind member
    rcases List.mem_map.1 member with ⟨item, kept, rfl⟩
    have fit := plain item (List.mem_of_mem_filter kept)
    cases item with
    | element => exact absurd rfl fit
    | entity => exact absurd rfl fit
    | comment => exact .inl rfl
    | instruction => exact .inr rfl

/-! ## Attempts -/

/-- What is noted about a document agrees with the declaration that was found. -/
def Configuration.Agrees (configuration : Configuration) (grove : Grove) : Prop :=
  ∃ content, grove.Declared content configuration.declaration ∧
    Declaration.Notes content configuration.version configuration.encoding

/-- A declaration that was found is a processing instruction. -/
def Configuration.Instructs (configuration : Configuration) (grove : Grove) : Prop :=
  ∀ found, configuration.declaration = some found → grove.kind? found = some .instruction

theorem Configuration.Instructs.enlarge {configuration : Configuration} {before after : Grove}
    (instructs : configuration.Instructs before) (enlarged : Enlarged before after) :
    configuration.Instructs after := by
  intro found declared
  have instruction := instructs found declared
  rw [enlarged.kind? (has_of_kind? instruction), instruction]

/-- All that happens to the grove while loaders are tried is that it gets further nodes. Only the
header of an element tree is noted without its declaration. -/
structure Followed (source : LoadSource) (before after : State) : Prop where
  enlarged : Enlarged before.grove after.grove
  instructs : before.configuration.Instructs before.grove →
    after.configuration.Instructs after.grove
  agrees : source.isElements = false → before.configuration.Agrees before.grove →
    after.configuration.Agrees after.grove

namespace Followed

theorem refl (state : State) : Followed source state state where
  enlarged := .refl _
  instructs instructs := instructs
  agrees _ agrees := agrees

theorem trans (former : Followed source state middle) (latter : Followed source middle last) :
    Followed source state last where
  enlarged := former.enlarged.trans latter.enlarged
  instructs instructs := latter.instructs (former.instructs instructs)
  agrees other agrees := latter.agrees other (former.agrees other agrees)

/-- Further nodes, and nothing that concerns the declaration. -/
theorem of_enlarged (enlarged : Enlarged state.grove last.grove)
    (declaration : last.configuration.declaration = state.configuration.declaration)
    (version : last.configuration.version = state.configuration.version)
    (encoding : last.configuration.encoding = state.configuration.encoding) :
    Followed source state last where
  enlarged := enlarged
  instructs instructs := by
    rw [Configuration.Instructs, declaration]
    exact instructs.enlarge enlarged
  agrees := by
    rintro _ ⟨content, declared, notes⟩
    rw [Configuration.Agrees, declaration, version, encoding]
    exact ⟨content, declared.keep enlarged.shape, notes⟩

end Followed

/-- What a loader may make of a source. -/
def Yields (source : LoadSource) (outcome : Outcome) (grove : Grove) : Prop :=
  match outcome with
  | .excuse _ => True
  | .nodes sources => ∃ ids : List NodeId, sources = ids.map .node ∧ ids.Nodup ∧
      (∀ id ∈ ids, Usable grove id) ∧ (grove.Ordered ids ↔ source.isCrowded = false)

theorem yields_of_allFresh {start grove : Grove} {kinds : List NodeKind} {ids : List NodeId}
    (fresh : AllFresh start kinds ids grove)
    (ordered : NodeKind.Ordered kinds ↔ source.isCrowded = false) :
    Yields source (.nodes (ids.map .node)) grove :=
  ⟨ids, rfl, fresh.distinct, fresh.usable, (ordered_iff_kinds fresh.kinds).trans ordered⟩

theorem yields_of_root {grove : Grove} {root : NodeId} (tag : grove.kind? root = some .tag)
    (free : grove.parentLink? root = none) (plain : source.isCrowded = false) :
    Yields source (.nodes [.node root]) grove := by
  refine ⟨[root], rfl, List.nodup_singleton root, ?_, ?_⟩
  · intro id member
    rw [List.mem_singleton] at member
    rw [member]
    exact ⟨⟨.tag, tag⟩, free⟩
  · refine ⟨fun _ => plain, fun _ => ⟨[], root, rfl, ?_, tag⟩⟩
    intro node member
    cases member

/-- An activity tries to load a source. -/
def Tries (source : LoadSource) (state : State) (activity : Load Outcome) : Prop :=
  Activity.Ensures activity state
    (fun outcome last => Followed source state last ∧ Yields source outcome last.grove)
    (Followed source state)

theorem Tries.after {activity : Load Outcome} (followed : Followed source state middle)
    (tries : Tries source middle activity) :
    Activity.Ensures activity middle
      (fun outcome last => Followed source state last ∧ Yields source outcome last.grove)
      (Followed source state) := by
  apply Activity.Ensures.mono tries
  · rintro outcome last ⟨further, yields⟩
    exact ⟨followed.trans further, yields⟩
  · intro last further
    exact followed.trans further

theorem tries_excuse (text : String) : Tries source state (return .excuse text) :=
  ⟨.refl state, trivial⟩

theorem tries_throw (fault : Fault) : Tries source state (throw fault) := Followed.refl state

theorem tries_parseInput (options : ParserOptions) (input : Input) (sound : state.grove.Sound)
    (other : source.isElements = false) : Tries source state (parseInput options input) := by
  rw [parseInput]
  split
  · exact tries_throw _
  · rename_i document note parsed
    have shaped := Input.isShaped_parse parsed
    apply Activity.Ensures.bind
    apply Activity.ensures_modify
    apply Activity.Ensures.bind
    apply edit_ensures
    apply (plantDocument_grows document sound _).mono
    · rintro ⟨declaration, nodes⟩ last ⟨enlarged, declared, fresh⟩
      apply Activity.Ensures.bind
      rw [configure]
      apply Activity.ensures_modify
      apply Activity.ensures_pure
      refine ⟨⟨enlarged, fun _ found known => Grove.Declared.kind? declared known,
        fun _ _ => ⟨_, declared, shaped.notes⟩⟩, yields_of_allFresh fresh ?_⟩
      rw [iff_true_left shaped.ordered]
      exact LoadSource.isCrowded_of_isElements other
    · intro last failed
      exact failed

theorem tries_parseConfigured (input : Input) (sound : state.grove.Sound)
    (other : source.isElements = false) : Tries source state (parseConfigured input) := by
  rw [parseConfigured]
  apply Activity.Ensures.bind
  apply Activity.ensures_get
  exact tries_parseInput _ input sound other

/-! ## The loaders -/

/-- A loader follows a source: it adds nodes at most, and what it makes is as it should be. -/
def Loader.IsFair (loader : Loader) : Prop :=
  ∀ source state, state.grove.Sound → Tries source state (loader.load source)

theorem isFair_nodeLoader : nodeLoader.IsFair := by
  intro source state sound
  change Tries source state (loadNode source)
  unfold loadNode
  split
  · rename_i id
    apply Activity.Ensures.bind
    apply Activity.ensures_get
    apply Activity.ensures_ite
    · intro _
      exact tries_excuse _
    · intro tag
      rw [Bool.not_eq_true, Bool.not_eq_false_eq_eq_true] at tag
      have kind := isTag_iff_kind?.1 tag
      split
      · rename_i free
        exact ⟨.refl state, yields_of_root kind free rfl⟩
      · apply Activity.ensures_ite
        · intro _
          apply Activity.Ensures.bind
          apply edit_ensures
          apply (cloneNode_grows sound).mono
          · rintro clone last ⟨enlarged, known, shown, fresh⟩
            apply Activity.ensures_pure
            rw [kind] at shown
            cases shown
            exact ⟨.of_enlarged enlarged rfl rfl rfl, yields_of_root fresh.kind fresh.free rfl⟩
          · rintro _ rfl
            exact .refl state
        · intro _
          exact tries_excuse _
  · exact tries_excuse _

theorem tries_noteOrigin (path : String) {next : PUnit → Load Outcome}
    (tries : ∀ middle, middle.grove = state.grove → Tries source middle (next ⟨⟩)) :
    Tries source state (noteOrigin path >>= next) := by
  apply Activity.Ensures.bind
  rw [noteOrigin, configure]
  apply Activity.ensures_modify
  refine Tries.after ?_ (tries _ rfl)
  split
  · exact .refl state
  · exact .of_enlarged (.refl _) rfl rfl rfl

theorem isFair_loadFile : Loader.IsFair ⟨"path_loader", loadFile⟩ := by
  intro source state sound
  change Tries source state (loadFile source)
  unfold loadFile
  split
  · rename_i file
    apply tries_noteOrigin
    intro middle same
    apply Activity.ensures_ite
    · intro _
      exact tries_throw _
    · intro _
      apply Activity.ensures_ite
      · intro _
        exact tries_throw _
      · intro _
        split
        · exact tries_throw _
        · exact tries_parseConfigured _ (same ▸ sound) rfl
  · exact tries_excuse _

theorem tries_read (stream : Stream) (sound : state.grove.Sound) :
    Tries (.stream stream) state (do
      let data ← MonadExcept.ofExcept stream.read
      parseConfigured (.bytes data)) := by
  apply Activity.Ensures.bind
  refine Activity.ensures_ofExcept ?_ (.refl state)
  intro data _
  exact tries_parseConfigured _ sound rfl

theorem isFair_loadStream : Loader.IsFair ⟨"buffer_loader", loadStream⟩ := by
  intro source state sound
  change Tries source state (loadStream source)
  unfold loadStream
  split
  · rename_i stream
    split
    · apply tries_noteOrigin
      intro middle same
      exact tries_read stream (same ▸ sound)
    · exact tries_read stream sound
  · exact tries_excuse _

theorem isFair_loadUrl (services : Services) :
    Loader.IsFair ⟨"web_loader", loadUrl services⟩ := by
  intro source state sound
  change Tries source state (loadUrl services source)
  unfold loadUrl
  split
  · rename_i address
    apply Activity.ensures_ite
    · intro _
      exact tries_excuse _
    · intro _
      apply Activity.Ensures.bind
      refine Activity.ensures_ofExcept ?_ (.refl state)
      intro fetched _
      apply Activity.Ensures.bind
      rw [configure]
      apply Activity.ensures_modify
      refine Tries.after (.of_enlarged (.refl _) rfl rfl rfl) ?_
      apply Activity.Ensures.bind
      apply Activity.ensures_get
      apply Activity.Ensures.bind
      refine Activity.ensures_ofExcept ?_ (.refl _)
      intro options _
      exact tries_parseInput options _ sound rfl
  · exact tries_excuse _

theorem isFair_loadElements (services : Services) :
    Loader.IsFair ⟨"lxml_loader", loadElements services⟩ := by
  intro source state sound
  change Tries source state (loadElements services source)
  unfold loadElements
  split
  · rename_i content
    apply Activity.Ensures.bind
    apply Activity.ensures_get
    split
    · exact tries_throw _
    · rename_i item preceding located
      apply Activity.ensures_ite
      · intro isTree
        apply Activity.Ensures.bind
        rw [configure]
        apply Activity.ensures_modify
        apply Activity.Ensures.bind
        apply edit_ensures
        apply (convertTree_ensures _ preceding item sound).mono
        · rintro nodes last ⟨enlarged, fresh⟩
          apply Activity.ensures_pure
          refine ⟨⟨enlarged, fun _ found declared => (by cases declared),
            fun impossible => (by cases impossible)⟩, yields_of_allFresh fresh ?_⟩
          rw [ordered_keptKinds_iff, LoadSource.isCrowded, isTree, located, Bool.true_and]
        · intro last enlarged
          exact ⟨enlarged, fun _ found declared => (by cases declared),
            fun impossible => (by cases impossible)⟩
      · intro single
        rw [Bool.not_eq_true] at single
        apply Activity.ensures_ite
        · intro _
          apply Activity.Ensures.bind
          apply edit_ensures
          apply (convertElement_ensures _ item sound).mono
          · rintro root last ⟨enlarged, fresh⟩
            apply Activity.ensures_pure
            refine ⟨.of_enlarged enlarged rfl rfl rfl, yields_of_root fresh.kind fresh.free ?_⟩
            rw [LoadSource.isCrowded, single, Bool.false_and]
          · intro last enlarged
            exact .of_enlarged enlarged rfl rfl rfl
        · intro _
          exact tries_excuse _
  · exact tries_excuse _

theorem isFair_loadInput : Loader.IsFair ⟨"text_loader", loadInput⟩ := by
  intro source state sound
  change Tries source state (loadInput source)
  unfold loadInput
  split
  · exact tries_parseConfigured _ sound rfl
  · exact tries_excuse _

theorem isFair_of_mem_standardLoaders {services : Services} {loader : Loader}
    (member : loader ∈ standardLoaders services) : loader.IsFair := by
  rw [standardLoaders] at member
  rcases List.mem_cons.1 member with rfl | member
  · exact isFair_loadFile
  rcases List.mem_cons.1 member with rfl | member
  · exact isFair_loadStream
  rcases List.mem_cons.1 member with rfl | member
  · exact isFair_loadUrl services
  rcases List.mem_cons.1 member with rfl | member
  · exact isFair_loadElements services
  rcases List.mem_cons.1 member with rfl | member
  · exact isFair_loadInput
  · cases member

/-! ## Trying loaders -/

theorem tryLoaders_ensures (source : LoadSource) (loaders : List Loader)
    (fair : ∀ loader ∈ loaders, loader.IsFair)
    (excuses : List (String × (String ⊕ Fault))) (sound : state.grove.Sound) :
    Activity.Ensures (tryLoaders source excuses loaders) state
      (fun sources last => Followed source state last ∧ Yields source (.nodes sources) last.grove)
      (Followed source state) := by
  induction loaders generalizing state excuses with
  | nil =>
      rw [tryLoaders]
      exact Activity.ensures_throw (.refl state)
  | cons first rest induction =>
      have others := fun loader member => fair loader (List.mem_cons_of_mem first member)
      -- What was tried before is kept, whether it was excused or failed.
      have further : ∀ {middle}, Followed source state middle → ∀ excuses,
          Activity.Ensures (tryLoaders source excuses rest) middle
            (fun sources last =>
              Followed source state last ∧ Yields source (.nodes sources) last.grove)
            (Followed source state) := by
        intro middle followed excuses
        apply (induction others excuses (followed.enlarged.sound sound)).mono
        · rintro sources last ⟨latter, yields⟩
          exact ⟨followed.trans latter, yields⟩
        · intro last latter
          exact followed.trans latter
      rw [tryLoaders]
      apply Activity.Ensures.bind
      apply Activity.Ensures.attempt
      apply Activity.Ensures.mono (fair first List.mem_cons_self source state sound)
      · rintro outcome middle ⟨followed, yields⟩
        cases outcome with
        | nodes sources => exact Activity.ensures_pure ⟨followed, yields⟩
        | excuse text => exact further followed _
      · intro middle followed fault
        exact further followed _

/-! ## Loaded documents -/

end Loading

/-- A document's version and encoding are what its declaration notes, if it has one. -/
def Document.IsNoted (document : Document) (grove : Grove) : Prop :=
  ∀ declaration, document.declaration = some declaration →
    ∃ content, grove.leaf? declaration = some (.instruction Name.xml content) ∧
      document.version = .text (Declaration.version content) ∧
        document.encoding = .text (Declaration.encoding content)

namespace Loading

variable {source : LoadSource} {state : State}

/-- What a document that was created of what loaders found notes. -/
theorem isNoted_of_created {grove last : Grove} {configuration : Configuration}
    {parts : DocumentParts} {nodes : List NodeId} {id : DocumentId} {document : Document}
    {declaration : NodeId} (agrees : configuration.Agrees grove)
    (found : parts.declaration = configuration.declaration)
    (sameVersion : parts.version = configuration.version)
    (sameEncoding : parts.encoding = configuration.encoding)
    (created : Created grove parts nodes id last)
    (noted : document.declaration = some declaration) (declares : parts.Declares declaration last)
    (version : document.version = .text parts.version)
    (encoding : document.encoding = .text parts.encoding) : document.IsNoted last := by
  intro node equal
  rw [noted] at equal
  cases equal
  rcases agrees with ⟨content, declared, notes⟩
  rw [version, encoding, sameVersion, sameEncoding]
  unfold DocumentParts.Declares at declares
  rw [found, sameVersion, sameEncoding] at declares
  cases known : configuration.declaration with
  | none =>
      rw [known] at declared declares
      cases declared
      rcases notes with ⟨usualVersion, usualEncoding⟩
      rw [usualVersion, usualEncoding] at declares ⊢
      refine ⟨_, declares, ?_, ?_⟩
      · rw [Declaration.version_content _ Declaration.isValue_default.1]
      · rw [Declaration.encoding_content Declaration.isValue_default.1
          Declaration.isValue_default.2]
        rfl
  | some former =>
      rw [known] at declared declares
      cases declares
      rcases declared with ⟨content, rfl, leaf⟩
      rcases notes with ⟨notedVersion, notedEncoding⟩
      rw [notedVersion, notedEncoding]
      refine ⟨content, ?_, rfl, rfl⟩
      rw [leaf?_of_shape? (created.shape (has_of_leaf? leaf)), leaf]

/-- A document was loaded. It notes what its declaration does, and it has its shape unless
something else precedes the root of an element tree. -/
structure Loaded (source : LoadSource) (before : Grove) (id : DocumentId) (last : Grove) :
    Prop where
  document : ∃ document, last.document? id = some document ∧
    document.declaration.isSome = true ∧ (source.isElements = false → document.IsNoted last)
  ordered : last.Ordered (last.anchoredNodes id) ↔ source.isCrowded = false
  sound : last.Sound
  anchored : before.Anchored → last.Anchored
  regular : before.Regular [] → source.isCrowded = false → last.Regular []

theorem loadDocument_ensures (loaders : List Loader) (options : ParserOptions)
    (sourceUrl : Option Value) (source : LoadSource)
    (fair : ∀ loader ∈ loaders, loader.IsFair) (sound : state.grove.Sound) :
    Activity.Ensures (loadDocument loaders options sourceUrl source) state
      (fun id last => Loaded source state.grove id last.grove)
      (fun last => Enlarged state.grove last.grove) := by
  rw [loadDocument]
  apply Activity.Ensures.bind
  rw [configure]
  apply Activity.ensures_modify
  apply Activity.Ensures.bind
  have all : ∀ loader ∈ nodeLoader :: loaders, loader.IsFair := by
    intro loader member
    rcases List.mem_cons.1 member with rfl | other
    · exact isFair_nodeLoader
    · exact fair loader other
  refine Activity.Ensures.mono (tryLoaders_ensures source _ all [] ?_) ?_ ?_
  · exact sound
  · rintro sources middle ⟨followed, ids, rfl, distinct, usable, ordered⟩
    apply Activity.Ensures.bind
    apply Activity.ensures_get
    apply edit_ensures
    apply (createDocument_creates (followed.enlarged.sound sound) rfl distinct usable).mono
    · intro id last created
      rcases created.document with
        ⟨document, declaration, present, own, noted, declares, version, encoding⟩
      refine ⟨⟨document, present, ?_, ?_⟩, ?_, created.sound, ?_, ?_⟩
      · rw [noted]
        rfl
      · intro other
        apply isNoted_of_created _ rfl rfl rfl created noted declares version encoding
        exact followed.agrees other ⟨none, rfl, rfl, rfl⟩
      · rw [← ordered, anchoredNodes_eq present, own]
        have kinds : ids.map last.kind? = ids.map middle.grove.kind? := List.map_congr_left
          fun node member => kind?_of_shape? (created.shape (usable node member).has)
        exact ⟨fun after => ordered_of_map_kind? after kinds.symm,
          fun before => ordered_of_map_kind? before kinds⟩
      · intro anchored
        exact created.anchored (followed.enlarged.keeps_anchored anchored)
      · intro regular plain
        have between : middle.grove.Regular [] := regular.spare_all followed.enlarged.spared
        have instructs := followed.instructs fun found declared => (by cases declared)
        exact created.regular between instructs (ordered.2 plain)
    · rintro _ rfl
      exact followed.enlarged
  · intro last followed
    exact followed.enlarged

end Loading

end XmlGrove
