import XmlGrove.Proofs.Document.History
import XmlGrove.Script.DocumentCommand

/-!
# What documents declare

A document's version and encoding are what its declaration notes when it is loaded. Assignments
to them derive another declaration, and another declaration can be assigned. What the document
notes and what its declaration does part in three cases: another declaration is assigned that
notes something else, a value is refused that was stored already, and a version feigns an
encoding.
-/

namespace XmlGrove

open Grove Script

variable {grove : Grove} {id : DocumentId} {document : Document} {version encoding : String}

/-! ## Noted documents -/

/-- A document notes what its declaration does. -/
def Grove.Noted (grove : Grove) (id : DocumentId) : Prop :=
  ∃ document, grove.document? id = some document ∧ document.IsNoted grove

/-- A document states a version and an encoding, which a declaration could note. -/
structure Document.States (document : Document) (version encoding : String) : Prop where
  version_eq : document.version = .text version
  encoding_eq : document.encoding = .text encoding
  version_value : Declaration.IsValue version
  encoding_value : Declaration.IsValue encoding

theorem Document.IsNoted.states {declaration : NodeId} (noted : document.IsNoted grove)
    (declared : document.declaration = some declaration) :
    ∃ version encoding, document.States version encoding := by
  rcases noted declaration declared with ⟨content, _, version, encoding⟩
  exact ⟨_, _, version, encoding, Declaration.isValue_version _, Declaration.isValue_encoding _⟩

theorem Document.isNoted_of_undeclared (undeclared : document.declaration = none) :
    document.IsNoted grove := by
  intro declaration declared
  rw [undeclared] at declared
  cases declared

theorem Document.isNoted_iff {declaration : NodeId} {content : String}
    (states : document.States version encoding)
    (declared : document.declaration = some declaration)
    (leaf : grove.leaf? declaration = some (.instruction Name.xml content)) :
    document.IsNoted grove ↔
      Declaration.version content = version ∧ Declaration.encoding content = encoding := by
  constructor
  · intro noted
    rcases noted declaration declared with ⟨other, present, sameVersion, sameEncoding⟩
    rw [leaf] at present
    cases present
    rw [states.version_eq] at sameVersion
    rw [states.encoding_eq] at sameEncoding
    cases sameVersion
    cases sameEncoding
    exact ⟨rfl, rfl⟩
  · rintro ⟨rfl, rfl⟩ other present
    rw [declared] at present
    cases present
    exact ⟨content, leaf, states.version_eq, states.encoding_eq⟩

/-! ## Derived declarations -/

/-- A declaration that notes a version and an encoding can be written. -/
def Declaration.isWritable (version encoding : String) : Bool :=
  (Leaf.instruction Name.xml (content version encoding)).isWritable

/-- The grove with another declaration of a document, which notes a version and an encoding. -/
def Grove.redeclared (grove : Grove) (id : DocumentId) (version encoding : String) : Grove :=
  (grove.add ⟨.leaf (.instruction Name.xml (Declaration.content version encoding)), none⟩)
    |>.modifyDocument id fun document => { document with declaration := some grove.nextId }

theorem declareAnew_ensures (present : grove.document? id = some document)
    (declared : document.declaration.isSome = true) :
    Edit.Ensures (declareAnew id version encoding) grove
      (fun _ last => Declaration.isWritable version encoding = true ∧
        last = grove.redeclared id version encoding)
      (fun last => Declaration.isWritable version encoding = false ∧ last = grove) := by
  rw [declareAnew, createDeclaration, createLeaf, requireDocument]
  apply Edit.Ensures.bind
  apply Edit.Ensures.bind
  apply Edit.ensures_get
  rw [present]
  apply Edit.ensures_pure
  rw [if_pos declared]
  apply Edit.Ensures.bind
  apply Edit.Ensures.bind
  cases writable : Declaration.isWritable version encoding with
  | false =>
      refine Edit.ensures_ofExcept ?_ ⟨rfl, rfl⟩
      intro checked accepted
      rw [Declaration.isWritable, (Leaf.checked_eq_ok_iff.1 accepted).2] at writable
      cases writable
  | true =>
      have accepted := Leaf.checked_eq_ok_iff.2 ⟨rfl, writable⟩
      rw [accepted]
      apply Edit.ensures_pure
      apply Edit.ensures_create
      apply Edit.ensures_modify
      exact ⟨rfl, rfl⟩

theorem displayed_text_ensures {content : String} {workspace : Workspace}
    {success : String → Workspace → Prop} {failure : Workspace → Prop}
    (holds : success content workspace) :
    Activity.Ensures (displayed (.text content)) workspace success failure := by
  rw [displayed]
  apply Activity.Ensures.bind
  apply Activity.ensures_get
  have shown : workspace.display (.text content) = .ok content := by
    simp [Workspace.display, Workspace.settled, Value.settle, outer]
  rw [shown]
  apply Activity.ensures_pure
  exact holds

theorem requireDocument_yields (present : grove.document? id = some document) :
    Edit.Yields (requireDocument id) grove (fun found last => last = grove ∧ found = document) := by
  rw [Edit.Yields, Edit.Ensures, outcome_requireDocument present]
  exact ⟨rfl, rfl⟩

/-- A document without a declaration gets none. -/
theorem redeclare_undeclared {workspace : Workspace}
    (present : workspace.grove.document? id = some document)
    (undeclared : document.declaration = none) (failure : Workspace → Prop) :
    Activity.Ensures (redeclare id) workspace (fun _ last => last = workspace) failure := by
  rw [redeclare]
  apply Activity.Ensures.bind
  apply edit_ensures
  apply (requireDocument_yields present).ensures
  rintro _ _ ⟨rfl, rfl⟩
  rw [undeclared]
  exact Activity.ensures_pure rfl

/-- A document that has a declaration gets another one, unless that can't be written. -/
theorem redeclare_declared {workspace : Workspace}
    (present : workspace.grove.document? id = some document)
    (states : document.States version encoding) (declared : document.declaration.isSome = true) :
    Activity.Ensures (redeclare id) workspace
      (fun _ last => Declaration.isWritable version encoding = true ∧
        last.grove = workspace.grove.redeclared id version encoding)
      (fun last => Declaration.isWritable version encoding = false ∧
        last.grove = workspace.grove) := by
  rw [redeclare]
  apply Activity.Ensures.bind
  apply edit_ensures
  apply (requireDocument_yields present).ensures
  rintro _ _ ⟨rfl, rfl⟩
  rw [if_pos declared, states.version_eq, states.encoding_eq]
  apply Activity.Ensures.bind
  apply displayed_text_ensures
  apply Activity.Ensures.bind
  apply displayed_text_ensures
  apply edit_ensures
  apply (declareAnew_ensures present declared).mono
  · intro _ last same
    exact same
  · intro last same
    exact same

/-! ## Revisions -/

/-- Something that is done about what a document declares. -/
inductive Revision where
  | version (value : String)
  | encoding (value : String)
  | declaration (node : Option NodeId)
  /-- A processing instruction is made that can become a declaration. -/
  | instruction (content : String)

namespace Revision

def perform (id : DocumentId) : Revision → Action Unit
  | .version value => setDocumentProperty id "version" (.text value)
  | .encoding value => setDocumentProperty id "encoding" (.text value)
  | .declaration none => setDocumentProperty id "declaration" .null
  | .declaration (some node) => setDocumentProperty id "declaration" (.node node)
  | .instruction content => do let _ ← edit (createLeaf (.instruction Name.xml content))

/-- What is assigned to a version or an encoding is not empty, and there are no quotes in it. -/
def IsAdmissible : Revision → Prop
  | .version value | .encoding value => Declaration.IsValue value
  | .declaration _ | .instruction _ => True

/-- The workspace after a revision, whether that succeeded or raised a fault. -/
def after (revision : Revision) (id : DocumentId) (workspace : Workspace) : Workspace :=
  (Activity.outcome (revision.perform id) workspace).2

/-- A declaration that is derived from a version and an encoding does not note them: it can't be
written, although something else was to be noted, or the version feigns another encoding. -/
def Misstates (version encoding : String) (changed : Prop) : Prop :=
  if Declaration.isWritable version encoding then
    Declaration.feignsEncoding version = true ∧ encoding ≠ Declaration.feignedEncoding
  else changed

/-- A revision lets the document and its declaration note different things. -/
def Diverges (revision : Revision) (id : DocumentId) (grove : Grove) : Prop :=
  ∃ document version encoding, grove.document? id = some document ∧
    document.States version encoding ∧
      match revision with
      | .version value =>
        document.declaration.isSome = true ∧ Misstates value encoding (value ≠ version)
      | .encoding value =>
        document.declaration.isSome = true ∧ Misstates version value (value ≠ encoding)
      | .declaration (some node) => ∃ content,
        grove.leaf? node = some (.instruction Name.xml content) ∧
          ¬ (Declaration.version content = version ∧ Declaration.encoding content = encoding)
      | _ => False

end Revision

theorem Grove.noted_iff (present : grove.document? id = some document) :
    grove.Noted id ↔ document.IsNoted grove := by
  constructor
  · rintro ⟨other, known, noted⟩
    rw [present] at known
    cases known
    exact noted
  · intro noted
    exact ⟨document, present, noted⟩

theorem Grove.document?_redeclared (present : grove.document? id = some document) :
    (grove.redeclared id version encoding).document? id =
      some { document with declaration := some grove.nextId } := by
  rw [redeclared, document?_modifyDocument, if_pos rfl]
  change (grove.document? id).map _ = _
  rw [present]
  rfl

theorem Grove.leaf?_redeclared :
    (grove.redeclared id version encoding).leaf? grove.nextId =
      some (.instruction Name.xml (Declaration.content version encoding)) :=
  leaf?_nextId_add

/-- A derived declaration notes what it is derived from, unless its version feigns an encoding. -/
theorem Document.States.isNoted_redeclared_iff (states : document.States version encoding)
    (present : grove.document? id = some document) :
    (grove.redeclared id version encoding).Noted id ↔
      ¬ (Declaration.feignsEncoding version = true ∧
        encoding ≠ Declaration.feignedEncoding) := by
  have kept : Document.States { document with declaration := some grove.nextId } version encoding :=
    ⟨states.version_eq, states.encoding_eq, states.version_value, states.encoding_value⟩
  rw [noted_iff (document?_redeclared present), Document.isNoted_iff kept rfl leaf?_redeclared,
    Declaration.version_content _ states.version_value,
    Declaration.encoding_content states.version_value states.encoding_value]
  split
  · rename_i feigns
    rw [feigns]
    simp [eq_comm]
  · rename_i honest
    simp [honest]

/-- What there is to say about a document after a revision. -/
def Restated (id : DocumentId) (diverges : Prop) (last : Grove) : Prop :=
  (∃ document version encoding, last.document? id = some document ∧
    document.States version encoding) ∧ (last.Noted id ↔ ¬ diverges)

/-- An action lets a document and its declaration note different things under a condition. -/
def Restates (action : Action Unit) (id : DocumentId) (workspace : Workspace) (diverges : Prop) :
    Prop :=
  Activity.Ensures action workspace (fun _ last => Restated id diverges last.grove)
    (fun last => Restated id diverges last.grove)

/-- What is stored already is declared then, if there is a declaration. Where that fails, the
former declaration stays. -/
theorem redeclare_restates {workspace : Workspace} {changed : Prop}
    (present : workspace.grove.document? id = some document)
    (states : document.States version encoding)
    (stale : document.declaration.isSome = true →
      (document.IsNoted workspace.grove ↔ ¬ changed)) :
    Restates (redeclare id) id workspace
      (document.declaration.isSome = true ∧ Revision.Misstates version encoding changed) := by
  cases declared : document.declaration with
  | none =>
      apply (redeclare_undeclared present declared _).mono
      · rintro _ _ rfl
        refine ⟨⟨document, version, encoding, present, states⟩, ?_⟩
        rw [noted_iff present, iff_true_left (Document.isNoted_of_undeclared declared)]
        rintro ⟨impossible, _⟩
        cases impossible
      · intro last failed
        exact failed
  | some declaration =>
      have isSome : document.declaration.isSome = true := by
        rw [declared]
        rfl
      apply (redeclare_declared present states isSome).mono
      · rintro _ last ⟨writable, same⟩
        rw [same]
        refine ⟨⟨_, version, encoding, document?_redeclared present, ?_⟩, ?_⟩
        · exact ⟨states.version_eq, states.encoding_eq, states.version_value,
            states.encoding_value⟩
        · rw [states.isNoted_redeclared_iff present, Revision.Misstates, if_pos writable,
            Option.isSome_some, eq_self, true_and]
      · rintro last ⟨unwritable, same⟩
        rw [same]
        refine ⟨⟨document, version, encoding, present, states⟩, ?_⟩
        rw [noted_iff present, stale isSome, Revision.Misstates, unwritable,
          if_neg Bool.false_ne_true, Option.isSome_some, eq_self, true_and]

theorem Document.States.exists_iff {holds : Document → String → String → Prop}
    (states : document.States version encoding) (present : grove.document? id = some document) :
    (∃ document version encoding, grove.document? id = some document ∧
      document.States version encoding ∧ holds document version encoding) ↔
        holds document version encoding := by
  constructor
  · rintro ⟨other, otherVersion, otherEncoding, known, others, held⟩
    rw [present] at known
    cases known
    have sameVersion := others.version_eq.symm.trans states.version_eq
    have sameEncoding := others.encoding_eq.symm.trans states.encoding_eq
    cases sameVersion
    cases sameEncoding
    exact held
  · intro held
    exact ⟨document, version, encoding, present, states, held⟩

theorem Document.IsNoted.keep {last : Grove} (noted : document.IsNoted grove)
    (same : ∀ {node}, grove.Has node → last.shape? node = grove.shape? node) :
    document.IsNoted last := by
  intro declaration declared
  rcases noted declaration declared with ⟨content, leaf, version, encoding⟩
  refine ⟨content, ?_, version, encoding⟩
  rw [leaf?_of_shape? (same (has_of_leaf? leaf)), leaf]

/-- A declaration is accepted if it is a processing instruction with that target. -/
theorem setDeclaration_ensures (node : NodeId) :
    Edit.Ensures (setDeclaration id (some node)) grove
      (fun _ last => (∃ content, grove.leaf? node = some (.instruction Name.xml content)) ∧
        last = grove.modifyDocument id fun document => { document with declaration := some node })
      (fun last => (¬ ∃ content, grove.leaf? node = some (.instruction Name.xml content)) ∧
        last = grove) := by
  rw [setDeclaration]
  apply Edit.Ensures.bind
  apply Edit.ensures_get
  apply Edit.ensures_ite
  · intro acceptable
    refine ⟨?_, rfl⟩
    rw [Option.all_some] at acceptable
    split at acceptable
    · rename_i target content leaf
      rw [beq_iff_eq] at acceptable
      exact ⟨content, by rw [leaf, acceptable]⟩
    · cases acceptable
  · intro unacceptable
    refine ⟨?_, rfl⟩
    rintro ⟨content, leaf⟩
    rw [Option.all_some, leaf] at unacceptable
    exact unacceptable (beq_self_eq_true Name.xml)

section

variable {workspace : Workspace} (present : workspace.grove.document? id = some document)
  (states : document.States version encoding) (noted : document.IsNoted workspace.grove)

include present

/-- Something about a document is stored, and then it is declared. -/
theorem store_restates {change : Document → Document} {changed : Prop}
    {newVersion newEncoding : String} (stored : (change document).States newVersion newEncoding)
    (kept : (change document).declaration = document.declaration)
    (stale : ∀ declaration, document.declaration = some declaration →
      ((change document).IsNoted workspace.grove ↔ ¬ changed)) :
    Restates (edit (modify (·.modifyDocument id change)) >>= fun _ => redeclare id) id workspace
      (document.declaration.isSome = true ∧
        Revision.Misstates newVersion newEncoding changed) := by
  let middle : Workspace := { workspace with grove := workspace.grove.modifyDocument id change }
  have held : middle.grove.document? id = some (change document) := by
    change (workspace.grove.modifyDocument id change).document? id = _
    rw [document?_modifyDocument, if_pos rfl, present]
    rfl
  have restates := redeclare_restates held stored (by
    intro declared
    rw [kept] at declared
    rcases Option.isSome_iff_exists.1 declared with ⟨declaration, known⟩
    exact stale declaration known)
  rw [kept] at restates
  apply Activity.Ensures.bind
  apply edit_ensures
  apply Edit.ensures_modify
  exact restates

include states

theorem removeDeclaration_restates :
    Restates (setDocumentProperty id "declaration" .null) id workspace False := by
  change Restates (edit (setDeclaration id none)) id workspace False
  apply edit_ensures
  rw [setDeclaration]
  apply Edit.Ensures.bind
  apply Edit.ensures_get
  apply Edit.ensures_ite
  · intro _
    apply Edit.ensures_set
    have held : (workspace.grove.modifyDocument id fun document =>
        { document with declaration := none }).document? id =
          some { document with declaration := none } := by
      rw [document?_modifyDocument, if_pos rfl, present]
      rfl
    refine ⟨⟨_, version, encoding, held, ?_⟩, ?_⟩
    · exact ⟨states.version_eq, states.encoding_eq, states.version_value, states.encoding_value⟩
    · rw [noted_iff held, not_false_iff, iff_true]
      exact Document.isNoted_of_undeclared rfl
  · intro impossible
    exact absurd rfl impossible

include noted

theorem assignVersion_restates {value : String} (admissible : Declaration.IsValue value) :
    Restates (setDocumentProperty id "version" (.text value)) id workspace
      (document.declaration.isSome = true ∧
        Revision.Misstates value encoding (value ≠ version)) := by
  have stored : Document.States { document with version := .text value } value encoding :=
    ⟨rfl, states.encoding_eq, admissible, states.encoding_value⟩
  apply store_restates present stored rfl
  intro declaration declared
  rcases noted declaration declared with ⟨content, leaf, _⟩
  rcases (Document.isNoted_iff states declared leaf).1 noted with ⟨rfl, rfl⟩
  rw [Document.isNoted_iff stored declared leaf, not_not]
  exact ⟨fun both => both.1.symm, fun same => ⟨same.symm, rfl⟩⟩

theorem assignEncoding_restates {value : String} (admissible : Declaration.IsValue value) :
    Restates (setDocumentProperty id "encoding" (.text value)) id workspace
      (document.declaration.isSome = true ∧
        Revision.Misstates version value (value ≠ encoding)) := by
  have stored : Document.States { document with encoding := .text value } version value :=
    ⟨states.version_eq, rfl, states.version_value, admissible⟩
  apply store_restates present stored rfl
  intro declaration declared
  rcases noted declaration declared with ⟨content, leaf, _⟩
  rcases (Document.isNoted_iff states declared leaf).1 noted with ⟨rfl, rfl⟩
  rw [Document.isNoted_iff stored declared leaf, not_not]
  exact ⟨fun both => both.2.symm, fun same => ⟨rfl, same.symm⟩⟩

theorem assignDeclaration_restates (node : NodeId) :
    Restates (setDocumentProperty id "declaration" (.node node)) id workspace
      (∃ content, workspace.grove.leaf? node = some (.instruction Name.xml content) ∧
        ¬ (Declaration.version content = version ∧ Declaration.encoding content = encoding)) := by
  change Restates (edit (setDeclaration id (some node))) id workspace _
  apply edit_ensures
  apply (setDeclaration_ensures node).mono
  · rintro _ last ⟨⟨content, leaf⟩, rfl⟩
    have held : (workspace.grove.modifyDocument id fun document =>
        { document with declaration := some node }).document? id =
          some { document with declaration := some node } := by
      rw [document?_modifyDocument, if_pos rfl, present]
      rfl
    have stored : Document.States { document with declaration := some node } version encoding :=
      ⟨states.version_eq, states.encoding_eq, states.version_value, states.encoding_value⟩
    refine ⟨⟨_, version, encoding, held, stored⟩, ?_⟩
    have placed : (workspace.grove.modifyDocument id fun document =>
        { document with declaration := some node }).leaf? node =
          some (.instruction Name.xml content) := leaf
    rw [noted_iff held, Document.isNoted_iff stored rfl placed]
    constructor
    · rintro same ⟨other, found, differs⟩
      rw [leaf] at found
      cases found
      exact differs same
    · intro agrees
      apply Decidable.byContradiction
      intro differs
      exact agrees ⟨content, leaf, differs⟩
  · rintro last ⟨unfit, rfl⟩
    refine ⟨⟨document, version, encoding, present, states⟩, ?_⟩
    rw [noted_iff present, iff_true_left noted]
    rintro ⟨content, leaf, _⟩
    exact unfit ⟨content, leaf⟩

theorem makeInstruction_restates (content : String) :
    Restates (do let _ ← edit (createLeaf (.instruction Name.xml content))) id workspace False := by
  apply Activity.Ensures.bind
  apply edit_ensures
  apply (createLeaf_ensures (.instruction Name.xml content)).mono
  · rintro _ last ⟨enlarged, _⟩
    apply Activity.ensures_pure
    have held : last.document? id = some document := by
      rw [document?, enlarged.documents]
      exact present
    refine ⟨⟨document, version, encoding, held, states⟩, ?_⟩
    rw [noted_iff held, not_false_iff, iff_true]
    exact noted.keep enlarged.shape
  · rintro _ rfl
    refine ⟨⟨document, version, encoding, present, states⟩, ?_⟩
    rw [noted_iff present, not_false_iff, iff_true]
    exact noted

/-- Whether a document notes what its declaration does after a revision. -/
theorem Revision.restates {revision : Revision} (admissible : revision.IsAdmissible) :
    Restates (revision.perform id) id workspace (revision.Diverges id workspace.grove) := by
  rw [Diverges, states.exists_iff present]
  cases revision with
  | version value => exact assignVersion_restates present states noted admissible
  | encoding value => exact assignEncoding_restates present states noted admissible
  | declaration node =>
      cases node with
      | none => exact removeDeclaration_restates present states
      | some node => exact assignDeclaration_restates present states noted node
  | instruction content => exact makeInstruction_restates present states noted content

end

/-! ## Sequences of revisions -/

/-- The workspaces that sequences of revisions of a document lead to. -/
inductive Revised (allowed : Revision → Grove → Prop) (id : DocumentId) (start : Workspace) :
    Workspace → Prop
  | start : Revised allowed id start start
  | step {workspace : Workspace} {revision : Revision}
      (revised : Revised allowed id start workspace) (admissible : revision.IsAdmissible)
      (admitted : allowed revision workspace.grove) :
      Revised allowed id start (revision.after id workspace)

/-- What sequences of revisions keep. -/
structure Truthful (id : DocumentId) (grove : Grove) : Prop where
  states : ∃ document version encoding, grove.document? id = some document ∧
    document.States version encoding
  noted : grove.Noted id

theorem Truthful.restated {revision : Revision} {workspace : Workspace}
    (truthful : Truthful id workspace.grove) (admissible : revision.IsAdmissible) :
    Restated id (revision.Diverges id workspace.grove) (revision.after id workspace).grove := by
  rcases truthful.states with ⟨document, version, encoding, present, states⟩
  have noted := (noted_iff present).1 truthful.noted
  exact Activity.Ensures.after (Revision.restates present states noted admissible)

/-- A document that was loaded from something else than elements notes what its declaration does. -/
theorem Loading.Loaded.truthful {source : LoadSource} {before last : Grove}
    (loaded : Loaded source before id last) (plain : source.isElements = false) :
    Truthful id last := by
  rcases loaded.document with ⟨document, present, declared, noted⟩
  rcases Option.isSome_iff_exists.1 declared with ⟨declaration, known⟩
  rcases (noted plain).states known with ⟨version, encoding, states⟩
  exact ⟨⟨document, version, encoding, present, states⟩, document, present, noted plain⟩

theorem load_truthful {services : Loading.Services} {loaders : List Loading.Loader}
    (options : ParserOptions) (sourceUrl : Option Value) {source : Loading.LoadSource}
    {workspace : Workspace}
    (sound : workspace.grove.Sound)
    (usual : ∀ loader ∈ loaders, loader ∈ Loading.standardLoaders services)
    (plain : source.isElements = false) :
    Activity.Ensures (load (Loading.loadDocument loaders options sourceUrl source)) workspace
      (fun id last => Truthful id last.grove) (fun _ => True) := by
  have fair : ∀ loader ∈ loaders, loader.IsFair :=
    fun loader member => Loading.isFair_of_mem_standardLoaders (usual loader member)
  apply load_ensures
  apply (Loading.loadDocument_ensures loaders options sourceUrl source fair sound).mono
  · intro id last loaded
    exact loaded.truthful plain
  · intro _ _
    trivial

theorem Revised.truthful {start workspace : Workspace}
    (revised : Revised (fun revision grove => ¬ revision.Diverges id grove) id start workspace)
    (truthful : Truthful id start.grove) : Truthful id workspace.grove := by
  induction revised with
  | start => exact truthful
  | step revised admissible admitted induction =>
      rcases induction.restated admissible with ⟨states, noted⟩
      exact ⟨states, noted.2 admitted⟩

/-- A document that was loaded from something else than elements notes what its declaration does
after any sequence of revisions, raising ones included, that lets it never diverge from it. The
next one keeps that exactly if it doesn't let them diverge either. -/
theorem noted_of_revised {services : Loading.Services} {loaders : List Loading.Loader}
    {options : ParserOptions} {sourceUrl : Option Value} {source : Loading.LoadSource}
    {workspace loaded last : Workspace} (reached : Reached (fun _ _ => True) workspace.grove)
    (usual : ∀ loader ∈ loaders, loader ∈ Loading.standardLoaders services)
    (plain : source.isElements = false)
    (succeeded : Activity.outcome (load (Loading.loadDocument loaders options sourceUrl source))
      workspace = (.ok id, loaded))
    (revised : Revised (fun revision grove => ¬ revision.Diverges id grove) id loaded last) :
    last.grove.Noted id ∧ ∀ revision : Revision, revision.IsAdmissible →
      ((revision.after id last).grove.Noted id ↔ ¬ revision.Diverges id last.grove) := by
  have sound := reached.sound_and_anchored.1
  have truthful := load_truthful options sourceUrl sound usual plain
  rw [Activity.Ensures, succeeded] at truthful
  have kept := revised.truthful truthful
  refine ⟨kept.noted, ?_⟩
  intro revision admissible
  exact (kept.restated admissible).2

/-- A workspace with a tag node. -/
def tagWorkspace : Workspace :=
  { grove := (Act.operate (.createTag (.text "root") [] [])).apply {} }

/-- The outcome of loading that tag node as a document. -/
def tagOutcome : Except Fault DocumentId × Workspace :=
  Activity.outcome (load (Loading.loadDocument (Loading.standardLoaders {}) {} none (.node ⟨0⟩)))
    tagWorkspace

theorem reached_tagWorkspace : Reached (fun _ _ => True) tagWorkspace.grove := by
  change Reached (fun _ _ => True) ((Act.operate (.createTag (.text "root") [] [])).apply {})
  apply Reached.start.step
  · exact ⟨fun id member => (by cases member), fun parts equal => (by cases equal)⟩
  · trivial

theorem tagOutcome_eq : tagOutcome = (.ok ⟨0⟩, tagOutcome.2) := by
  have succeeded : tagOutcome.1.toOption = some ⟨0⟩ := by decide
  apply Prod.ext
  · cases result : tagOutcome.1 with
    | error fault =>
        rw [result] at succeeded
        cases succeeded
    | ok id =>
        rw [result] at succeeded
        cases succeeded
        rfl
  · rfl

theorem document?_tagOutcome :
    (tagOutcome.2.grove.document? ⟨0⟩).map (fun document =>
      (document.version.text?, document.encoding.text?)) = some (some "1.0", some "UTF-8") := by
  decide

theorem revised_tagOutcome :
    Revised (fun revision grove => ¬ revision.Diverges ⟨0⟩ grove) ⟨0⟩ tagOutcome.2
      ((Revision.version "1.1").after ⟨0⟩ tagOutcome.2) := by
  have admissible : (Revision.version "1.1").IsAdmissible := ⟨by decide, by decide⟩
  apply Revised.start.step admissible
  rintro ⟨document, version, encoding, present, states, declared, misstates⟩
  have known := document?_tagOutcome
  rw [present, Option.map_some, states.version_eq, states.encoding_eq] at known
  cases known
  have writable : Declaration.isWritable "1.1" "UTF-8" = true := by decide
  rw [Revision.Misstates, if_pos writable] at misstates
  exact absurd misstates.1 (by decide)

theorem noted_of_revised_tagOutcome :
    Reached (fun _ _ => True) tagWorkspace.grove ∧ tagOutcome = (.ok ⟨0⟩, tagOutcome.2) ∧
      ((Revision.version "1.1").after ⟨0⟩ tagOutcome.2).grove.Noted ⟨0⟩ :=
  ⟨reached_tagWorkspace, tagOutcome_eq,
    (noted_of_revised reached_tagWorkspace (fun _ member => member) rfl tagOutcome_eq
      revised_tagOutcome).1⟩

/-- A version that can't be declared is kept, although its assignment fails. -/
theorem not_noted_of_revised :
    ¬ ∀ last, Revised (fun _ _ => True) ⟨0⟩ tagOutcome.2 last → last.grove.Noted ⟨0⟩ := by
  intro all
  have admissible : (Revision.version "a?>b").IsAdmissible := ⟨by decide, by decide⟩
  rcases all _ (Revised.start.step admissible trivial) with ⟨document, present, noted⟩
  have known : (((Revision.version "a?>b").after ⟨0⟩ tagOutcome.2).grove.document? ⟨0⟩).map
      (fun document => (document.version.text?, document.declaration)) =
        some (some "a?>b", some ⟨1⟩) := by decide
  rw [present, Option.map_some, Option.some_inj, Prod.mk.injEq] at known
  rcases noted ⟨1⟩ known.2 with ⟨content, leaf, version, _⟩
  have former : ((Revision.version "a?>b").after ⟨0⟩ tagOutcome.2).grove.leaf? ⟨1⟩ =
      some (.instruction Name.xml (Declaration.content "1.0" "UTF-8")) := by decide
  rw [former] at leaf
  cases leaf
  rw [version] at known
  exact absurd known.1 (by decide)

end XmlGrove
