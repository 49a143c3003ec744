import XmlGrove.Proofs.Document.Activity
import XmlGrove.Proofs.Document.Growth
import XmlGrove.Proofs.Failure.Shown
import XmlGrove.Script.Construction

/-!
# Nodes that values construct

What values are taken for is found out without changing anything. What is constructed of them are
further nodes, whether that succeeds or not, and everything else is as it was.
-/

namespace XmlGrove

namespace Activity

variable {state : σ}

/-! ## Looking at a state -/

/-- An activity only looks at the state, whether it succeeds or not. -/
def Looks (activity : ExceptT Fault (StateM σ) α) : Prop :=
  ∀ state, (outcome activity state).2 = state

theorem looks_pure (value : α) : Looks (pure value : ExceptT Fault (StateM σ) α) := fun _ => rfl

theorem looks_throw (fault : Fault) : Looks (throw fault : ExceptT Fault (StateM σ) α) :=
  fun _ => rfl

theorem looks_get : Looks (get : ExceptT Fault (StateM σ) σ) := fun _ => rfl

theorem looks_ofExcept (result : Except Fault α) :
    Looks (MonadExcept.ofExcept result : ExceptT Fault (StateM σ) α) := by
  intro state
  rw [outcome_ofExcept]

theorem Looks.bind {first : ExceptT Fault (StateM σ) α} {next : α → ExceptT Fault (StateM σ) β}
    (former : Looks first) (latter : ∀ value, Looks (next value)) : Looks (first >>= next) := by
  intro state
  have same := former state
  rw [outcome_bind]
  cases equal : outcome first state with
  | mk result middle =>
      rw [equal] at same
      cases same
      cases result with
      | error fault => rfl
      | ok value => exact latter value middle

theorem Looks.ensures_bind {first : ExceptT Fault (StateM σ) α}
    {next : α → ExceptT Fault (StateM σ) β} {success : β → σ → Prop} {failure : σ → Prop}
    (looks : Looks first) (latter : ∀ value, Ensures (next value) state success failure)
    (failing : failure state) : Ensures (first >>= next) state success failure := by
  have same := looks state
  apply Ensures.bind
  rw [Ensures]
  cases equal : outcome first state with
  | mk result middle =>
      rw [equal] at same
      cases same
      cases result with
      | error fault => exact failing
      | ok value => exact latter value

/-! ## Preserving what holds -/

variable {holds : σ → Prop}

/-- An activity preserves a property of the state, whether it succeeds or not. -/
def Preserves (activity : ExceptT Fault (StateM σ) α) (holds : σ → Prop) : Prop :=
  ∀ state, holds state → Ensures activity state (fun _ last => holds last) holds

theorem Preserves.bind {first : ExceptT Fault (StateM σ) α}
    {next : α → ExceptT Fault (StateM σ) β} (former : Preserves first holds)
    (latter : ∀ value, Preserves (next value) holds) : Preserves (first >>= next) holds := by
  intro state held
  apply Ensures.bind
  apply (former state held).mono
  · intro value middle held
    exact latter value middle held
  · intro last held
    exact held

theorem Looks.preserves {activity : ExceptT Fault (StateM σ) α} (looks : Looks activity) :
    Preserves activity holds := by
  intro state held
  have same := looks state
  rw [Ensures]
  cases equal : outcome activity state with
  | mk result last =>
      rw [equal] at same
      cases same
      cases result with
      | error fault => exact held
      | ok value => exact held

theorem Preserves.forM {items : List α} {body : α → ExceptT Fault (StateM σ) PUnit}
    (each : ∀ item, Preserves (body item) holds) : Preserves (items.forM body) holds := by
  induction items with
  | nil => exact (looks_pure _).preserves
  | cons first rest induction => exact (each first).bind fun _ => induction

end Activity

open Activity Grove

/-! ## The text of a new tag -/

/-- Of all nodes that there were, only the tag itself has other children. -/
theorem setTextContent_grows {grove : Grove} {id : NodeId} (content : Option String)
    (sound : grove.Sound) (listed : grove.childList? id = some []) :
    Edit.Ensures (setTextContent id content) grove
      (fun _ last => Grown (fun node => node = id) grove last)
      (Grown (fun node => node = id) grove) := by
  rw [setTextContent.eq_def]
  apply Edit.Ensures.bind_of_ok (outcome_requireChildren_of_listed listed)
  apply Edit.Ensures.bind
  apply Edit.ensures_get
  apply Edit.Ensures.bind
  apply Edit.ensures_pure
  cases content with
  | none => exact Edit.ensures_pure (.refl grove)
  | some text =>
      apply Edit.Ensures.bind
      rw [insertChild_eq_attach]
      apply (attach_ensures _ id (.text text) sound fun other member => by cases member).mono
      · intro child last attached
        apply Edit.ensures_pure
        exact attached.grown (Placement.isFair_atIndex 0) sound (.refl grove) rfl
          fun other member => by cases member
      · intro last abandoned
        exact (Grown.refl grove).graft abandoned.grafted (Nat.le_refl _)
          fun other member => by cases member

/-- The entries of a mapping that holds attributes. -/
def Value.entriesOf (attributes : Attributes) : List (Value × Value) :=
  attributes.pairs.map fun (name, content) => (text name, text content)

namespace Script

variable {workspace : Workspace}

/-! ## What values are taken for -/

theorem looks_givenName (value : Value) : Looks (givenName value) :=
  looks_get.bind fun _ => looks_pure _

theorem looks_tagName (value : Value) : Looks (tagName value) :=
  (looks_givenName value).bind fun _ => looks_ofExcept _

theorem looks_attributeName (value : Value) : Looks (attributeName value) :=
  (looks_givenName value).bind fun _ => looks_ofExcept _

theorem looks_attributeValue (value : Value) : Looks (attributeValue value) := by
  unfold attributeValue
  split
  · exact looks_pure _
  · exact looks_throw _

theorem looks_instructionTarget (value : Value) : Looks (instructionTarget value) := by
  unfold instructionTarget
  split
  · split
    · exact looks_pure _
    · exact looks_throw _
  · exact looks_throw _

theorem looks_leafContent (value : Value) : Looks (leafContent value) := by
  unfold leafContent
  split
  · exact looks_pure _
  · exact looks_throw _

theorem looks_tagTextContent (value : Value) : Looks (tagTextContent value) := by
  unfold tagTextContent
  split
  · exact looks_pure _
  · exact looks_pure _
  · exact looks_throw _

theorem looks_requireItems (value : Value) : Looks (requireItems value) :=
  looks_get.bind fun _ => looks_ofExcept _

theorem looks_givenAttributes (value : Value) : Looks (givenAttributes value) := by
  unfold givenAttributes
  apply Looks.bind (looks_get.bind fun _ => looks_ofExcept _)
  intro set
  split
  · exact looks_pure _
  · apply looks_get.bind
    intro workspace
    split
    · exact looks_throw _
    · exact (looks_ofExcept _).bind fun _ => looks_pure _

/-! ## New nodes -/

theorem newLeaf_ensures (leaf : String → Leaf) (content : Value) :
    Ensures (newLeaf leaf content) workspace
      (fun id last => Enlarged workspace.grove last.grove ∧
        ∃ kind, Fresh workspace.grove kind id last.grove)
      (fun last => Enlarged workspace.grove last.grove) := by
  rw [newLeaf]
  apply (looks_leafContent content).ensures_bind _ (Grown.refl _)
  intro text
  apply edit_ensures
  apply (createLeaf_ensures _).mono
  · rintro id last ⟨enlarged, fresh⟩
    exact ⟨enlarged, _, fresh⟩
  · rintro _ rfl
    exact .refl _

theorem newInstruction_ensures (target content : Value) :
    Ensures (newInstruction target content) workspace
      (fun id last => Enlarged workspace.grove last.grove ∧
        ∃ kind, Fresh workspace.grove kind id last.grove)
      (fun last => Enlarged workspace.grove last.grove) := by
  rw [newInstruction]
  apply (looks_instructionTarget target).ensures_bind _ (Grown.refl _)
  intro name
  exact newLeaf_ensures _ content

theorem setText_ensures {grove : Grove} {id : NodeId} (text : Value) (enlarged : Enlarged grove
    workspace.grove) (fresh : Fresh grove .tag id workspace.grove) (sound : workspace.grove.Sound)
    (listed : workspace.grove.childList? id = some []) :
    Ensures (do
        edit (setTextContent id (← tagTextContent text))
        return id) workspace
      (fun id last => Enlarged grove last.grove ∧ Fresh grove .tag id last.grove)
      (fun last => Enlarged grove last.grove) := by
  -- What is filled is the new tag, which was not there at the start.
  have whole : ∀ {last : Grove}, Grown (fun node => node = id) workspace.grove last →
      Enlarged grove last := by
    intro last grown
    have later : ∀ node, node = id → grove.Later node := by
      rintro _ rfl
      exact fresh.added
    exact (enlarged.grown.trans (grown.mono later)).enlarged
  apply (looks_tagTextContent text).ensures_bind _ enlarged
  intro content
  apply Ensures.bind
  apply edit_ensures
  apply (setTextContent_grows content sound listed).mono
  · intro _ last grown
    exact ensures_pure ⟨whole grown, fresh.grow grown⟩
  · intro last grown
    exact whole grown

/-- A tag node is a new one even if it gets a text, which is a child that it gets at once. -/
theorem newTag_ensures (name attributes content : Value) (sound : workspace.grove.Sound) :
    Ensures (newTag name attributes .null content) workspace
      (fun id last => Enlarged workspace.grove last.grove ∧
        Fresh workspace.grove .tag id last.grove)
      (fun last => Enlarged workspace.grove last.grove) := by
  unfold newTag
  apply (looks_tagName name).ensures_bind _ (Grown.refl _)
  intro valid
  apply (looks_givenAttributes attributes).ensures_bind _ (Grown.refl _)
  intro entries
  have childless : givenSources .null = pure [] := rfl
  rw [childless, pure_bind]
  apply (looks_givenName name).ensures_bind _ (Grown.refl _)
  intro given
  apply Ensures.bind
  apply edit_ensures
  apply (createTag_adds given entries).mono
  · rintro _ _ ⟨valid, checked, rfl, rfl⟩
    have enlarged : Enlarged workspace.grove
        (workspace.grove.add ⟨.tag valid checked [], none⟩) := enlarged_add rfl rfl
    have fresh : Fresh workspace.grove .tag workspace.grove.nextId
        (workspace.grove.add ⟨.tag valid checked [], none⟩) := fresh_add kind?_nextId_add
    split
    · exact ensures_pure ⟨enlarged, fresh⟩
    · apply setText_ensures _ enlarged fresh (enlarged.sound sound)
      simp [childList?, node?_add]
  · rintro _ rfl
    exact .refl _

/-! ## Nodes from what other nodes hold -/

variable {name : Name} {attributes : Attributes}

/-- An activity makes a node, and it does nothing else. -/
def MakesNode (activity : Action NodeId) (workspace : Workspace) (node : Node) : Prop :=
  Yields activity workspace fun id last => id = workspace.grove.nextId ∧
    last = { workspace with grove := workspace.grove.add ⟨node, none⟩ }

theorem newLeaf_makes {leaf : String → Leaf} {text : String}
    (writable : (leaf text).isWritable = true) :
    MakesNode (newLeaf leaf (.text text)) workspace (.leaf (leaf text)) := by
  rw [MakesNode, newLeaf]
  apply Ensures.bind
  apply ensures_pure
  apply edit_ensures
  rw [createLeaf, Leaf.checked_eq_ok_iff.2 ⟨rfl, writable⟩]
  apply Edit.Ensures.bind
  apply Edit.ensures_pure
  apply Edit.ensures_create
  exact ⟨rfl, rfl⟩

theorem newInstruction_makes {target : Name} {text : String}
    (writable : (Leaf.instruction target text).isWritable = true) :
    MakesNode (newInstruction (.text target.text) (.text text)) workspace
      (.leaf (.instruction target text)) := by
  rw [MakesNode, newInstruction, instructionTarget, Name.ofString?_text]
  apply Ensures.bind
  apply ensures_pure
  exact newLeaf_makes writable

theorem outcome_givenName (text : String) :
    outcome (givenName (.text text)) workspace = (.ok (.text text), workspace) := rfl

theorem outcome_tagName (name : Name) :
    outcome (tagName (.text name.text)) workspace = (.ok name, workspace) := by
  rw [tagName, outcome_bind_of_ok (outcome_givenName name.text), checkedTagName, GivenName.check,
    Name.ofString?_text]
  rfl

theorem attributeEntries_entriesOf (attributes : Attributes) :
    workspace.attributeEntries (Value.entriesOf attributes) =
      attributes.pairs.map fun (name, content) => (.text name, some content) := by
  rw [Workspace.attributeEntries, Value.entriesOf, List.map_map]
  rfl

theorem attributesAt_tag {id : NodeId}
    (known : workspace.grove.tag? id = some (name, attributes)) :
    workspace.attributesAt (.tag id) = attributes := by
  rw [Workspace.attributesAt, known]
  rfl

theorem entries?_attributesOf {id : NodeId}
    (known : workspace.grove.tag? id = some (name, attributes)) :
    workspace.entries? (.attributesOf (.tag id)) = some (Value.entriesOf attributes) := by
  rw [← attributesAt_tag known]
  rfl

/-- The attributes of a tag are given as they are. -/
theorem outcome_givenAttributes {id : NodeId}
    (known : workspace.grove.tag? id = some (name, attributes)) :
    ∃ given, outcome (givenAttributes (.attributesOf (.tag id))) workspace =
      (.ok given, workspace) ∧ checkedAttributes {} given = .ok attributes := by
  have filled : outcome (isTrue (.attributesOf (.tag id))) workspace =
      (.ok !attributes.entries.isEmpty, workspace) := by
    rw [← attributesAt_tag known]
    rfl
  have checked := Parse.checkedAttributes_pairs attributes
  rw [givenAttributes, outcome_bind_of_ok filled]
  cases none : attributes.entries.isEmpty with
  | true =>
      refine ⟨[], rfl, ?_⟩
      rw [Attributes.pairs, List.isEmpty_iff.1 none] at checked
      exact checked
  | false =>
      have looked : outcome get workspace = (.ok workspace, workspace) := rfl
      refine ⟨_, ?_, checked⟩
      rw [if_neg (by decide), outcome_bind_of_ok looked, entries?_attributesOf known]
      dsimp only
      rw [attributeEntries_entriesOf, checked]
      rfl

theorem newTag_makes {value : Value} {given : List (GivenName × Option String)} (name : Name)
    (found : outcome (givenAttributes value) workspace = (.ok given, workspace))
    (checked : checkedAttributes {} given = .ok attributes) :
    MakesNode (newTag (.text name.text) value .null .null) workspace (.tag name attributes []) := by
  have childless : outcome (givenSources .null) workspace = (.ok [], workspace) := rfl
  have named : checkedTagName (.text name.text) = .ok name := by
    rw [checkedTagName, GivenName.check, Name.ofString?_text]
  rw [MakesNode, newTag]
  apply Ensures.bind_of_ok (outcome_tagName name)
  apply Ensures.bind_of_ok found
  apply Ensures.bind_of_ok childless
  apply Ensures.bind_of_ok (outcome_givenName name.text)
  apply Ensures.bind
  apply edit_ensures
  apply (createTag_yields named checked).mono
  rintro _ _ ⟨rfl, rfl⟩
  exact ensures_pure ⟨rfl, rfl⟩

theorem newTag_makes_like {id : NodeId} {other : Name} (name : Name)
    (known : workspace.grove.tag? id = some (other, attributes)) :
    MakesNode (newTag (.text name.text) (.attributesOf (.tag id)) .null .null) workspace
      (.tag name attributes []) := by
  rcases outcome_givenAttributes known with ⟨given, found, checked⟩
  exact newTag_makes name found checked

/-! ## Attributes of a tag -/

variable {owner : NodeId} {holds : Workspace → Prop}

theorem setAttribute_preserves (name value : Value)
    (kept : ∀ workspace attributes, holds workspace →
      holds { workspace with grove := workspace.grove.setAttributes owner attributes }) :
    Preserves (setAttribute (.tag owner) name value) holds := by
  unfold setAttribute
  apply (looks_attributeName name).preserves.bind
  intro valid
  apply (looks_attributeValue value).preserves.bind
  intro content
  apply (looks_get.bind fun _ => looks_pure _).preserves.bind
  intro attributes workspace held
  rw [putAttributes]
  apply edit_ensures
  apply Edit.ensures_modify
  exact kept workspace _ held

/-- However far it gets, an update of attributes does nothing but set them. -/
theorem updateAttributes_preserves (value : Value)
    (kept : ∀ workspace attributes, holds workspace →
      holds { workspace with grove := workspace.grove.setAttributes owner attributes }) :
    Preserves (updateAttributes (.tag owner) value) holds := by
  unfold updateAttributes
  apply looks_get.preserves.bind
  intro workspace
  split
  · exact Preserves.forM fun _ => setAttribute_preserves _ _ kept
  · apply (looks_requireItems value).preserves.bind
    intro items
    apply Preserves.forM
    intro item
    apply (looks_requireItems item).preserves.bind
    intro parts
    split
    · exact setAttribute_preserves _ _ kept
    · exact (looks_throw _).preserves

end Script

end XmlGrove
