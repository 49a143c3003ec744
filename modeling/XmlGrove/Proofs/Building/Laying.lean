import XmlGrove.Proofs.Building.Replay
import XmlGrove.Proofs.Document.Copy
import XmlGrove.Proofs.Document.Revision

/-!
# Laying the foundation for a tag

A document is made for a new root that has the name and the attributes of a tag. Its version and
its encoding are noted once more, and everything that there was is left as it was.
-/

namespace XmlGrove

open Grove Activity

variable {start grove last : Grove} {id : DocumentId} {document : Document} {root : NodeId}
  {node : Node} {name : Name} {attributes : Attributes}

/-! ## A document with a new root -/

/-- A node is all that a document consists of apart from its declaration, and all nodes of an
earlier grove are as they were. -/
structure Grove.Laid (start : Grove) (id : DocumentId) (root : NodeId) (node : Node)
    (grove : Grove) : Prop where
  retained : Retained start grove
  node? : grove.node? root = some node
  document : ∃ document, grove.document? id = some document ∧
    grove.children document.anchor = [root] ∧ document.declaration.isSome = true ∧
      document.States Declaration.defaultVersion Declaration.defaultEncoding

namespace Grove.Laid

theorem documentRoot? (laid : Laid start id root (.tag name attributes []) grove) :
    grove.documentRoot? id = some root := by
  rcases laid.document with ⟨document, present, own, _⟩
  have tag : grove.isTag root = true := by
    rw [isTag, tag?_of_node? laid.node?]
    rfl
  rw [Grove.documentRoot?, anchoredNodes_eq present, own, List.find?_cons_of_pos tag]

theorem start_at {earlier : Grove} (laid : Laid start id root node grove)
    (retained : Retained earlier start) : Laid earlier id root node grove where
  retained := retained.trans laid.retained
  node? := laid.node?
  document := laid.document

theorem note {change : Document → Document} (laid : Laid start id root node grove)
    (anchor : ∀ document, (change document).anchor = document.anchor)
    (declaration : ∀ document, (change document).declaration = document.declaration)
    (states : ∀ {document}, document.States Declaration.defaultVersion Declaration.defaultEncoding →
      (change document).States Declaration.defaultVersion Declaration.defaultEncoding) :
    Laid start id root node (grove.modifyDocument id change) where
  retained := ⟨laid.retained.size, laid.retained.node?⟩
  node? := laid.node?
  document := by
    rcases laid.document with ⟨document, present, own, declared, stated⟩
    refine ⟨change document, ?_, ?_, ?_, states stated⟩
    · rw [document?_modifyDocument, if_pos rfl, present]
      rfl
    · rw [anchor]
      exact own
    · rw [declaration]
      exact declared

theorem redeclare {version encoding : String} (laid : Laid start id root node grove) :
    Laid start id root node (grove.redeclared id version encoding) where
  retained := by
    apply laid.retained.trans
    constructor
    · change _ ≤ (grove.add _).entries.size
      rw [size_add]
      exact Nat.le_succ _
    · intro other present
      exact node?_add_of_has present
  node? := by
    change (grove.add _).node? root = _
    rw [node?_add_of_has (has_of_node? laid.node?), laid.node?]
  document := by
    rcases laid.document with ⟨document, present, own, _, stated⟩
    refine ⟨_, document?_redeclared present, ?_, rfl, ?_⟩
    · have barren : ∀ content, (Node.leaf content).IsBarren := fun _ => trivial
      change (grove.add _).children document.anchor = _
      rw [children_add (barren _), own]
    · exact ⟨stated.version_eq, stated.encoding_eq, stated.version_value, stated.encoding_value⟩

end Grove.Laid

theorem createDocument_lays (sound : grove.Sound) (free : grove.parentLink? root = none)
    (present : grove.node? root = some (.tag name attributes [])) :
    (createDocument { sources := [.node root] }).Yields grove
      fun id last => Laid grove id root (.tag name attributes []) last := by
  have usable : ∀ node ∈ [root], Usable grove node := by
    intro node member
    rw [List.mem_singleton.1 member]
    exact ⟨⟨.tag, by rw [kind?, present]⟩, free⟩
  have tag : [root].any grove.isTag = true := by
    rw [List.any_cons, isTag, tag?_of_node? present]
    rfl
  apply ((createDocument_preserves sound (List.nodup_singleton root) usable).and
    (createDocument_creates sound rfl (List.nodup_singleton root) usable)).mono
  · rintro id last ⟨⟨preserved, _⟩, created⟩
    refine ⟨preserved.toRetained, ?_, ?_⟩
    · rw [preserved.node? (has_of_node? present), present]
    · rcases created.document with ⟨document, declaration, known, own, declared, _, version, encoding⟩
      refine ⟨document, known, own, ?_, version, encoding, ?_, ?_⟩
      · rw [declared]
        rfl
      · exact Declaration.isValue_default.1
      · exact Declaration.isValue_default.2
  · rintro last ⟨⟨_, rootless⟩, _⟩
    exact rootless tag

/-! ## Loading a new root -/

/-- A tag without a parent is used as it is. -/
theorem Loading.nodeLoader_yields {state : Loading.State} (tag : state.grove.isTag root = true)
    (free : state.grove.parentLink? root = none) :
    Activity.Yields (Loading.nodeLoader.load (.node root)) state
      fun made last => made = .nodes [.node root] ∧ last = state := by
  unfold Loading.nodeLoader Loading.loadNode
  apply Ensures.bind
  apply ensures_get
  dsimp only
  rw [tag, if_neg (by decide), free]
  exact ensures_pure ⟨rfl, rfl⟩

theorem Loading.loadDocument_lays {state : Loading.State} (loaders : List Loading.Loader)
    (sound : state.grove.Sound) (free : state.grove.parentLink? root = none)
    (present : state.grove.node? root = some (.tag name attributes [])) :
    Activity.Yields (Loading.loadDocument loaders {} none (.node root)) state
      fun id last => Laid state.grove id root (.tag name attributes []) last.grove := by
  have tag : state.grove.isTag root = true := by
    rw [isTag, tag?_of_node? present]
    rfl
  rw [Loading.loadDocument, Loading.configure]
  apply Ensures.bind
  apply ensures_modify
  apply Ensures.bind
  rw [Loading.tryLoaders]
  apply Ensures.bind
  apply Ensures.attempt
  refine Ensures.mono (Loading.nodeLoader_yields ?_ ?_) ?_ fun _ => False.elim
  · exact tag
  · exact free
  · rintro _ _ ⟨rfl, rfl⟩
    apply ensures_pure
    apply Ensures.bind
    apply ensures_get
    apply Loading.edit_ensures
    exact createDocument_lays sound free present

namespace Script

variable {workspace : Workspace}

/-! ## Noting the version and the encoding again -/

theorem redeclare_lays (laid : Laid start id root node workspace.grove) :
    Yields (redeclare id) workspace fun _ last => Laid start id root node last.grove := by
  have writable : Declaration.isWritable Declaration.defaultVersion Declaration.defaultEncoding =
      true := by decide
  rcases laid.document with ⟨document, present, _, declared, states⟩
  apply (redeclare_declared present states declared).mono
  · rintro _ last ⟨_, same⟩
    rw [same]
    exact laid.redeclare
  · rintro last ⟨unwritable, _⟩
    rw [writable] at unwritable
    cases unwritable

theorem setVersion_lays (laid : Laid start id root node workspace.grove) :
    Yields (setDocumentProperty id "version" (.text Declaration.defaultVersion)) workspace
      fun _ last => Laid start id root node last.grove := by
  unfold setDocumentProperty
  apply Ensures.bind
  apply edit_ensures
  apply Edit.ensures_modify
  apply redeclare_lays
  refine laid.note (fun _ => rfl) (fun _ => rfl) ?_
  intro document states
  exact ⟨rfl, states.encoding_eq, states.version_value, states.encoding_value⟩

theorem setEncoding_lays (laid : Laid start id root node workspace.grove) :
    Yields (setDocumentProperty id "encoding" (.text Declaration.defaultEncoding)) workspace
      fun _ last => Laid start id root node last.grove := by
  unfold setDocumentProperty
  apply Ensures.bind
  apply edit_ensures
  apply Edit.ensures_modify
  apply redeclare_lays
  refine laid.note (fun _ => rfl) (fun _ => rfl) ?_
  intro document states
  exact ⟨states.version_eq, rfl, states.version_value, states.encoding_value⟩

/-! ## The foundation for a tag -/

/-- What a builder starts with that is called with a tag's name and its attributes. -/
def Foundation.forTag (name : Name) (id : NodeId) : Foundation :=
  .root (.text name.text) (.attributesOf (.tag id)) (.text Declaration.defaultVersion)
    (.text Declaration.defaultEncoding)

/-- A builder for a tag starts with a root that is like the tag, but has no children. -/
theorem lay_forTag_yields {tag : NodeId} {other : Name} (name : Name)
    (sound : workspace.grove.Sound)
    (known : workspace.grove.tag? tag = some (other, attributes)) :
    Yields (Foundation.forTag name tag).lay workspace fun builder last => builder.outer = [] ∧
      ¬ workspace.grove.Has builder.current ∧ Laid workspace.grove builder.document
        builder.current (.tag name attributes []) last.grove := by
  rw [Foundation.forTag, Foundation.lay]
  apply Yields.andThen (newTag_makes_like name known)
  rintro _ _ ⟨rfl, rfl⟩
  have enlarged : Enlarged workspace.grove
      (workspace.grove.add ⟨.tag name attributes [], none⟩) := enlarged_add rfl rfl
  apply Ensures.bind
  apply load_ensures
  refine Yields.mono (Loading.loadDocument_lays _ ?_ free_nextId_add node?_nextId_add) ?_
  · exact enlarged.sound sound
  intro document loaded laid
  apply Yields.andThen (setVersion_lays laid)
  intro _ noted laid
  apply Yields.andThen (setEncoding_lays laid)
  intro _ last laid
  rw [Foundation.builderFor]
  apply Ensures.bind
  apply edit_ensures
  rw [requireRoot]
  apply Edit.Ensures.bind
  apply Edit.ensures_get
  rw [laid.documentRoot?]
  apply Edit.ensures_pure
  apply ensures_pure
  exact ⟨rfl, not_has_nextId, laid.start_at enlarged.retained⟩

end Script

end XmlGrove
