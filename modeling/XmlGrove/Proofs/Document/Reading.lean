import XmlGrove.Loading.Loader
import XmlGrove.Proofs.Document.Creation
import XmlGrove.Proofs.Document.Declaration
import XmlGrove.Proofs.RoundTrip.Parsed

/-!
# Parsed documents as nodes

What is parsed as a document is planted as comments and processing instructions and a tag node
behind them, along with the declaration that was found. The version and the encoding are what
that declaration notes.
-/

namespace XmlGrove

open Grove

/-! ## Orders of kinds -/

namespace NodeKind

/-- A kind of nodes that may precede the root of a document. -/
def Precedes (kind : NodeKind) : Prop := kind = .comment ∨ kind = .instruction

/-- Kinds of nodes that may precede a root, and then the kind of a root. -/
def Ordered (kinds : List NodeKind) : Prop :=
  ∃ preceding, kinds = preceding ++ [.tag] ∧ ∀ kind ∈ preceding, kind.Precedes

theorem ordered_append_tag_iff {preceding : List NodeKind} :
    Ordered (preceding ++ [.tag]) ↔ ∀ kind ∈ preceding, kind.Precedes := by
  constructor
  · rintro ⟨others, equal, precedes⟩
    rw [List.append_cancel_right equal]
    exact precedes
  · intro precedes
    exact ⟨preceding, rfl, precedes⟩

end NodeKind

theorem Grove.ordered_iff_kinds {grove : Grove} {ids : List NodeId} {kinds : List NodeKind}
    (shown : ids.map grove.kind? = kinds.map some) :
    grove.Ordered ids ↔ NodeKind.Ordered kinds := by
  constructor
  · rintro ⟨preceding, root, rfl, precedes, tag⟩
    rw [List.map_append] at shown
    rcases List.map_eq_append_iff.1 shown.symm with ⟨front, back, rfl, fronts, backs⟩
    rw [List.map_singleton, tag] at backs
    rcases List.map_eq_singleton_iff.1 backs with ⟨last, rfl, equal⟩
    cases equal
    refine ⟨front, rfl, ?_⟩
    intro kind member
    have listed := List.mem_map_of_mem (f := some) member
    rw [fronts] at listed
    rcases List.mem_map.1 listed with ⟨node, present, equal⟩
    rcases precedes node present with comment | instruction
    · rw [comment] at equal
      cases equal
      exact .inl rfl
    · rw [instruction] at equal
      cases equal
      exact .inr rfl
  · rintro ⟨preceding, rfl, precedes⟩
    rw [List.map_append] at shown
    rcases List.map_eq_append_iff.1 shown with ⟨front, back, rfl, fronts, backs⟩
    rcases List.map_eq_singleton_iff.1 backs with ⟨root, rfl, tag⟩
    refine ⟨front, root, rfl, ?_, tag⟩
    intro node member
    have listed := List.mem_map_of_mem (f := grove.kind?) member
    rw [fronts] at listed
    rcases List.mem_map.1 listed with ⟨kind, present, equal⟩
    rw [Grove.Precedes, ← equal]
    rcases precedes kind present with comment | instruction
    · exact .inl (congrArg some comment)
    · exact .inr (congrArg some instruction)

/-! ## Parsed documents -/

/-- The version and the encoding are what the content of a declaration notes; without one they
are the usual ones. -/
def Declaration.Notes (declaration : Option String) (version encoding : String) : Prop :=
  match declaration with
  | none => version = Declaration.defaultVersion ∧ encoding = Declaration.defaultEncoding
  | some content => version = Declaration.version content ∧ encoding = Declaration.encoding content

theorem Grammar.Prologue.precedes {text : List Char} {leaves : List Leaf}
    (written : Grammar.Prologue text leaves) : ∀ leaf ∈ leaves, leaf.kind.Precedes := by
  intro leaf member
  induction written with
  | nil => cases member
  | comment _ _ _ induction =>
      rcases List.mem_cons.1 member with equal | other
      · rw [equal]
        exact .inl rfl
      · exact induction other
  | instruction _ _ _ induction =>
      rcases List.mem_cons.1 member with equal | other
      · rw [equal]
        exact .inr rfl
      · exact induction other

theorem Grammar.documentOf_precedes (options : ParserOptions) {leaves : List Leaf} (root : Tree)
    (precedes : ∀ leaf ∈ leaves, leaf.kind.Precedes) :
    ∀ leaf ∈ (documentOf options leaves root).prologue, leaf.kind.Precedes := by
  unfold documentOf
  split
  · split
    · intro leaf member
      exact precedes leaf (List.mem_cons_of_mem _ (List.mem_of_mem_filter member))
    · intro leaf member
      exact precedes leaf (List.mem_of_mem_filter member)
  · intro leaf member
    exact precedes leaf (List.mem_of_mem_filter member)

theorem Grammar.documentOf_notes (options : ParserOptions) (leaves : List Leaf) (root : Tree) :
    Declaration.Notes (documentOf options leaves root).declaration
      (documentOf options leaves root).version (documentOf options leaves root).encoding := by
  unfold documentOf
  split
  · split
    · exact ⟨rfl, rfl⟩
    · exact ⟨rfl, rfl⟩
  · exact ⟨rfl, rfl⟩

/-- A parsed document has its nodes in order, and it notes what its declaration does. -/
structure ParsedDocument.IsShaped (document : ParsedDocument) : Prop where
  ordered : NodeKind.Ordered (document.nodes.map Tree.kind)
  notes : Declaration.Notes document.declaration document.version document.encoding

theorem Parse.isShaped_document {options : ParserOptions} {text : List Char}
    {document : ParsedDocument} (read : Parse.document options text = .ok document) :
    document.IsShaped := by
  rcases document_sound read with ⟨leaves, name, entries, pieces, derived, rfl⟩
  cases derived with
  | intro _ written _ _ =>
      refine ⟨?_, Grammar.documentOf_notes _ _ _⟩
      have precedes := Grammar.documentOf_precedes options
        (.tag name (Grammar.attributesOf entries) (Grammar.nodesOf options [] pieces))
        written.precedes
      rw [ParsedDocument.nodes, List.map_append, List.map_singleton, Parse.root_documentOf,
        Tree.kind, NodeKind.ordered_append_tag_iff, List.map_map]
      intro kind member
      rcases List.mem_map.1 member with ⟨leaf, listed, rfl⟩
      exact precedes leaf listed

theorem Input.isShaped_parse {options : ParserOptions} {input : Input}
    {document : ParsedDocument} {note : Option String}
    (parsed : input.parse options = .ok (document, note)) : document.IsShaped := by
  rcases Parse.exists_document_of_parse parsed with ⟨characters, read⟩
  exact Parse.isShaped_document read

/-! ## Planted documents -/

section

variable {grove middle last : Grove}

theorem leaf?_plant_leaf (content : Leaf) (failure : Grove → Prop) :
    Edit.Ensures (plant (.leaf content)) grove (fun id last => last.leaf? id = some content)
      failure := leaf?_nextId_add

theorem mapM_plant_grows (trees : List Tree) (sound : grove.Sound) (failure : Grove → Prop) :
    Edit.Ensures (trees.mapM plant) grove
      (fun ids last => Enlarged grove last ∧ AllFresh grove (trees.map Tree.kind) ids last)
      failure := by
  induction trees generalizing grove with
  | nil => exact Edit.ensures_pure ⟨.refl _, .nil⟩
  | cons first rest induction =>
      rw [List.mapM_cons]
      apply Edit.Ensures.bind
      apply (plant_grows first sound failure).mono
      · rintro id middle ⟨enlarged, fresh⟩
        apply Edit.Ensures.bind
        apply (induction (enlarged.sound sound)).mono
        · rintro ids last ⟨further, others⟩
          apply Edit.ensures_pure
          exact ⟨enlarged.trans further, (AllFresh.single fresh).append enlarged others further⟩
        · intro last failed
          exact failed
      · intro last failed
        exact failed

/-- A declaration was found with a content, or there is none. -/
def Grove.Declared (grove : Grove) (content : Option String) (declaration : Option NodeId) :
    Prop :=
  match declaration with
  | none => content = none
  | some found => ∃ noted, content = some noted ∧
      grove.leaf? found = some (.instruction Name.xml noted)

theorem Grove.has_of_leaf? {id : NodeId} {content : Leaf} (leaf : grove.leaf? id = some content) :
    grove.Has id := has_of_kind? (kind?_of_leaf? leaf)

theorem Grove.Declared.keep {content : Option String} {declaration : Option NodeId}
    (declared : grove.Declared content declaration)
    (same : ∀ {id}, grove.Has id → last.shape? id = grove.shape? id) :
    last.Declared content declaration := by
  cases declaration with
  | none => exact declared
  | some found =>
      rcases declared with ⟨noted, equal, leaf⟩
      exact ⟨noted, equal, by rw [leaf?_of_shape? (same (has_of_leaf? leaf)), leaf]⟩

theorem Grove.Declared.kind? {content : Option String} {declaration : Option NodeId}
    {found : NodeId} (declared : grove.Declared content declaration)
    (known : declaration = some found) :
    grove.kind? found = some .instruction := by
  rw [known] at declared
  rcases declared with ⟨noted, _, leaf⟩
  exact kind?_of_leaf? leaf

theorem plantDocument_grows (document : ParsedDocument) (sound : grove.Sound)
    (failure : Grove → Prop) :
    Edit.Ensures (Loading.plantDocument document) grove
      (fun made last => Enlarged grove last ∧ last.Declared document.declaration made.1 ∧
        AllFresh grove (document.nodes.map Tree.kind) made.2 last)
      failure := by
  rw [Loading.plantDocument]
  apply Edit.Ensures.bind
  have declares : Edit.Ensures
      (document.declaration.mapM fun content => plant (.leaf (.instruction Name.xml content)))
      grove
      (fun declaration middle =>
        Enlarged grove middle ∧ middle.Declared document.declaration declaration)
      failure := by
    cases document.declaration with
    | none => exact Edit.ensures_pure ⟨.refl _, rfl⟩
    | some content =>
        change Edit.Ensures (some <$> plant (.leaf (.instruction Name.xml content))) grove _ _
        rw [map_eq_pure_bind]
        apply Edit.Ensures.bind
        have leaf : Edit.Ensures (plant (.leaf (.instruction Name.xml content))) grove _ failure :=
          leaf?_plant_leaf _ failure
        apply (plant_grows (.leaf (.instruction Name.xml content)) sound failure).with_outcome.mono
        · rintro declaration middle ⟨⟨enlarged, _⟩, outcome⟩
          exact Edit.ensures_pure ⟨enlarged, content, rfl, leaf.of_ok outcome⟩
        · rintro last ⟨failed, _⟩
          exact failed
  apply declares.mono
  · rintro declaration middle ⟨enlarged, declared⟩
    apply Edit.Ensures.bind
    apply (mapM_plant_grows document.nodes (enlarged.sound sound) failure).mono
    · rintro ids last ⟨further, fresh⟩
      apply Edit.ensures_pure
      exact ⟨enlarged.trans further, declared.keep further.shape,
        AllFresh.nil.append enlarged fresh further⟩
    · intro last failed
      exact failed
  · intro last failed
    exact failed

end

end XmlGrove
