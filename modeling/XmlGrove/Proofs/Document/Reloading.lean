import XmlGrove.Proofs.Document.Copy
import XmlGrove.Proofs.RoundTrip.Indentation

/-!
# Saving and reloading documents

A document that was serialized is parsed as what it consists of: its declaration, the comments and
processing instructions before its root, and a root that is read as if it had been serialized on
its own. Neither the declaration nor a leaf before the root is taken for something else, and none
of them swallows another one, whatever their contents are.
-/

namespace XmlGrove

open Grammar Grove Relation Script Text

variable {grove : Grove} {id : DocumentId} {document : Document} {layout : Layout}
  {leaves : List Leaf} {nodes : List NodeId}

/-! ## The lines before the root -/

/-- Where there is no choice of line endings, what is rendered are the written characters. -/
theorem toList_renderInMemory_unset (pieces : List String) :
    (Newline.unset.renderInMemory pieces).toList = writtenCharacters pieces := by
  rw [Newline.renderInMemory, String.toList_join, List.flatMap_map, writtenCharacters]
  simp only [Newline.inMemory, String.toList_ofList]

/-- A comment or a processing instruction whose content can be written. -/
structure Leaf.IsProlog (leaf : Leaf) : Prop where
  kind : leaf.kind = .comment ∨ leaf.kind = .instruction
  writable : leaf.isWritable = true

theorem writtenCharacters_line {leaf : Leaf} (other : (Tree.leaf leaf).isText = false)
    (others : List String) :
    writtenCharacters ((leaf.markup ++ "\n") :: others) =
      normalizeLineEndings leaf.markup.toList ++ (['\n'] ++ writtenCharacters others) := by
  rcases Leaf.exists_enclosed_markup other with ⟨rest, enclosed⟩
  have line := normalizeLineEndings_line [] enclosed
  rw [List.nil_append, normalizeLineEndings, List.nil_append] at line
  rw [writtenCharacters_cons, String.toList_append]
  change normalizeLineEndings (leaf.markup.toList ++ ['\n']) ++ _ = _
  rw [line, List.append_assoc]

/-- The lines before a root are a prologue, which consists of the normal forms of the leaves. -/
theorem prologue_of_written (prolog : ∀ leaf ∈ leaves, leaf.IsProlog) :
    Prologue (writtenCharacters (leaves.map fun leaf => leaf.markup ++ "\n"))
      (leaves.map Leaf.normalForm) := by
  induction leaves with
  | nil => exact .nil
  | cons first rest induction =>
      rcases prolog first List.mem_cons_self with ⟨kind, writable⟩
      have others := induction fun leaf member => prolog leaf (List.mem_cons_of_mem first member)
      rw [List.map_cons, List.map_cons]
      cases first with
      | text content => simp [Leaf.kind] at kind
      | cdata content => simp [Leaf.kind] at kind
      | comment content =>
          have read := Prologue.comment (Leaf.comment_of_written writable) blanks_feed others
          have normal : Leaf.normalForm (.comment content) = .comment
              (String.ofList (' ' :: (normalizeLineEndings content.toList ++ [' ']))) := by
            rw [Leaf.normalForm, Leaf.comment.injEq, ← String.toList_inj, String.toList_ofList,
              String.toList_append, String.toList_append, toList_withLineFeeds]
            rfl
          rw [writtenCharacters_line rfl, normal]
          exact read
      | instruction target content =>
          have read :=
            Prologue.instruction (Leaf.instruction_of_written writable) blanks_feed others
          rw [writtenCharacters_line rfl, Leaf.normalForm, toList_withLineFeeds]
          exact read

/-! ## Layouts -/

/-- A layout that adds blank characters at most. -/
def Layout.IsBlank : Layout → Prop
  | canonical => True
  | indented indentation => Blanks indentation.toList

theorem Layout.isBlank_of_ofIndentation {indentation : String}
    (accepted : Layout.ofIndentation (some indentation) = .ok layout) : layout.IsBlank := by
  rw [Layout.ofIndentation] at accepted
  split at accepted
  · rename_i blank
    cases accepted
    rw [Bool.or_eq_true, decide_eq_true_eq] at blank
    rcases blank with rfl | blank
    · exact blanks_nil
    · rw [allBlank, Bool.and_eq_true] at blank
      exact List.all_eq_true.1 blank.2
  · cases accepted

theorem Layout.isBlank_of_ofValue {value : Value}
    (valid : Indentation.ofValue value = .ok (.regular layout)) : layout.IsBlank := by
  unfold Indentation.ofValue at valid
  split at valid
  · cases valid
    trivial
  · rename_i content
    cases accepted : Layout.ofIndentation (some content) with
    | error fault =>
        rw [accepted] at valid
        cases valid
    | ok other =>
        rw [accepted] at valid
        cases valid
        exact Layout.isBlank_of_ofIndentation accepted
  all_goals first
    | cases valid
    | (split at valid <;> cases valid)

/-- Behind the element that a tag node is written as there are blank characters at most. -/
theorem exists_element_of_layout (blank : layout.IsBlank) {name : Name} {attributes : Attributes}
    {children : List Tree} (writable : (Tree.tag name attributes children).isWritable = true) :
    ∃ element after entries pieces, Fragment element (.element name entries pieces) ∧
      Blanks after ∧
      writtenCharacters ((Tree.tag name attributes children).pieces layout) = element ++ after := by
  cases layout with
  | canonical =>
      have fragment := Tree.fragment_of_written (.tag name attributes children) writable
      rw [Tree.toPiece] at fragment
      exact ⟨_, [], _, _, fragment, blanks_nil, (List.append_nil _).symm⟩
  | indented indentation =>
      rcases Tree.exists_fragment_of_indented blank 0 (.tag name attributes children) writable rfl
        with ⟨element, fragment, written⟩
      rcases Tree.exists_toIndentedPiece_tag indentation 0 name attributes children with
        ⟨pieces, shown⟩
      rw [shown] at fragment
      exact ⟨element, ['\n'], _, pieces, fragment, blanks_feed, written⟩

/-! ## What documents are written as and read as -/

/-- What is written for leaves and a tag node is read as the normal forms of the leaves, and as the
root that is read from what is written for the tag node alone. -/
theorem exists_documentOf_of_written (options : ParserOptions) (blank : layout.IsBlank)
    (prolog : ∀ leaf ∈ leaves, leaf.IsProlog) {name : Name} {attributes : Attributes}
    {children : List Tree} (writable : (Tree.tag name attributes children).isWritable = true) :
    ∃ root,
      Parse.document options (Newline.unset.renderInMemory
        ((leaves.map fun leaf => leaf.markup ++ "\n") ++
          (Tree.tag name attributes children).pieces layout)).toList =
        .ok (documentOf options (leaves.map Leaf.normalForm) root) ∧
      (Input.text (Newline.unset.renderInMemory
        ((Tree.tag name attributes children).pieces layout))).parse options =
        .ok ({ prologue := [], root := root }, none) := by
  rcases exists_element_of_layout blank writable with
    ⟨element, after, entries, pieces, fragment, blankAfter, written⟩
  have whole := Document.intro blanks_nil (prologue_of_written prolog) fragment blankAfter
  have alone := Document.intro blanks_nil .nil fragment blankAfter
  refine ⟨.tag name (attributesOf entries) (nodesOf options [] pieces), ?_, ?_⟩
  · rw [toList_renderInMemory_unset, writtenCharacters_append, written]
    exact Parse.document_complete options whole
  · apply Parse.parse_of_derivable
    rw [toList_renderInMemory_unset, written]
    exact alone

theorem filter_keeps {options : ParserOptions} (leaves : List Leaf)
    (keepsComments : options.removeComments = false)
    (keepsInstructions : options.removeInstructions = false) :
    leaves.filter (Parse.keeps options) = leaves := by
  rw [List.filter_eq_self]
  intro leaf _
  cases leaf <;> simp [Parse.keeps, keepsComments, keepsInstructions]

theorem documentOf_of_undeclared {options : ParserOptions} {root : Tree}
    (undeclared : ∀ content, leaves.head? ≠ some (.instruction Name.xml content)) :
    documentOf options leaves root =
      { prologue := leaves.filter (Parse.keeps options), root := root } := by
  unfold documentOf
  split
  · split
    · rename_i target content rest same
      rw [same] at undeclared
      exact absurd rfl (undeclared content)
    · rfl
  · rfl

theorem Leaf.exists_of_normalForm {leaf : Leaf} {target : Name} {content : String}
    (normal : leaf.normalForm = .instruction target content) :
    ∃ written, leaf = .instruction target written := by
  cases leaf with
  | text other => cases normal
  | comment other => cases normal
  | cdata other => cases normal
  | instruction other written =>
      rw [Leaf.normalForm, Leaf.instruction.injEq] at normal
      exact ⟨written, by rw [normal.1]⟩

namespace Grove

/-- The lines of nodes hold the leaves that these are. -/
theorem exists_leaves_of_lines {lines : List String}
    (opened : grove.standaloneLines nodes = .ok lines) :
    ∃ leaves : List Leaf, nodes.map grove.leaf? = leaves.map some ∧
      lines = leaves.map fun leaf => leaf.markup ++ "\n" := by
  induction nodes generalizing lines with
  | nil =>
      cases opened
      exact ⟨[], rfl, rfl⟩
  | cons first rest induction =>
      rcases standaloneLines_cons_eq_ok_iff.1 opened with ⟨line, others, head, tail, rfl⟩
      rcases standaloneLine_eq_ok_iff.1 head with ⟨content, leaf, _, rfl⟩
      rcases induction tail with ⟨leaves, held, rfl⟩
      exact ⟨content :: leaves, by rw [List.map_cons, List.map_cons, leaf, held], rfl⟩

theorem isProlog_of_precedes (writable : grove.Writable)
    (precede : ∀ node ∈ nodes, grove.Precedes node)
    (held : nodes.map grove.leaf? = leaves.map some) : ∀ leaf ∈ leaves, leaf.IsProlog := by
  intro leaf member
  have listed := List.mem_map_of_mem (f := some) member
  rw [← held] at listed
  rcases List.mem_map.1 listed with ⟨node, among, leaf⟩
  refine ⟨?_, writable node _ leaf⟩
  have kind := kind?_of_leaf? leaf
  rcases precede node among with comment | instruction
  · exact .inl (Option.some.inj (kind.symm.trans comment))
  · exact .inr (Option.some.inj (kind.symm.trans instruction))

/-- A parsed document consists of what a document consisted of. The contents are as they are read
after they were written. -/
structure Reloaded (grove : Grove) (id : DocumentId) (document : Document) (layout : Layout)
    (options : ParserOptions) (parsed : ParsedDocument) : Prop where
  declaration : Option.Rel (fun node content =>
      (grove.leaf? node).map Leaf.normalForm = some (.instruction Name.xml content))
    document.declaration parsed.declaration
  prologue : ∃ leaves : List Leaf, (grove.prologue id).map grove.leaf? = leaves.map some ∧
    parsed.prologue = (leaves.map Leaf.normalForm).filter (Parse.keeps options) ∧
    (options.removeComments = false → options.removeInstructions = false →
      parsed.prologue = leaves.map Leaf.normalForm)
  root : ∃ root pieces again, grove.documentRoot? id = some root ∧
    grove.nodePieces layout root = .ok pieces ∧
    (Input.text (Newline.unset.renderInMemory pieces)).parse options =
      .ok ({ prologue := [], root := again }, none) ∧
    parsed.root.difference? again = none

/-- The only declaration is a processing instruction with the target of one. -/
structure IsDeclaredProperly (grove : Grove) (id : DocumentId) (document : Document) : Prop where
  declared : ∀ declaration, document.declaration = some declaration →
    ∃ content, grove.leaf? declaration = some (.instruction Name.xml content)
  undeclared : document.declaration = none → ∀ first, (grove.prologue id).head? = some first →
    ∀ content, grove.leaf? first ≠ some (.instruction Name.xml content)

theorem reloaded_documentOf {root : NodeId} {tree again : Tree} {opening : List Leaf}
    {options : ParserOptions} (present : grove.document? id = some document)
    (proper : grove.IsDeclaredProperly id document)
    (held : (grove.opening id).map grove.leaf? = opening.map some)
    (found : grove.documentRoot? id = some root) (seen : grove.view? root = some tree)
    (parsed : (Input.text (Newline.unset.renderInMemory (tree.pieces layout))).parse options =
      .ok ({ prologue := [], root := again }, none)) :
    grove.Reloaded id document layout options
      (documentOf options (opening.map Leaf.normalForm) again) := by
  have pieces : grove.nodePieces layout root = .ok (tree.pieces layout) := by
    rw [nodePieces, seen]
  have reads : ∃ root pieces result, grove.documentRoot? id = some root ∧
      grove.nodePieces layout root = .ok pieces ∧
      (Input.text (Newline.unset.renderInMemory pieces)).parse options =
        .ok ({ prologue := [], root := result }, none) ∧
      again.difference? result = none :=
    ⟨root, _, again, found, pieces, parsed, Tree.difference?_self again⟩
  rw [Grove.opening, present, Option.bind_some] at held
  cases noted : document.declaration with
  | none =>
      rw [noted, Option.toList_none, List.nil_append] at held
      rw [documentOf_of_undeclared]
      · refine ⟨?_, ⟨opening, held, rfl, filter_keeps _⟩, reads⟩
        rw [noted]
        exact .none
      · intro content declared
        rw [List.head?_map, Option.map_eq_some_iff] at declared
        rcases declared with ⟨leaf, first, normal⟩
        rcases Leaf.exists_of_normalForm normal with ⟨written, rfl⟩
        have heads := congrArg List.head? held
        rw [List.head?_map, List.head?_map, first, Option.map_some, Option.map_eq_some_iff] at heads
        rcases heads with ⟨node, before, leaf⟩
        exact proper.undeclared noted node before written leaf
  | some declaration =>
      rcases proper.declared declaration noted with ⟨content, leaf⟩
      rw [noted, Option.toList_some, List.singleton_append, List.map_cons, leaf] at held
      rcases List.map_eq_cons_iff.1 held.symm with ⟨first, leaves, rfl, same, others⟩
      cases same
      rw [List.map_cons, Leaf.normalForm, documentOf, if_pos rfl]
      refine ⟨?_, ⟨leaves, others.symm, rfl, filter_keeps _⟩, reads⟩
      rw [noted]
      apply Option.Rel.some
      rw [leaf, Option.map_some, Leaf.normalForm]

theorem IsDeclaredProperly.precedes {node : NodeId} (proper : grove.IsDeclaredProperly id document)
    (present : grove.document? id = some document)
    (precede : ∀ node ∈ grove.prologue id, grove.Precedes node)
    (member : node ∈ grove.opening id) : grove.Precedes node := by
  rw [Grove.opening, present, Option.bind_some] at member
  rcases List.mem_append.1 member with declared | before
  · rcases proper.declared node (Option.mem_toList.1 declared) with ⟨content, leaf⟩
    exact .inr (kind?_of_leaf? leaf)
  · exact precede node before

theorem exists_reloaded {pieces : List String} (options : ParserOptions)
    (writable : grove.Writable) (present : grove.document? id = some document)
    (blank : layout.IsBlank) (proper : grove.IsDeclaredProperly id document)
    (precede : ∀ node ∈ grove.prologue id, grove.Precedes node)
    (written : grove.documentPieces layout id = .ok pieces) :
    ∃ parsed, (Input.text (Newline.unset.renderInMemory pieces)).parse options =
        .ok (parsed, parsed.warning?) ∧ grove.Reloaded id document layout options parsed := by
  rcases documentPieces_eq_ok_iff.1 written with ⟨lines, root, tree, opened, found, seen, rfl⟩
  rcases exists_leaves_of_lines opened with ⟨opening, held, rfl⟩
  have prolog := isProlog_of_precedes writable
    (fun node => proper.precedes present precede) held
  have tag := isTag_iff_kind?.1 (List.find?_some found)
  cases tree with
  | leaf content =>
      have kind := kind_of_view? seen
      rw [tag, Option.some.injEq] at kind
      exact absurd kind.symm content.kind_ne_tag
  | tag name attributes children =>
      rcases exists_documentOf_of_written options blank prolog (writable.tree seen) with
        ⟨again, read, alone⟩
      refine ⟨_, ?_, reloaded_documentOf present proper held found seen alone⟩
      rw [Parse.parse_text_eq, read]
      rfl

end Grove

/-- In all histories, what a document was serialized to in any layout is parsed as what the
document consists of, if nothing but comments and processing instructions precedes its root.
Documents that have their shape can be serialized unless there is a tag node in them whose
construction was given up. -/
theorem reloads_of_reached {workspace : Workspace} {format : Value}
    (reached : Reached (fun act _ => act.Checks) workspace.grove)
    (present : workspace.grove.document? id = some document)
    (proper : workspace.grove.IsDeclaredProperly id document)
    (valid : Indentation.ofValue (workspace.settled format) = .ok (.regular layout))
    (options : ParserOptions) :
    ((∀ node ∈ workspace.grove.prologue id, workspace.grove.Precedes node) → ∀ text,
      Activity.outcome (serializeDocument id format) workspace = (.ok (.text text), workspace) →
        ∃ parsed, (Input.text text).parse options = .ok (parsed, parsed.warning?) ∧
          workspace.grove.Reloaded id document layout options parsed) ∧
    (Reached (fun act grove => ¬ act.Crowds grove) workspace.grove →
      (∀ node ∈ workspace.grove.prologue id, workspace.grove.Precedes node) ∧
      ∃ root, workspace.grove.documentRoot? id = some root ∧
        ((∃ text, Activity.outcome (serializeDocument id format) workspace =
          (.ok (.text text), workspace)) ↔ workspace.grove.IsWhole root)) := by
  rw [outcome_serializeDocument valid]
  constructor
  · intro precede text outcome
    cases written : workspace.grove.documentPieces layout id with
    | error fault =>
        rw [written] at outcome
        cases outcome
    | ok pieces =>
        rw [written] at outcome
        cases outcome
        exact exists_reloaded options reached.writable present (Layout.isBlank_of_ofValue valid)
          proper precede written
  · intro uncrowded
    have regular := uncrowded.regular
    rcases regular.exists_root present with ⟨root, _, found, precedes, _⟩
    have written_iff : (∃ pieces, workspace.grove.documentPieces layout id = .ok pieces) ↔ _ :=
      Regular.exists_pieces_iff regular present found
    refine ⟨precedes, root, found, ?_⟩
    rw [IsWhole, ← written_iff]
    constructor
    · rintro ⟨text, outcome⟩
      cases written : workspace.grove.documentPieces layout id with
      | error fault =>
          rw [written] at outcome
          cases outcome
      | ok pieces => exact ⟨pieces, rfl⟩
    · rintro ⟨pieces, written⟩
      rw [written]
      exact ⟨_, rfl⟩

theorem isDeclaredProperly_of_declaration {declaration : NodeId} {content : String}
    (noted : document.declaration = some declaration)
    (leaf : grove.leaf? declaration = some (.instruction Name.xml content)) :
    grove.IsDeclaredProperly id document where
  declared other known := by
    rw [noted] at known
    cases known
    exact ⟨content, leaf⟩
  undeclared none := by
    rw [noted] at none
    cases none

theorem reloads_of_reached_prefacedGrove :
    Reached (fun act _ => act.Checks) prefacedGrove ∧ ∃ document text parsed,
      prefacedGrove.document? ⟨0⟩ = some document ∧
      Activity.outcome (serializeDocument ⟨0⟩ .null) { grove := prefacedGrove } =
        (.ok (.text text), { grove := prefacedGrove }) ∧
      (Input.text text).parse {} = .ok (parsed, parsed.warning?) ∧
      parsed.declaration.isSome = true ∧ parsed.prologue = [.comment " note "] ∧
      prefacedGrove.Reloaded ⟨0⟩ document .canonical {} parsed := by
  let workspace : Workspace := { grove := prefacedGrove }
  have valid : Indentation.ofValue (workspace.settled .null) = .ok (.regular .canonical) := rfl
  have found : (prefacedGrove.document? ⟨0⟩).isSome = true := by decide
  rcases Option.isSome_iff_exists.1 found with ⟨document, present⟩
  have noted : document.declaration = some ⟨1⟩ := by
    have known : (prefacedGrove.document? ⟨0⟩).bind (·.declaration) = some ⟨1⟩ := by
      decide
    rwa [present] at known
  have leaf : prefacedGrove.leaf? ⟨1⟩ = some (.instruction Name.xml
      (Declaration.content Declaration.defaultVersion Declaration.defaultEncoding)) := by
    decide
  have both : (_ → ∀ text, Activity.outcome (serializeDocument ⟨0⟩ .null) workspace = _ → _) ∧ _ :=
    reloads_of_reached checked_prefacedGrove present
      (isDeclaredProperly_of_declaration noted leaf) valid {}
  rcases both.2 reached_prefacedGrove with ⟨precede, root, rooted, serializes⟩
  have whole : prefacedGrove.IsWhole root := by
    have known : prefacedGrove.documentRoot? ⟨0⟩ = some ⟨0⟩ := by decide
    rw [known] at rooted
    cases rooted
    exact fun other way => isComplete_below (Option.isSome_of_eq_some view?_prefacedGrove) way
  rcases serializes.2 whole with ⟨text, outcome⟩
  rcases both.1 precede text outcome with ⟨parsed, read, reloaded⟩
  refine ⟨checked_prefacedGrove, document, text, parsed, present, outcome, read, ?_, ?_, reloaded⟩
  · have declaration := reloaded.declaration
    rw [noted] at declaration
    cases declared : parsed.declaration with
    | none =>
        rw [declared] at declaration
        cases declaration
    | some content => rfl
  · rcases reloaded.prologue with ⟨leaves, held, _, all⟩
    have prologue : (prefacedGrove.prologue ⟨0⟩).map prefacedGrove.leaf? =
        [some (.comment "note")] := by decide
    rw [prologue] at held
    rcases List.map_eq_singleton_iff.1 held.symm with ⟨leaf, rfl, equal⟩
    cases equal
    rw [all rfl rfl]
    decide

/-- A document that was made of a tag node to which an unfinished one was attached. -/
def unfinishedDocumentGrove : Grove :=
  (Act.load {} (Loading.standardLoaders {}) {} none (.node ⟨2⟩) []).apply unfinishedGrove

/-- What was attached to its root keeps a document from being serialized. -/
theorem not_serialized_of_reached :
    ¬ ∀ grove, Reached (fun act _ => act.Checks) grove → grove.Acyclic →
      ∀ id document, grove.document? id = some document →
        grove.IsDeclaredProperly id document →
          ∃ text, Activity.outcome (serializeDocument id .null) { grove := grove } =
            (.ok (.text text), { grove := grove }) := by
  intro serializes
  have reached : Reached (fun act _ => act.Checks) unfinishedDocumentGrove :=
    checked_unfinishedGrove.step (fun loader member => member) trivial
  have acyclic : unfinishedDocumentGrove.Acyclic := acyclic_of_later (by decide)
  have found : (unfinishedDocumentGrove.document? ⟨0⟩).isSome = true := by decide
  rcases Option.isSome_iff_exists.1 found with ⟨document, present⟩
  have noted : document.declaration = some ⟨3⟩ := by
    have known : (unfinishedDocumentGrove.document? ⟨0⟩).bind (·.declaration) = some ⟨3⟩ := by
      decide
    rwa [present] at known
  have leaf : unfinishedDocumentGrove.leaf? ⟨3⟩ = some (.instruction Name.xml
      (Declaration.content Declaration.defaultVersion Declaration.defaultEncoding)) := by
    decide
  rcases serializes _ reached acyclic ⟨0⟩ document present
    (isDeclaredProperly_of_declaration noted leaf) with ⟨text, outcome⟩
  let workspace : Workspace := { grove := unfinishedDocumentGrove }
  have valid : Indentation.ofValue (workspace.settled .null) = .ok (.regular .canonical) := rfl
  have serialized : Activity.outcome (serializeDocument ⟨0⟩ .null) workspace = _ :=
    outcome_serializeDocument valid
  rw [outcome] at serialized
  cases written : unfinishedDocumentGrove.documentPieces .canonical ⟨0⟩ with
  | error fault =>
      rw [written] at serialized
      cases serialized
  | ok pieces =>
      rcases documentPieces_eq_ok_iff.1 written with ⟨_, root, tree, _, rooted, seen, _⟩
      have known : unfinishedDocumentGrove.documentRoot? ⟨0⟩ = some ⟨2⟩ := by decide
      rw [known] at rooted
      cases rooted
      have listed : unfinishedDocumentGrove.Lists ⟨2⟩ ⟨1⟩ := by
        unfold Grove.Lists
        decide
      have finished :=
        (isComplete_below (Option.isSome_of_eq_some seen) (.single listed)).finished
      have unfinished : unfinishedDocumentGrove.isUnfinished ⟨1⟩ = true := by decide
      rw [unfinished] at finished
      cases finished

end XmlGrove
