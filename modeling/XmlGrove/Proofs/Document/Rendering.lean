import XmlGrove.Proofs.Document.History
import XmlGrove.Proofs.Grove.View
import XmlGrove.Proofs.RoundTrip.Returns
import XmlGrove.Proofs.RoundTrip.Utf8
import XmlGrove.Script.DocumentCommand

/-!
# Two ways to render a document

A document is serialized to a text, and it is written to a stream as UTF-8. Both ways put the same
pieces together, and both fail for the same documents. What they come to differs exactly if there
is a carriage return in a piece, since only the writer into memory replaces it.
-/

namespace XmlGrove

open Grove Script Relation

/-! ## Writers -/

namespace Text

theorem inMemory_unset_of_holdsReturn_eq_false {piece : String} (free : holdsReturn piece = false) :
    Newline.unset.inMemory piece = piece := by
  rw [← Bool.not_eq_true, holdsReturn_iff] at free
  rw [Newline.inMemory, normalizeLineEndings_of_not_mem free, String.ofList_toList]

theorem holdsReturn_inMemory_unset (piece : String) :
    holdsReturn (Newline.unset.inMemory piece) = false := by
  rw [← Bool.not_eq_true, holdsReturn_iff, Newline.inMemory, String.toList_ofList]
  exact not_mem_normalizeLineEndings _

theorem renderInStream_unset (pieces : List String) :
    Newline.unset.renderInStream pieces = String.join pieces := by
  rw [Newline.renderInStream]
  change String.join (pieces.map id) = _
  rw [List.map_id]

theorem renderInMemory_unset_eq_iff (pieces : List String) :
    Newline.unset.renderInMemory pieces = Newline.unset.renderInStream pieces ↔
      holdReturn pieces = false := by
  rw [renderInStream_unset, Newline.renderInMemory]
  constructor
  · intro same
    have free : holdReturn (pieces.map Newline.unset.inMemory) = false := by
      rw [holdReturn, List.any_map, List.any_eq_false]
      intro piece _
      rw [Function.comp_apply, holdsReturn_inMemory_unset]
      exact Bool.false_ne_true
    rw [← holdsReturn_join, same, holdsReturn_join] at free
    exact free
  · intro free
    rw [holdReturn, List.any_eq_false] at free
    have kept : pieces.map Newline.unset.inMemory = pieces.map id :=
      List.map_congr_left fun piece member =>
        inMemory_unset_of_holdsReturn_eq_false (Bool.not_eq_true _ ▸ free piece member)
    rw [kept, List.map_id]

end Text

/-! ## Carriage returns in documents -/

namespace Grove

variable {grove : Grove} {id : DocumentId} {layout : Layout} {pieces : List String}

/-- The nodes that make up lines of their own before the root. -/
def opening (grove : Grove) (id : DocumentId) : List NodeId :=
  ((grove.document? id).bind (·.declaration)).toList ++ grove.prologue id

/-- Tell whether there is a carriage return in what is written for a document. -/
def writesReturn (grove : Grove) (layout : Layout) (id : DocumentId) : Bool :=
  (grove.opening id).any (fun node => (grove.leaf? node).any Leaf.holdsReturn) ||
    ((grove.documentRoot? id).bind grove.view?).any (Tree.writesReturn layout)

theorem standaloneLine_eq_ok_iff {node : NodeId} {line : String} :
    grove.standaloneLine node = .ok line ↔ ∃ content, grove.leaf? node = some content ∧
      content.kind ≠ .text ∧ line = content.markup ++ "\n" := by
  rw [standaloneLine]
  cases leaf : grove.leaf? node with
  | none => simp
  | some content => cases content <;> simp [Leaf.standaloneMarkup, Leaf.kind, Except.map, eq_comm]

/-- The lines of nodes are there exactly if the line of each node is. -/
theorem standaloneLines_cons_eq_ok_iff {first : NodeId} {rest : List NodeId}
    {lines : List String} :
    grove.standaloneLines (first :: rest) = .ok lines ↔ ∃ line others,
      grove.standaloneLine first = .ok line ∧ grove.standaloneLines rest = .ok others ∧
        lines = line :: others := by
  rw [standaloneLines]
  cases grove.standaloneLine first with
  | error fault => simp [bind, Except.bind]
  | ok line =>
      cases grove.standaloneLines rest with
      | error fault => simp [bind, Except.bind]
      | ok others => simp [bind, Except.bind, pure, Except.pure, eq_comm]

theorem holdReturn_standaloneLines {nodes : List NodeId} {lines : List String}
    (written : grove.standaloneLines nodes = .ok lines) :
    Text.holdReturn lines = nodes.any fun node => (grove.leaf? node).any Leaf.holdsReturn := by
  induction nodes generalizing lines with
  | nil =>
      cases written
      rfl
  | cons first rest induction =>
      have feed : Text.holdsReturn "\n" = false := by decide
      rcases standaloneLines_cons_eq_ok_iff.1 written with ⟨line, others, head, tail, rfl⟩
      rcases standaloneLine_eq_ok_iff.1 head with ⟨content, leaf, _, rfl⟩
      rw [Text.holdReturn_cons, Text.holdsReturn_append, content.holdsReturn_markup, feed,
        Bool.or_false, induction tail, List.any_cons, leaf, Option.any_some]

theorem Precedes.exists_leaf {node : NodeId} (precedes : grove.Precedes node) :
    ∃ content, grove.leaf? node = some content ∧ content.kind ≠ .text := by
  have kinds : grove.kind? node ≠ some .tag ∧ grove.kind? node ≠ some .text ∧
      grove.kind? node ≠ none := by
    rcases precedes with comment | instruction
    · rw [comment]
      simp
    · rw [instruction]
      simp
  rw [kind?] at kinds
  rw [leaf?]
  cases present : grove.node? node with
  | none => simp [present] at kinds
  | some found =>
      rw [present] at kinds
      cases found with
      | leaf content => exact ⟨content, rfl, by simpa using kinds.2.1⟩
      | tag => simp at kinds
      | unfinished => simp at kinds
      | anchor => simp at kinds

theorem exists_standaloneLines {nodes : List NodeId}
    (precede : ∀ node ∈ nodes, grove.Precedes node) :
    ∃ lines, grove.standaloneLines nodes = .ok lines := by
  induction nodes with
  | nil => exact ⟨[], rfl⟩
  | cons first rest induction =>
      rcases induction fun node member => precede node (List.mem_cons_of_mem first member) with
        ⟨others, tail⟩
      have line : ∃ line, grove.standaloneLine first = .ok line := by
        have leaf := (precede first List.mem_cons_self).exists_leaf
        rcases leaf with ⟨content, leaf, plain⟩
        exact ⟨_, standaloneLine_eq_ok_iff.2 ⟨content, leaf, plain, rfl⟩⟩
      rcases line with ⟨line, head⟩
      exact ⟨line :: others, standaloneLines_cons_eq_ok_iff.2 ⟨line, others, head, tail, rfl⟩⟩

theorem documentPieces_eq_ok_iff : grove.documentPieces layout id = .ok pieces ↔
    ∃ lines root tree, grove.standaloneLines (grove.opening id) = .ok lines ∧
      grove.documentRoot? id = some root ∧ grove.view? root = some tree ∧
        pieces = lines ++ tree.pieces layout := by
  rw [documentPieces, ← opening]
  cases grove.standaloneLines (grove.opening id) with
  | error fault => simp [bind, Except.bind]
  | ok lines =>
      cases grove.documentRoot? id with
      | none => simp [bind, Except.bind]
      | some root =>
          cases viewed : grove.view? root with
          | none => simp [nodePieces, viewed, bind, Except.bind]
          | some tree => simp [nodePieces, viewed, bind, Except.bind, pure, Except.pure, eq_comm]

theorem holdReturn_documentPieces (written : grove.documentPieces layout id = .ok pieces) :
    Text.holdReturn pieces = grove.writesReturn layout id := by
  rcases documentPieces_eq_ok_iff.1 written with ⟨lines, root, tree, opened, found, viewed, rfl⟩
  rw [Text.holdReturn_append, holdReturn_standaloneLines opened, tree.holdReturn_pieces,
    writesReturn, found, Option.bind_some, viewed, Option.any_some]

end Grove

/-! ## Outcomes -/

section

variable {workspace : Workspace} {id : DocumentId} {options : Value} {layout : Layout}

theorem outcome_look_bind_pure (view : Grove → Except Fault α) (transform : α → β) :
    Activity.outcome (look view >>= fun value => pure (transform value)) workspace =
      ((view workspace.grove).map transform, workspace) := by
  have looked : Activity.outcome (look view) workspace = (view workspace.grove, workspace) :=
    Activity.outcome_ofExcept (view workspace.grove) workspace
  rw [Activity.outcome_bind, looked]
  cases view workspace.grove with
  | error fault => rfl
  | ok value => rfl

variable (valid : Indentation.ofValue (workspace.settled options) = .ok (.regular layout))

include valid

theorem outcome_serializeDocument :
    Activity.outcome (serializeDocument id options) workspace =
      ((workspace.grove.documentPieces layout id).map fun pieces =>
        .text (Text.Newline.unset.renderInMemory pieces), workspace) := by
  have settles : Activity.outcome (settled options) workspace =
      (.ok (workspace.settled options), workspace) := rfl
  rw [serializeDocument, Activity.outcome_bind_of_ok settles, valid,
    Activity.outcome_bind_of_ok (Activity.outcome_ofExcept (.ok _) workspace)]
  exact outcome_look_bind_pure _ _

theorem outcome_writeDocument :
    Activity.outcome (writeDocument id options .null) workspace =
      ((workspace.grove.documentPieces layout id).map Text.Newline.unset.renderInStream,
        workspace) := by
  have settles : Activity.outcome (settled options) workspace =
      (.ok (workspace.settled options), workspace) := rfl
  rw [writeDocument, newlineOf,
    Activity.outcome_bind_of_ok (Activity.outcome_ofExcept (.ok _) workspace),
    Activity.outcome_bind_of_ok settles, valid,
    Activity.outcome_bind_of_ok (Activity.outcome_ofExcept (.ok _) workspace)]
  exact outcome_look_bind_pure _ _

end

/-! ## Both ways -/

/-- A document is serialized to one text, and it is written as another one. The workspace stays as
it is, and the bytes that are written are decoded as what was encoded. -/
structure Rendered (workspace : Workspace) (id : DocumentId) (options : Value)
    (serialized written : String) : Prop where
  serializes : Activity.outcome (serializeDocument id options) workspace =
    (.ok (.text serialized), workspace)
  writes : Activity.outcome (writeDocument id options .null) workspace = (.ok written, workspace)
  decoded : Encoding.Charset.utf8.decode? (written.toList.flatMap Encoding.encodeUtf8) =
    some written.toList

/-- Both ways to render a document fail alike, and the workspace stays as it is. -/
structure Refused (workspace : Workspace) (id : DocumentId) (options : Value) (fault : Fault) :
    Prop where
  serializes : Activity.outcome (serializeDocument id options) workspace =
    (.error fault, workspace)
  writes : Activity.outcome (writeDocument id options .null) workspace = (.error fault, workspace)

section

variable {workspace : Workspace} {id : DocumentId} {options : Value} {layout : Layout}

theorem rendered_of_pieces {pieces : List String}
    (valid : Indentation.ofValue (workspace.settled options) = .ok (.regular layout))
    (written : workspace.grove.documentPieces layout id = .ok pieces) :
    Rendered workspace id options (Text.Newline.unset.renderInMemory pieces)
      (Text.Newline.unset.renderInStream pieces) where
  serializes := by
    rw [outcome_serializeDocument valid, written]
    rfl
  writes := by
    rw [outcome_writeDocument valid, written]
    rfl
  decoded := Encoding.decode?_encodeUtf8 _

theorem refused_of_fault {fault : Fault}
    (valid : Indentation.ofValue (workspace.settled options) = .ok (.regular layout))
    (failed : workspace.grove.documentPieces layout id = .error fault) :
    Refused workspace id options fault where
  serializes := by
    rw [outcome_serializeDocument valid, failed]
    rfl
  writes := by
    rw [outcome_writeDocument valid, failed]
    rfl

theorem Refused.not_rendered {fault : Fault} {serialized written : String}
    (refused : Refused workspace id options fault) :
    ¬ Rendered workspace id options serialized written := by
  intro rendered
  have same := refused.writes.symm.trans rendered.writes
  cases same

/-- The root of a document has its anchor above it, and nothing else. -/
theorem Regular.rank_root {grove : Grove} {document : Document} {root : NodeId}
    (regular : grove.Regular []) (present : grove.document? id = some document)
    (found : grove.documentRoot? id = some root) : grove.Rank 1 root := by
  rcases regular.exists_root present with ⟨other, list, known, _⟩
  rw [known] at found
  cases found
  have anchor := isAnchor_of_document? regular.anchored present
  apply Rank.deeper
  · apply regular.sound.listed
    rw [list]
    exact List.mem_append_right _ (List.mem_singleton_self root)
  · exact .top (has_of_isAnchor anchor) (regular.free id document present)

theorem Regular.precedes_of_mem_opening {grove : Grove} {document : Document} {node : NodeId}
    (regular : grove.Regular []) (present : grove.document? id = some document)
    (member : node ∈ grove.opening id) : grove.Precedes node := by
  rcases List.mem_append.1 member with declared | before
  · rw [present, Option.bind_some, Option.mem_toList] at declared
    exact .inr (regular.instructed id document node present declared)
  · rcases regular.exists_root present with ⟨_, _, _, precedes, _⟩
    exact precedes node before

/-- A document can be rendered exactly if no tag node in it lacks its list of children. -/
theorem Regular.exists_pieces_iff {grove : Grove} {document : Document} {root : NodeId}
    (regular : grove.Regular []) (present : grove.document? id = some document)
    (found : grove.documentRoot? id = some root) :
    (∃ pieces, grove.documentPieces layout id = .ok pieces) ↔
      ∀ node, ReflTransGen grove.Lists root node → grove.IsComplete node := by
  have ranked := Regular.rank_root regular present found
  rw [← isSome_viewWithin_iff regular.sound ranked (by omega : _ < 1 + (grove.entries.size + 1)),
    ← view?]
  rcases exists_standaloneLines fun node => Regular.precedes_of_mem_opening regular present with
    ⟨lines, opened⟩
  constructor
  · rintro ⟨pieces, written⟩
    rcases documentPieces_eq_ok_iff.1 written with ⟨_, other, tree, _, known, viewed, _⟩
    rw [found] at known
    cases known
    rw [viewed]
    rfl
  · intro viewed
    rcases Option.isSome_iff_exists.1 viewed with ⟨tree, known⟩
    exact ⟨_, documentPieces_eq_ok_iff.2 ⟨lines, root, tree, opened, found, known, rfl⟩⟩

/-- Both ways to render a document fail alike, or both succeed. Then they come to the same exactly
if no content, no value of an attribute and no indentation that is written holds a carriage return.
They succeed for every document, unless there is a tag node in it whose construction was given
up. -/
theorem serialized_eq_written_iff
    (valid : Indentation.ofValue (workspace.settled options) = .ok (.regular layout)) :
    ((∃ fault, Refused workspace id options fault) ∨ ∃ serialized written,
      Rendered workspace id options serialized written ∧
        (serialized = written ↔ workspace.grove.writesReturn layout id = false)) ∧
    (Reached (fun act grove => ¬ act.Crowds grove) workspace.grove →
      ∀ document, workspace.grove.document? id = some document →
        ∃ root, workspace.grove.documentRoot? id = some root ∧
          ((∃ serialized written, Rendered workspace id options serialized written) ↔
            ∀ node, ReflTransGen workspace.grove.Lists root node →
              workspace.grove.IsComplete node)) := by
  constructor
  · cases equal : workspace.grove.documentPieces layout id with
    | error fault => exact .inl ⟨fault, refused_of_fault valid equal⟩
    | ok pieces =>
        refine .inr ⟨_, _, rendered_of_pieces valid equal, ?_⟩
        rw [Text.renderInMemory_unset_eq_iff, holdReturn_documentPieces equal]
  · intro reached document present
    have regular := reached.regular
    rcases regular.exists_root present with ⟨root, _, found, _⟩
    refine ⟨root, found, ?_⟩
    have written_iff : (∃ pieces, workspace.grove.documentPieces layout id = .ok pieces) ↔ _ :=
      Regular.exists_pieces_iff regular present found
    rw [← written_iff]
    constructor
    · rintro ⟨serialized, written, rendered⟩
      cases equal : workspace.grove.documentPieces layout id with
      | error fault => exact absurd rendered (refused_of_fault valid equal).not_rendered
      | ok pieces => exact ⟨pieces, rfl⟩
    · rintro ⟨pieces, equal⟩
      exact ⟨_, _, rendered_of_pieces valid equal⟩

end

/-- The name of the roots of these examples. -/
def rootName : Name := ⟨"root", by decide⟩

theorem view?_prefacedGrove : prefacedGrove.view? ⟨0⟩ = some (.tag rootName {} []) := by
  have present : prefacedGrove.node? ⟨0⟩ = some (.tag rootName {} []) := by decide
  rw [view?, viewWithin, present]
  simp [viewAllWithin]

theorem serialized_eq_written_prefacedGrove :
    Indentation.ofValue (Workspace.settled { grove := prefacedGrove } .null) =
        .ok (.regular .canonical) ∧
      ∃ text, Rendered { grove := prefacedGrove } ⟨0⟩ .null text text := by
  let workspace : Workspace := { grove := prefacedGrove }
  have valid : Indentation.ofValue (workspace.settled .null) = .ok (.regular .canonical) := rfl
  refine ⟨valid, ?_⟩
  have both : (_ ∨ ∃ serialized written, Rendered workspace ⟨0⟩ .null serialized written ∧ _) ∧ _ :=
    serialized_eq_written_iff valid
  have present : (prefacedGrove.document? ⟨0⟩).isSome = true := by decide
  have rooted : prefacedGrove.documentRoot? ⟨0⟩ = some ⟨0⟩ := by decide
  rcases Option.isSome_iff_exists.1 present with ⟨document, known⟩
  rcases both.2 reached_prefacedGrove document known with ⟨root, found, renders⟩
  have complete : ∀ node, ReflTransGen prefacedGrove.Lists root node →
      prefacedGrove.IsComplete node := by
    rw [rooted] at found
    cases found
    have barren : prefacedGrove.children ⟨0⟩ = [] := by decide
    apply (forall_below_iff ⟨by decide, by decide⟩).2
    rw [barren]
    intro child member
    cases member
  rcases renders.2 complete with ⟨serialized, written, rendered⟩
  rcases both.1 with ⟨fault, refused⟩ | ⟨serialized, written, rendered, same⟩
  · exact absurd rendered refused.not_rendered
  · have free : prefacedGrove.writesReturn .canonical ⟨0⟩ = false := by
      rw [writesReturn, rooted, Option.bind_some, view?_prefacedGrove]
      decide
    rw [same.2 free] at rendered
    exact ⟨written, rendered⟩

/-- The grove of a document whose root holds a carriage return. -/
def returnGrove : Grove :=
  (Act.load {} (Loading.standardLoaders {}) {} none (.node ⟨0⟩) []).apply
    ((Act.operate (.createTag (.text "root") [] [.text "x\ry"])).apply {})

theorem view?_returnGrove :
    returnGrove.view? ⟨0⟩ = some (.tag rootName {} [.text "x\ry"]) := by
  have present : returnGrove.node? ⟨0⟩ = some (.tag rootName {} [⟨1⟩]) := by decide
  have child : returnGrove.node? ⟨1⟩ = some (.leaf (.text "x\ry")) := by decide
  have size : returnGrove.entries.size = 4 := by decide
  simp [view?, viewWithin, viewAllWithin, present, child, size]

/-- A carriage return is written to a stream, while it is not serialized. -/
theorem not_serialized_eq_written :
    ¬ ∀ grove, Reached (fun _ _ => True) grove → ∀ serialized written,
      Rendered { grove := grove } ⟨0⟩ .null serialized written → serialized = written := by
  intro agree
  have reached : Reached (fun _ _ => True) returnGrove := by
    apply Reached.step
    · apply Reached.start.step
      · exact ⟨fun id member => (by cases member), fun parts equal => (by cases equal)⟩
      · trivial
    · exact fun loader member => member
    · trivial
  have rooted : returnGrove.documentRoot? ⟨0⟩ = some ⟨0⟩ := by decide
  have precede : ∀ node ∈ returnGrove.opening ⟨0⟩, returnGrove.Precedes node := by
    have opening : returnGrove.opening ⟨0⟩ = [⟨2⟩] := by decide
    rw [opening]
    intro node member
    rw [List.mem_singleton] at member
    rw [member]
    exact .inr (by decide)
  rcases exists_standaloneLines precede with ⟨lines, opened⟩
  have equal : returnGrove.documentPieces .canonical ⟨0⟩ = _ :=
    documentPieces_eq_ok_iff.2 ⟨lines, _, _, opened, rooted, view?_returnGrove, rfl⟩
  let workspace : Workspace := { grove := returnGrove }
  have valid : Indentation.ofValue (workspace.settled .null) = .ok (.regular .canonical) := rfl
  have same := agree returnGrove reached _ _ (rendered_of_pieces valid equal)
  rw [Text.renderInMemory_unset_eq_iff, holdReturn_documentPieces equal, writesReturn, rooted,
    Option.bind_some, view?_returnGrove] at same
  exact absurd same (by decide)

end XmlGrove
