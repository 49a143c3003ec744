import XmlGrove.Proofs.Failure.Shown

/-!
# The stacks while reading

The stacks of nodes are kept in step with the open tags of the reader of content. A tag has no
list of children before it ends, and what was read for it shows between its identity and that of
the next tag on the stack. Hence no stack is empty when it is popped, and the nodes of a tag that
ends can be attached to it.
-/

namespace XmlGrove

/-! ## Operations that do what a reader does -/

section

variable {α β γ δ : Type}

/-- An operation does what a reader does: it succeeds and its result is related to what was read,
or it fails with the fault of the reader. -/
def Edit.Mirrors (operation : Edit α) (grove : Grove) (reading : Except ParsingFault β)
    (related : β → α → Grove → Prop) : Prop :=
  match reading with
  | .ok read => operation.Yields grove (related read)
  | .error fault => (operation.outcome grove).1 = .error (.parsing fault)

namespace Edit

variable {grove : Grove}

theorem fst_outcome_bind_of_error {first : Edit α} {next : α → Edit β} {fault : Fault}
    (failed : (first.outcome grove).1 = .error fault) :
    (outcome (first >>= next) grove).1 = .error fault := by
  rw [outcome_bind]
  rcases equal : first.outcome grove with ⟨result, last⟩
  rw [equal] at failed
  dsimp only at failed
  rw [failed]

theorem Yields.mirrors {operation : Edit α} {read : β} {related : β → α → Grove → Prop}
    (yields : operation.Yields grove (related read)) :
    operation.Mirrors grove (.ok read) related := yields

/-- What comes before an operation and succeeds is not a matter of the reader. -/
theorem Yields.bind_mirrors {first : Edit α} {next : α → Edit β}
    {reading : Except ParsingFault γ} {related : γ → β → Grove → Prop}
    (yields : first.Yields grove fun value middle =>
      (next value).Mirrors middle reading related) :
    (first >>= next).Mirrors grove reading related := by
  cases reading with
  | ok read => exact Ensures.bind yields
  | error fault =>
      rcases succeeded : first.outcome grove with ⟨failure | value, middle⟩
      · rw [Yields, Ensures, succeeded] at yields
        exact yields.elim
      · rw [Mirrors, outcome_bind_of_ok succeeded]
        exact Ensures.of_ok yields succeeded

theorem Mirrors.bind {first : Edit α} {next : α → Edit β} {reading : Except ParsingFault γ}
    {proceed : γ → Except ParsingFault δ} {related : δ → β → Grove → Prop}
    (mirrors : first.Mirrors grove reading fun read value middle =>
      (next value).Mirrors middle (proceed read) related) :
    (first >>= next).Mirrors grove (reading >>= proceed) related := by
  cases reading with
  | error fault => exact fst_outcome_bind_of_error mirrors
  | ok read => exact Yields.bind_mirrors mirrors

theorem Mirrors.mono {operation : Edit α} {reading : Except ParsingFault β}
    {related weaker : β → α → Grove → Prop} (mirrors : operation.Mirrors grove reading related)
    (weaken : ∀ read value last, reading = .ok read → related read value last →
      weaker read value last) :
    operation.Mirrors grove reading weaker := by
  cases reading with
  | error fault => exact mirrors
  | ok read => exact Yields.mono mirrors fun value last => weaken read value last rfl

theorem Mirrors.map {operation : Edit α} {reading : Except ParsingFault β} {pass : β → δ}
    {related : δ → α → Grove → Prop}
    (mirrors : operation.Mirrors grove reading fun read => related (pass read)) :
    operation.Mirrors grove (reading.map pass) related := by
  cases reading with
  | error fault => exact mirrors
  | ok read => exact mirrors

theorem Mirrors.returns {operation : Edit α} {reading : Except ParsingFault β}
    {transform : α → γ} {related : β → γ → Grove → Prop}
    (mirrors : operation.Mirrors grove reading fun read value =>
      related read (transform value)) :
    Mirrors (operation >>= fun value => pure (transform value)) grove reading related := by
  cases reading with
  | error fault => exact fst_outcome_bind_of_error mirrors
  | ok read => exact Ensures.bind mirrors

end Edit

theorem Parse.parsed_bind_mirrors {reading : Except ParsingFault α} {next : α → Edit β}
    {proceed : α → Except ParsingFault γ} {grove : Grove} {related : γ → β → Grove → Prop}
    (mirrors : ∀ read, reading = .ok read → (next read).Mirrors grove (proceed read) related) :
    (parsed reading >>= next).Mirrors grove (reading >>= proceed) related := by
  cases reading with
  | error fault => rfl
  | ok read => exact mirrors read rfl

end

namespace Parse

open Grove

variable {origin grove last : Grove} {base high higher : Nat} {tag node : NodeId}
  {nodes : List NodeId} {opened : OpenTag} {tree : Tree}

/-! ## Tags on the stacks -/

/-- A started tag with the nodes that were read for it. -/
structure Frame (grove : Grove) (high : Nat) (tag : NodeId) (nodes : List NodeId)
    (opened : OpenTag) : Prop where
  older : tag.index < high
  bare : grove.node? tag = some (.tag opened.name opened.attributes [])
  topmost : grove.parentLink? tag = none
  shows : grove.ShowsAll high (tag.index + 1) nodes opened.childrenReversed.reverse
  free : ∀ node ∈ nodes, grove.parentLink? node = none
  distinct : nodes.Nodup

/-- The started tags and their nodes, innermost first, are those of the open tags. -/
inductive Stack (grove : Grove) (base : Nat) :
    Nat → List NodeId → List (List NodeId) → List OpenTag → Prop
  | nil {high : Nat} : base ≤ high → Stack grove base high [] [] []
  | cons {high : Nat} {tag : NodeId} {nodes : List NodeId} {opened : OpenTag}
      {started : List NodeId} {children : List (List NodeId)} {outer : List OpenTag} :
      Frame grove high tag nodes opened → Stack grove base tag.index started children outer →
      Stack grove base high (tag :: started) (nodes :: children) (opened :: outer)

theorem Frame.transfer (frame : Frame grove high tag nodes opened)
    (keeps : grove.Keeps high last) (above : high ≤ higher) :
    Frame last higher tag nodes opened where
  older := Nat.lt_of_lt_of_le frame.older above
  bare := by
    rw [keeps.node? tag frame.older, frame.bare]
  topmost := by
    rw [keeps.link tag frame.older, frame.topmost]
  shows := frame.shows.transfer (Nat.le_refl _) above fun id _ older => keeps.node? id older
  free := by
    intro node member
    rw [keeps.link node (frame.shows.range node member).2, frame.free node member]
  distinct := frame.distinct

/-- A node that is younger than those of a tag is put behind them. -/
theorem Frame.push (frame : Frame grove high tag nodes opened) (keeps : grove.Keeps high last)
    (shows : last.Shows higher high node tree) (free : last.parentLink? node = none) :
    Frame last higher tag (nodes ++ [node]) (opened.push tree) := by
  have behind := shows.range
  have moved := frame.transfer keeps (Nat.le_of_lt (Nat.lt_of_le_of_lt behind.1 behind.2))
  refine ⟨moved.older, moved.bare, moved.topmost, ?_, ?_, ?_⟩
  · rw [OpenTag.push, List.reverse_cons]
    exact moved.shows.append (.cons (shows.transfer frame.older (Nat.le_refl _) fun _ _ _ => rfl)
      .nil)
  · intro id member
    rcases List.mem_append.1 member with earlier | equal
    · exact moved.free id earlier
    · rw [List.mem_singleton.1 equal, free]
  · apply List.nodup_append.2
    refine ⟨frame.distinct, List.nodup_singleton node, ?_⟩
    intro earlier member other equal
    have before := (frame.shows.range earlier member).2
    rw [List.mem_singleton.1 equal]
    intro same
    rw [same] at before
    omega

namespace Stack

variable {started : List NodeId} {children : List (List NodeId)} {outer : List OpenTag}

theorem base_le (stack : Stack grove base high started children outer) : base ≤ high := by
  induction stack with
  | nil bounded => exact bounded
  | cons frame _ induction => exact Nat.le_trans induction (Nat.le_of_lt frame.older)

/-- While there are open tags, there are started ones. -/
theorem started_ne_nil (stack : Stack grove base high started children (opened :: outer)) :
    started ≠ [] := by
  cases stack with
  | cons => simp

theorem transfer (stack : Stack grove base high started children outer)
    (keeps : grove.Keeps high last) (above : high ≤ higher) :
    Stack last base higher started children outer := by
  induction stack generalizing higher with
  | nil bounded => exact .nil (Nat.le_trans bounded above)
  | cons frame _ induction =>
      exact .cons (frame.transfer keeps above)
        (induction (keeps.mono (Nat.le_of_lt frame.older)) (Nat.le_refl _))

theorem push (stack : Stack grove base high started (nodes :: children) (opened :: outer))
    (keeps : grove.Keeps high last) (shows : last.Shows higher high node tree)
    (free : last.parentLink? node = none) :
    Stack last base higher started ((nodes ++ [node]) :: children)
      (opened.push tree :: outer) := by
  cases stack with
  | cons frame around =>
      exact .cons (frame.push keeps shows free)
        (around.transfer (keeps.mono (Nat.le_of_lt frame.older)) (Nat.le_refl _))

end Stack

/-! ## Progress -/

theorem exists_text_of_textNode? {options : ParserOptions} {raw : List Char} {node : Tree}
    (kept : textNode? options raw = some node) : ∃ content, node = .text content := by
  rw [textNode?] at kept
  split at kept
  · cases kept
  · split at kept
    · cases kept
    · cases kept
      exact ⟨_, rfl⟩

theorem Progress.name_flush (options : ParserOptions) (progress : Progress) :
    (progress.flush options).innermost.name = progress.innermost.name := by
  rw [flush_eq]

theorem Progress.raw_add (options : ParserOptions) (progress : Progress) (node : Tree)
    (next : Cursor) : (progress.add options node next).raw = [] := by
  rw [add, flush_eq]

/-- The open tags, innermost first. -/
def Progress.tags (progress : Progress) : List OpenTag := progress.innermost :: progress.outer

/-- The stacks and the gathered text are those of a reader of content. All nodes on the stacks
were constructed since the original grove. -/
structure Assembly.Represents (origin grove : Grove) (assembly : Assembly) (raw : List Char)
    (tags : List OpenTag) : Prop where
  grown : origin.Keeps origin.entries.size grove
  raw : assembly.raw = raw
  stack : Stack grove origin.entries.size grove.entries.size assembly.started assembly.children
    tags

namespace Assembly.Represents

variable {assembly : Assembly} {raw : List Char} {tags outer : List OpenTag}

theorem size_le (represents : assembly.Represents origin grove raw tags) :
    origin.entries.size ≤ grove.entries.size := represents.stack.base_le

/-- Nodes that are not put on the stacks make no difference. -/
theorem adds (represents : assembly.Represents origin grove raw tags) {ids : List NodeId}
    {trees : List Tree} (added : grove.Adds last ids trees) :
    assembly.Represents origin last raw tags where
  grown := represents.grown.trans (added.keeps.mono represents.size_le)
  raw := represents.raw
  stack := represents.stack.transfer added.keeps added.keeps.size

theorem append (represents : assembly.Represents origin grove raw (opened :: outer))
    (added : grove.Adds last [node] [tree]) :
    (assembly.append node).Yields last fun grown final =>
      grown.Represents origin final raw (opened.push tree :: outer) := by
  have kept := (represents.adds added).grown
  have free := added.free node List.mem_cons_self
  rcases added.shows with _ | ⟨shows, _⟩
  have stack := represents.stack
  rcases represents with ⟨_, raw, _⟩
  rcases assembly with ⟨text, started, children, result⟩
  cases children with
  | nil => cases stack
  | cons nodes children =>
      exact ⟨kept, raw, stack.push added.keeps shows free⟩

/-- Gathered text becomes a node of the innermost tag where it does for the reader. -/
theorem flush {options : ParserOptions} {progress : Progress}
    (represents : assembly.Represents origin grove progress.raw progress.tags) :
    (assembly.flush options).Yields grove fun flushed last =>
      flushed.Represents origin last [] (progress.flush options).tags := by
  rw [Assembly.flush, represents.raw, Progress.flush]
  have emptied : ({ assembly with raw := [] } : Assembly).Represents origin grove []
      progress.tags := ⟨represents.grown, rfl, represents.stack⟩
  rcases kept : textNode? options progress.raw with _ | node
  · exact Edit.ensures_pure emptied
  · rcases exists_text_of_textNode? kept with ⟨content, rfl⟩
    apply Edit.Ensures.bind
    apply (constructLeaf_yields rfl).mono
    intro node middle added
    exact emptied.append added

/-- The innermost tag has the name that the reader of content expects. -/
theorem innermostName (represents : assembly.Represents origin grove raw (opened :: outer)) :
    assembly.innermostName.Yields grove fun name last => name = opened.name ∧ last = grove := by
  have stack := represents.stack
  rcases assembly with ⟨text, started, children, result⟩
  cases stack with
  | cons frame around =>
      rename_i tag _ _ _
      have named : grove.tag? tag = some (opened.name, opened.attributes) := by
        rw [tag?, frame.bare]
      change (requireTag tag >>= fun label => pure label.1).Yields grove _
      rw [requireTag]
      apply Edit.Ensures.bind
      apply Edit.Ensures.bind
      apply Edit.ensures_get
      rw [named]
      exact ⟨rfl, rfl⟩

end Assembly.Represents

/-- What a reader of content comes to, on the side of the stacks: they are in step with the
progress, or the last tag has left them and shows the tree that was read. -/
def Assembly.Reaches (origin grove : Grove) (assembly : Assembly) : Outcome → Prop
  | .continues progress => assembly.Represents origin grove progress.raw progress.tags
  | .complete tree _ =>
    assembly.started = [] ∧ ∃ node, assembly.result = some node ∧ origin.Adds grove [node] [tree]

/-! ## The end of a tag -/

/-- The nodes of the innermost tag can be attached to it. -/
theorem Frame.attachable (frame : Frame grove high tag nodes opened) :
    grove.Attachable tag nodes where
  listed := by
    rw [childList?, frame.bare]
    rfl
  topmost := frame.topmost
  other := by
    intro member
    have behind := (frame.shows.range tag member).1
    omega
  free := frame.free
  distinct := frame.distinct

/-- A tag whose nodes were attached shows the tree that was read for it. -/
theorem Frame.attaches (frame : Frame grove grove.entries.size tag nodes opened)
    (attaches : grove.Attaches tag nodes last) :
    grove.Keeps tag.index last ∧
      last.Shows last.entries.size tag.index tag opened.toTree ∧
      last.parentLink? tag = none := by
  have older := frame.older
  refine ⟨⟨?_, ?_, ?_⟩, ?_, ?_⟩
  · rw [attaches.size]
  · intro id before
    apply attaches.node?
    intro same
    rw [same] at before
    omega
  · intro id before
    apply attaches.link
    intro member
    have behind := (frame.shows.range id member).1
    omega
  · rw [attaches.size]
    apply Shows.tag (Nat.le_refl _) older (attaches.own frame.bare)
    apply frame.shows.transfer (Nat.le_refl _) (Nat.le_refl _)
    intro id behind _
    apply attaches.node?
    intro same
    rw [same] at behind
    omega
  · rw [attaches.link tag frame.attachable.other, frame.topmost]

theorem Assembly.Represents.finish {assembly : Assembly} {progress : Progress}
    (represents : assembly.Represents origin grove [] progress.tags) (name : Name)
    (next : Cursor) :
    (assembly.finish name next.location).Mirrors grove
      (if name = progress.innermost.name then .ok (close progress next)
        else .error (.mismatchedTags progress.innermost.name.text name.text next.location))
      fun outcome finished last => finished.Reaches origin last outcome := by
  rw [Assembly.finish]
  apply Edit.Yields.bind_mirrors
  apply represents.innermostName.mono
  intro present unchanged both
  rcases both with ⟨rfl, rfl⟩
  by_cases same : name = progress.innermost.name
  · rw [if_pos same, if_neg (not_not_intro same)]
    have stack := represents.stack
    have kept := represents.grown
    have nothing := represents.raw
    rcases assembly with ⟨raw, started, children, result⟩
    cases stack with
    | cons frame around =>
        rename_i tag nodes started children
        apply Edit.Yields.bind_mirrors
        apply (appendChildren_yields frame.attachable).mono
        intro _ last attaches
        rcases frame.attaches attaches with ⟨keeps, shows, free⟩
        have grown := kept.trans (keeps.mono around.base_le)
        rw [close]
        generalize progress.outer = outer at around ⊢
        -- Either the outermost tag ended, or the tag is kept as a child of the one around it.
        cases around with
        | nil bounded =>
            apply Edit.Yields.mirrors
            apply Edit.ensures_pure
            refine ⟨rfl, tag, rfl, grown, ?_, by simpa using free⟩
            exact .cons (shows.transfer bounded (Nat.le_refl _) fun _ _ _ => rfl) .nil
        | cons outermost further =>
            apply Edit.Yields.mirrors
            apply Edit.ensures_pure
            exact ⟨grown, nothing,
              (Stack.cons outermost further).push keeps shows free⟩
  · rw [if_neg same, if_pos same]
    rfl

/-! ## Tokens -/

/-- What is read passes the check of the constructor. -/
theorem isWritable_of_readComment {cursor next : Cursor} {content : String}
    (read : readComment cursor = .ok (content, next)) :
    (Leaf.comment content).isWritable = true := by
  rcases readComment_eq_ok_iff.1 read with ⟨text, body, written, rfl, _⟩
  exact Leaf.isWritable_comment written

theorem isWritable_of_readInstruction {cursor next : Cursor} {target : Name} {content : String}
    (read : readInstruction cursor = .ok ((target, content), next)) :
    (Leaf.instruction target content).isWritable = true := by
  rcases readInstruction_eq_ok_iff.1 read with ⟨text, body, written, rfl, _⟩
  exact Leaf.isWritable_instruction written

theorem isWritable_of_readToken {cursor next : Cursor} {content : Leaf}
    (read : readToken cursor = .ok (.leaf content, next)) : content.isWritable = true := by
  rcases readToken_cases read with ⟨_, equal, _⟩ | ⟨_, equal, _⟩ | ⟨_, equal, comment⟩ |
    ⟨_, equal, cdata⟩ | ⟨_, _, equal, instruction⟩ | ⟨_, equal, _⟩
  · cases equal
  · cases equal
  · cases equal
    exact isWritable_of_readComment comment
  · cases equal
    rcases readCData_eq_ok_iff.1 cdata with ⟨text, body, written, rfl, _⟩
    exact Leaf.isWritable_cdata written
  · cases equal
    exact isWritable_of_readInstruction instruction
  · cases equal

/-- A constructed tag that is to be continued is a new innermost tag. -/
theorem Stack.enter {started : List NodeId} {children : List (List NodeId)}
    {outer : List OpenTag} {name : Name} {attributes : Attributes}
    (stack : Stack grove base grove.entries.size started children outer)
    (added : grove.Adds last [node] [.tag name attributes []]) :
    Stack last base last.entries.size (node :: started) ([] :: children)
      (⟨name, attributes, []⟩ :: outer) := by
  have free := added.free node List.mem_cons_self
  rcases added.shows with _ | ⟨shows, _⟩
  cases shows with
  | tag behind before present below =>
      cases below
      exact .cons ⟨before, present, free, .nil, by simp, .nil⟩
        (stack.transfer added.keeps behind)

theorem Assembly.Represents.enter {assembly : Assembly} {raw : List Char}
    {tags : List OpenTag} {name : Name} {attributes : Attributes}
    (represents : assembly.Represents origin grove raw tags)
    (added : grove.Adds last [node] [.tag name attributes []]) :
    (assembly.enter node).Represents origin last raw (⟨name, attributes, []⟩ :: tags) :=
  ⟨(represents.adds added).grown, represents.raw, represents.stack.enter added⟩

/-- A node that is constructed behind the gathered text is appended behind its node. -/
theorem Assembly.Represents.add {options : ParserOptions} {assembly : Assembly}
    {progress : Progress} {construct : Edit NodeId}
    (represents : assembly.Represents origin grove progress.raw progress.tags)
    (constructed : ∀ middle : Grove, construct.Yields middle fun node last =>
      middle.Adds last [node] [tree])
    (next : Cursor) :
    Edit.Yields (do
        let flushed ← assembly.flush options
        let node ← construct
        flushed.append node)
      grove
      fun taken last => taken.Reaches origin last (.continues (progress.add options tree next)) := by
  apply Edit.Ensures.bind
  apply represents.flush.mono
  intro flushed middle represents
  apply Edit.Ensures.bind
  apply (constructed middle).mono
  intro node last added
  apply (represents.append added).mono
  intro taken last represents
  refine ⟨represents.grown, ?_, represents.stack⟩
  rw [represents.raw, Progress.raw_add]

/-- Taking a token keeps the stacks in step with the progress. -/
theorem Assembly.Represents.take {options : ParserOptions} {assembly : Assembly}
    {progress : Progress} {token : Token}
    (represents : assembly.Represents origin grove progress.raw progress.tags)
    (writable : ∀ content, token = .leaf content → content.isWritable = true) (next : Cursor) :
    (assembly.take options next token).Mirrors grove (progress.after options next token)
      fun outcome taken last => taken.Reaches origin last outcome := by
  cases token with
  | text characters =>
      apply Edit.Yields.mirrors
      apply Edit.ensures_pure
      refine ⟨represents.grown, ?_, represents.stack⟩
      rw [represents.raw]
  | endTag name =>
      rw [Assembly.take, Progress.after]
      apply Edit.Yields.bind_mirrors
      apply represents.flush.mono
      intro flushed middle represents
      rw [← progress.name_flush options]
      exact represents.finish name next
  | leaf content =>
      rw [Assembly.take, Progress.after]
      by_cases kept : keeps options content = true
      · rw [if_pos kept, if_pos kept]
        exact represents.add (fun _ => constructLeaf_yields (writable content rfl)) next
      · rw [if_neg kept, if_neg kept]
        apply Edit.Yields.mirrors
        apply Edit.Ensures.bind
        apply (constructLeaf_yields (writable content rfl)).mono
        intro node last added
        apply Edit.ensures_pure
        exact represents.adds added
  | startTag tag =>
      cases tag with
      | empty name attributes =>
          exact represents.add (fun _ => constructTag_yields name attributes) next
      | opening name attributes =>
          apply Edit.Yields.mirrors
          apply Edit.Ensures.bind
          apply represents.flush.mono
          intro flushed middle represents
          apply Edit.Ensures.bind
          apply (constructTag_yields name attributes).mono
          intro node last added
          apply Edit.ensures_pure
          exact represents.enter added

end Parse

end XmlGrove
