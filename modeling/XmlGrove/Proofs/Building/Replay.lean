import XmlGrove.Proofs.Building.Filling
import XmlGrove.Proofs.Building.Stack
import XmlGrove.Proofs.Grove.Copy

/-!
# Replaying trees

What a tag shows can be done again with a builder: by one call for each child, and by the calls
for its own children where that is a tag. Such calls fill the node that is current, and when they
are done it is the current one again.
-/

namespace XmlGrove

open Grove Activity

namespace Script

variable {workspace : Workspace} {content : Leaf} {name : Name} {attributes : Attributes}

/-! ## Single calls -/

/-- A builder can fill its current node, which an earlier grove does not have, and all nodes of
that grove are as they were. -/
structure Site.Beyond (site : Site) (source : Grove) : Prop where
  sound : site.workspace.grove.Sound
  listed : (site.workspace.grove.childList? site.builder.current).isSome = true
  retained : Retained source site.workspace.grove
  recent : ¬ source.Has site.builder.current

namespace Builder

variable {builder : Builder} {node : Node} {activity : Action NodeId}

theorem append_gains (sound : workspace.grove.Sound)
    (listed : (workspace.grove.childList? builder.current).isSome = true)
    (makes : MakesNode activity workspace (.leaf content)) :
    Yields (builder.append activity) workspace fun next last => next = builder ∧
      ∃ child, Gained workspace.grove builder.current child (.leaf content) last.grove := by
  have barren : (Node.leaf content).IsBarren := trivial
  rw [append]
  apply Yields.andThen makes
  rintro _ _ ⟨rfl, rfl⟩
  apply Ensures.bind
  apply edit_ensures
  apply (appendChild_gains barren rfl sound listed).mono
  intro _ last gained
  exact ensures_pure ⟨rfl, _, gained⟩

theorem element_gains {id : NodeId} {other : Name} (name : Name) (sound : workspace.grove.Sound)
    (listed : (workspace.grove.childList? builder.current).isSome = true)
    (known : workspace.grove.tag? id = some (other, attributes)) :
    Yields (builder.element (.text name.text) (.attributesOf (.tag id)) .null) workspace
      fun next last => ∃ child, next = builder.enter child ∧
        Gained workspace.grove builder.current child (.tag name attributes []) last.grove := by
  have barren : (Node.tag name attributes []).IsBarren := rfl
  rw [element]
  apply Yields.andThen (newTag_makes_like name known)
  rintro _ _ ⟨rfl, rfl⟩
  apply Ensures.bind
  apply edit_ensures
  apply (appendChild_gains barren rfl sound listed).mono
  intro _ last gained
  exact ensures_pure ⟨_, rfl, gained⟩

end Builder

/-! ## Steps for nodes -/

namespace BuildStep

/-- The call that appends a leaf. -/
def ofLeaf : Leaf → BuildStep
  | .text content => .call "text" [.text content]
  | .comment content => .call "comment" [.text content]
  | .cdata content => .call "cdata" [.text content]
  | .instruction target content => .call "instruction" [.text target.text, .text content]

/-- The steps that append what a node shows, as far as a bound on the depth allows: a call for a
leaf, and for a tag one that begins it, the steps for its children, and one that leaves it. -/
def replayWithin (grove : Grove) : Nat → NodeId → List BuildStep
  | 0, _ => []
  | bound + 1, id =>
    match grove.node? id with
    | some (.leaf content) => [ofLeaf content]
    | some (.tag name _ children) =>
      .call "element" [.text name.text, .attributesOf (.tag id)] ::
        (children.flatMap (replayWithin grove bound) ++ [.call "parent" []])
    | _ => []

/-- The steps that append what all children of a node show. -/
def replay (grove : Grove) (id : NodeId) : List BuildStep :=
  (grove.children id).flatMap (replayWithin grove (grove.entries.size + 1))

variable {site : Site}

theorem runAll_cons (site : Site) (first : BuildStep) (rest : List BuildStep) :
    runAll site (first :: rest) =
      ((run site first).1 ++ (runAll (run site first).2 rest).1,
        (runAll (run site first).2 rest).2) := rfl

theorem runAll_append (site : Site) (first rest : List BuildStep) :
    runAll site (first ++ rest) =
      ((runAll site first).1 ++ (runAll (runAll site first).2 rest).1,
        (runAll (runAll site first).2 rest).2) := by
  induction first generalizing site with
  | nil => rfl
  | cons step steps induction =>
      rw [List.cons_append, runAll_cons, induction, runAll_cons, List.append_assoc]

theorem runAll_call {method : String} {arguments : List Value} {builder : Builder}
    {last : Workspace}
    (succeeded : outcome (site.builder.call method arguments) site.workspace = (.ok builder, last))
    (rest : List BuildStep) :
    runAll site (.call method arguments :: rest) =
      (Site.report ⟨last, builder⟩ method none :: (runAll ⟨last, builder⟩ rest).1,
        (runAll ⟨last, builder⟩ rest).2) := by
  rw [runAll_cons, run, Site.attempt_eq, succeeded]
  rfl

end BuildStep

/-! ## Replays -/

/-- Steps succeed, and the node that is current before them and after them is filled with trees. -/
structure Site.Replays (site : Site) (steps : List BuildStep) (trees : List Tree) : Prop where
  faultless : ∀ report ∈ (BuildStep.runAll site steps).1, report.fault = none
  builder : (BuildStep.runAll site steps).2.builder = site.builder
  filled : Filled site.workspace.grove site.builder.current trees
    (BuildStep.runAll site steps).2.workspace.grove

namespace Site

variable {site last : Site} {source grove : Grove} {child id : NodeId} {bound : Nat} {tree : Tree}
  {steps rest : List BuildStep} {trees more : List Tree}

theorem Beyond.has (beyond : site.Beyond source) :
    site.workspace.grove.Has site.builder.current := by
  rcases Option.isSome_iff_exists.1 beyond.listed with ⟨children, listed⟩
  exact has_of_childList? listed

theorem Beyond.retains (beyond : site.Beyond source)
    (grown : Grown (fun id => id = site.builder.current) site.workspace.grove grove) :
    Retained source grove := by
  refine ⟨Nat.le_trans beyond.retained.size grown.size, ?_⟩
  intro id present
  rw [grown.node? (beyond.retained.has present), beyond.retained.node? present]
  rintro rfl
  exact beyond.recent present

theorem Beyond.fill (beyond : site.Beyond source)
    (filled : Filled site.workspace.grove site.builder.current trees last.workspace.grove)
    (same : last.builder = site.builder) : last.Beyond source where
  sound := filled.grown.sound beyond.sound
  listed := by
    rw [same, isSome_childList?_eq_shape?, filled.grown.shape beyond.has,
      ← isSome_childList?_eq_shape?]
    exact beyond.listed
  retained := beyond.retains filled.grown
  recent := by
    rw [same]
    exact beyond.recent

theorem Beyond.enter {workspace : Workspace} (beyond : site.Beyond source)
    (gained : Gained site.workspace.grove site.builder.current child (.tag name attributes [])
      workspace.grove) : Site.Beyond ⟨workspace, site.builder.enter child⟩ source where
  sound := gained.grown.sound beyond.sound
  listed := by
    rw [Builder.enter, childList?_of_node? gained.node?]
    rfl
  retained := beyond.retains gained.grown
  recent present := gained.recent (beyond.retained.has present)

theorem replays_nil (site : Site) : site.Replays [] [] where
  faultless report member := by cases member
  builder := rfl
  filled := filled_nil _ _

theorem Replays.append (former : site.Replays steps trees)
    (latter : (BuildStep.runAll site steps).2.Replays rest more)
    (has : site.workspace.grove.Has site.builder.current) :
    site.Replays (steps ++ rest) (trees ++ more) where
  faultless := by
    rw [BuildStep.runAll_append]
    intro report member
    rcases List.mem_append.1 member with first | second
    · exact former.faultless report first
    · exact latter.faultless report second
  builder := by
    rw [BuildStep.runAll_append]
    exact latter.builder.trans former.builder
  filled := by
    have filled := latter.filled
    rw [former.builder] at filled
    rw [BuildStep.runAll_append]
    exact former.filled.append filled has

theorem replays_leaf (beyond : site.Beyond source) (writable : content.isWritable = true) :
    site.Replays [.ofLeaf content] [.leaf content] := by
  have called : ∃ method arguments activity, BuildStep.ofLeaf content = .call method arguments ∧
      site.builder.call method arguments = site.builder.append activity ∧
        MakesNode activity site.workspace (.leaf content) := by
    cases content with
    | text text => exact ⟨_, _, _, rfl, rfl, newLeaf_makes writable⟩
    | comment text => exact ⟨_, _, _, rfl, rfl, newLeaf_makes writable⟩
    | cdata text => exact ⟨_, _, _, rfl, rfl, newLeaf_makes writable⟩
    | instruction target text => exact ⟨_, _, _, rfl, rfl, newInstruction_makes writable⟩
  rcases called with ⟨method, arguments, activity, step, call, makes⟩
  rcases (Builder.append_gains beyond.sound beyond.listed makes).exists_ok with
    ⟨_, last, succeeded, rfl, child, gained⟩
  rw [← call] at succeeded
  rw [step]
  constructor
  · rw [BuildStep.runAll_call succeeded]
    intro report member
    rw [List.mem_singleton.1 member]
    rfl
  · rw [BuildStep.runAll_call succeeded]
    rfl
  · rw [BuildStep.runAll_call succeeded]
    exact gained.filled_leaf

/-- What is replayed for a tag leaves the builder where it was, as what is replayed for its
children does. -/
theorem replays_tag (beyond : site.Beyond source)
    (known : site.workspace.grove.tag? id = some (name, attributes))
    (inner : ∀ entered : Site, entered.Beyond source → entered.Replays steps trees) :
    site.Replays
      (.call "element" [.text name.text, .attributesOf (.tag id)] ::
        (steps ++ [.call "parent" []])) [.tag name attributes trees] := by
  rcases (Builder.element_gains name beyond.sound beyond.listed known).exists_ok with
    ⟨_, workspace, succeeded, child, rfl, gained⟩
  have replayed := inner _ (beyond.enter gained)
  have left : ∀ (builder : Builder) (last : Workspace),
      outcome (builder.call "parent" []) last = (.ok builder.leave, last) := fun _ _ => rfl
  have call : site.builder.call "element" [.text name.text, .attributesOf (.tag id)] =
      site.builder.element (.text name.text) (.attributesOf (.tag id)) .null := rfl
  rw [← call] at succeeded
  constructor
  · rw [BuildStep.runAll_call succeeded, BuildStep.runAll_append,
      BuildStep.runAll_call (left _ _)]
    intro report member
    rcases List.mem_cons.1 member with rfl | later
    · rfl
    · rcases List.mem_append.1 later with within | last
      · exact replayed.faultless report within
      · rw [List.mem_singleton.1 last]
        rfl
  · rw [BuildStep.runAll_call succeeded, BuildStep.runAll_append,
      BuildStep.runAll_call (left _ _)]
    change (BuildStep.runAll _ steps).2.builder.leave = _
    rw [replayed.builder, Builder.leave_enter]
  · rw [BuildStep.runAll_call succeeded, BuildStep.runAll_append,
      BuildStep.runAll_call (left _ _)]
    exact gained.filled_tag replayed.filled beyond.has

theorem replays_flatMap {children : List NodeId} {each : NodeId → List BuildStep}
    (beyond : site.Beyond source)
    (replays : ∀ {site : Site} {id tree}, source.viewWithin bound id = some tree →
      site.Beyond source → site.Replays (each id) [tree])
    (seen : List.Forall₂ (fun id tree => source.viewWithin bound id = some tree) children trees) :
    site.Replays (children.flatMap each) trees := by
  induction seen generalizing site with
  | nil => exact replays_nil site
  | cons first rest induction =>
      have former := replays first beyond
      rw [List.flatMap_cons]
      exact former.append (induction (beyond.fill former.filled former.builder)) beyond.has

theorem replays_within (writable : source.Writable) (beyond : site.Beyond source)
    (seen : source.viewWithin bound id = some tree) :
    site.Replays (BuildStep.replayWithin source bound id) [tree] := by
  induction bound generalizing id tree site with
  | zero =>
      rw [viewWithin] at seen
      cases seen
  | succ bound induction =>
      rcases viewWithin_cases seen with ⟨content, present, rfl⟩ |
        ⟨smaller, name, attributes, children, trees, equal, present, rfl, each⟩
      · rw [BuildStep.replayWithin, present]
        apply replays_leaf beyond
        exact writable id content (by rw [leaf?, present])
      · cases equal
        have same := beyond.retained.node? (has_of_node? present)
        rw [BuildStep.replayWithin, present]
        exact replays_tag beyond (tag?_of_node? (same.trans present)) fun entered further =>
          replays_flatMap further (fun seen beyond => induction beyond seen) each

end Site

end Script

end XmlGrove
