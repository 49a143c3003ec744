import XmlGrove.Proofs.Building.Laying
import XmlGrove.Proofs.Building.Template

/-!
# Reconstruction of trees

There are two ways to have once more what a tag shows: a builder replays it call by call, and a
template that defines it is instantiated. Both succeed for every tree.
-/

namespace XmlGrove

open Grove Activity

namespace Script

variable {workspace start : Workspace} {builder : Builder} {id : NodeId} {name : Name}
  {attributes : Attributes} {trees : List Tree}

/-! ## Replaying a tag -/

/-- Steps rebuild what a node shows: none of them fails, and when they are done the current node is
still the root of the document, which shows the same tree and is not told apart from the node. -/
structure Site.Rebuilds (site : Site) (steps : List BuildStep) (id : NodeId) (tree : Tree) :
    Prop where
  faultless : ∀ report ∈ (BuildStep.runAll site steps).1, report.fault = none
  builder : (BuildStep.runAll site steps).2.builder = site.builder
  root : (BuildStep.runAll site steps).2.workspace.grove.documentRoot? site.builder.document =
    some site.builder.current
  shown : (BuildStep.runAll site steps).2.workspace.grove.view? site.builder.current = some tree
  same : (BuildStep.runAll site steps).2.workspace.grove.contrast? site.builder.current id =
    .ok none

theorem Site.replays_view {site : Site} {source : Grove} (writable : source.Writable)
    (beyond : site.Beyond source) (shown : source.view? id = some (.tag name attributes trees)) :
    site.Replays (BuildStep.replay source id) trees := by
  rcases view?_tag shown with ⟨children, present, each⟩
  rw [BuildStep.replay, children_of_node? present]
  exact replays_flatMap beyond (fun seen beyond => replays_within writable beyond seen) each

theorem rebuilds_of_laid (reached : Reached (fun act _ => act.Checks) workspace.grove)
    (shown : workspace.grove.view? id = some (.tag name attributes trees))
    (stands : builder.Stands start.grove) (recent : ¬ workspace.grove.Has builder.current)
    (laid : Laid workspace.grove builder.document builder.current (.tag name attributes [])
      start.grove) :
    Site.Rebuilds ⟨start, builder⟩ (BuildStep.replay workspace.grove id) id
      (.tag name attributes trees) := by
  have beyond : Site.Beyond ⟨start, builder⟩ workspace.grove := by
    refine ⟨stands.sound, ?_, laid.retained, recent⟩
    rw [childList?_of_node? laid.node?]
    rfl
  have replays := Site.replays_view reached.writable beyond shown
  have filled := replays.filled
  have rebuilt := filled.view? laid.node?
  refine ⟨replays.faultless, replays.builder, ?_, rebuilt, ?_⟩
  · rcases stands.anchor with ⟨document, present, anchored, _⟩
    have anchor : start.grove.isAnchor document.anchor = true := by
      rw [isAnchor, anchored]
      rfl
    -- Only the root itself got other children, and it is no anchor of a document.
    have plain : ∀ id, start.grove.isAnchor id = true → id ≠ builder.current := by
      rintro _ anchor rfl
      rw [stands.plain] at anchor
      cases anchor
    have kept := (filled.grown.spared plain).documentRoot? stands.sound present anchor
    exact kept.trans laid.documentRoot?
  · apply contrast?_of_view? (filled.grown.sound stands.sound) rebuilt
    exact (beyond.retains filled.grown).view? reached.founded.sound shown

/-- A document is built with what a tag shows below its root. -/
theorem lay_rebuilds (reached : Reached (fun act _ => act.Checks) workspace.grove)
    (shown : workspace.grove.view? id = some (.tag name attributes trees)) :
    Yields (Foundation.forTag name id).lay workspace fun builder start =>
      Site.Rebuilds ⟨start, builder⟩ (BuildStep.replay workspace.grove id) id
        (.tag name attributes trees) := by
  rcases view?_tag shown with ⟨children, present, _⟩
  apply ((lay_forTag_yields name reached.founded.sound (tag?_of_node? present)).and
    (lay_ensures _ reached.founded)).mono
  · rintro builder start ⟨⟨_, recent, laid⟩, stands⟩
    exact rebuilds_of_laid reached shown stands recent laid
  · rintro last ⟨impossible, _⟩
    exact impossible

/-! ## Instantiating a definition -/

theorem instantiate_define_yields (reached : Reached (fun act _ => act.Checks) workspace.grove)
    {tree : Tree} (shown : workspace.grove.view? id = some tree) (host : Name) :
    Yields (do instantiate host (← define id)) workspace fun (parent, added) last =>
      ∃ child, added = [child] ∧ last.grove.children parent = [child] ∧
        last.grove.view? child = some tree ∧ last.grove.contrast? child id = .ok none := by
  have sound := reached.founded.sound
  apply (define_yields reached.writable shown).andThen
  intro value middle defined
  apply (instantiate_yields host (defined.extended.grove.sound sound) defined).mono
  rintro ⟨parent, added⟩ last ⟨after, retained, child, only, own, seen⟩
  exact ⟨child, only, own, seen, contrast?_of_view? after seen (retained.view? sound shown)⟩

/-! ## Both ways -/

/-- Every tag that is viewed can be had once more. A builder for a root with its name and its
attributes replays what is below it, by a call for each node and one to leave each tag, and ends up
at the root, which is not told apart from the tag; no call fails. And the nested template that
defines it makes, attached to a new tag, a node that is not told apart from it either. -/
theorem reconstruction_of_reached {workspace : Workspace} {id : NodeId} {name : Name}
    {attributes : Attributes} {trees : List Tree}
    (reached : Reached (fun act _ => act.Checks) workspace.grove)
    (shown : workspace.grove.view? id = some (.tag name attributes trees)) (host : Name) :
    (∃ builder start, outcome (Foundation.forTag name id).lay workspace = (.ok builder, start) ∧
      Site.Rebuilds ⟨start, builder⟩ (BuildStep.replay workspace.grove id) id
        (.tag name attributes trees)) ∧
    ∃ parent child last, outcome (do instantiate host (← define id)) workspace =
        (.ok (parent, [child]), last) ∧
      last.grove.children parent = [child] ∧
      last.grove.view? child = some (.tag name attributes trees) ∧
      last.grove.contrast? child id = .ok none := by
  constructor
  · exact (lay_rebuilds reached shown).exists_ok
  · rcases (instantiate_define_yields reached shown host).exists_ok with
      ⟨⟨parent, _⟩, last, succeeded, child, rfl, own, seen, same⟩
    exact ⟨parent, child, last, succeeded, own, seen, same⟩

/-- A chest with an owner, a text, a comment, an instruction and a drawer that has texts itself. -/
def chestTree : Tree :=
  .tag ⟨"chest", by decide⟩ (.ofList [(⟨"owner", by decide⟩, "A&B")]) [
    .text "on top", .leaf (.comment "dusty"),
    .tag ⟨"drawer", by decide⟩ {} [.text "", .leaf (.cdata "]]")],
    .leaf (.instruction ⟨"sort", by decide⟩ "by=name")]

/-- A grove that holds the chest and nothing else. -/
def chestGrove : Grove := (Operation.plant chestTree).apply {}

theorem checked_chestGrove : Reached (fun act _ => act.Checks) chestGrove := by
  have writable : chestTree.isWritable = true := by decide
  have available : (Act.operate (.plant chestTree)).Available {} :=
    ⟨fun id member => (by cases member), fun parts equal => (by cases equal)⟩
  exact Reached.start.step available writable

theorem view?_chestGrove : chestGrove.view? ⟨0⟩ = some chestTree := by
  have sprouts : Sprouts {} none ⟨0⟩ chestTree chestGrove := sprouts_plantBelow none chestTree {}
  exact sprouts.shows.viewWithin (by omega)

theorem reconstruction_of_reached_chestGrove :
    Reached (fun act _ => act.Checks) chestGrove ∧ chestGrove.view? ⟨0⟩ = some chestTree ∧
      (∃ builder start, outcome (Foundation.forTag ⟨"chest", by decide⟩ ⟨0⟩).lay
          { grove := chestGrove } = (.ok builder, start) ∧
        Site.Rebuilds ⟨start, builder⟩ (BuildStep.replay chestGrove ⟨0⟩) ⟨0⟩ chestTree) ∧
      ∃ parent child last, outcome (do instantiate ⟨"box", by decide⟩ (← define ⟨0⟩))
          { grove := chestGrove } = (.ok (parent, [child]), last) ∧
        last.grove.children parent = [child] ∧ last.grove.contrast? child ⟨0⟩ = .ok none := by
  let workspace : Workspace := { grove := chestGrove }
  have shown : workspace.grove.view? ⟨0⟩ = some chestTree := view?_chestGrove
  rcases reconstruction_of_reached checked_chestGrove shown ⟨"box", by decide⟩ with
    ⟨replayed, parent, child, last, succeeded, own, _, same⟩
  exact ⟨checked_chestGrove, shown, replayed, parent, child, last, succeeded, own, same⟩

end Script

end XmlGrove
