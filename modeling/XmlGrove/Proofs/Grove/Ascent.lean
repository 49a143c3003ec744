import XmlGrove.Proofs.Grove.Lineage

/-!
# Ways up

Links that end at a topmost node are what the lineage consists of, whether links elsewhere form
cycles or not. So it is known what tree a node is in without looking at others.
-/

namespace XmlGrove.Grove

variable {grove after : Grove} {id parent anchor : NodeId} {above others : List NodeId}
  {document : DocumentId}

/-- The links from a node lead to nodes, the last one of which has no parent. -/
inductive Ascent (grove : Grove) : NodeId → List NodeId → Prop
  | top {id : NodeId} (free : grove.parentLink? id = none) : grove.Ascent id []
  | link {id parent : NodeId} {above : List NodeId} (linked : grove.parentLink? id = some parent)
      (ascent : grove.Ascent parent above) : grove.Ascent id (parent :: above)

namespace Ascent

theorem unique (ascent : grove.Ascent id above) (second : grove.Ascent id others) :
    above = others := by
  induction ascent generalizing others with
  | top free =>
      cases second with
      | top => rfl
      | link linked =>
          rw [free] at linked
          cases linked
  | link linked ascent induction =>
      cases second with
      | top free =>
          rw [free] at linked
          cases linked
      | link linkedToo second =>
          rw [linked, Option.some.injEq] at linkedToo
          subst linkedToo
          rw [induction second]

theorem exists_shorter (ascent : grove.Ascent id above) :
    ∀ upper ∈ above, ∃ rest, grove.Ascent upper rest ∧ rest.length < above.length := by
  induction ascent with
  | top => simp
  | @link id parent above linked ascent induction =>
      intro upper member
      rcases List.mem_cons.1 member with rfl | later
      · exact ⟨above, ascent, by simp⟩
      · rcases induction upper later with ⟨rest, way, shorter⟩
        exact ⟨rest, way, by simp; omega⟩

/-- No node is above itself, since the way up from there would be shorter. -/
theorem nodup (ascent : grove.Ascent id above) : above.Nodup := by
  induction ascent with
  | top => exact .nil
  | @link id parent above linked ascent induction =>
      refine List.nodup_cons.2 ⟨?_, induction⟩
      intro member
      rcases ascent.exists_shorter parent member with ⟨rest, way, shorter⟩
      rw [ascent.unique way] at shorter
      exact Nat.lt_irrefl _ shorter

theorem follow_eq (ascent : grove.Ascent id above) {bound : Nat} (enough : above.length ≤ bound) :
    grove.follow bound (grove.parentLink? id) = above := by
  induction ascent generalizing bound with
  | top free => rw [free, follow_none]
  | link linked ascent induction =>
      cases bound with
      | zero => cases enough
      | succ bound => rw [linked, follow, induction (Nat.le_of_succ_le_succ enough)]

theorem lineage_eq (sound : grove.Sound) (ascent : grove.Ascent id above) :
    grove.lineage id = above := by
  have present : ∀ upper ∈ above, grove.Has upper := by
    induction ascent with
    | top => simp
    | link linked ascent induction =>
        intro upper member
        rcases List.mem_cons.1 member with rfl | later
        · exact (sound.target linked).1
        · exact induction upper later
  exact ascent.follow_eq (length_le_of_has ascent.nodup present)

theorem documentOf?_eq (sound : grove.Sound) (ascent : grove.Ascent id above) :
    grove.documentOf? id = grove.anchored? (above.getLast?.getD id) := by
  rw [documentOf?, Grove.top, ascent.lineage_eq sound]

/-- A child is in the document that its parent is in. -/
theorem documentOf?_of_link (sound : grove.Sound) (ascent : grove.Ascent parent above)
    (linked : grove.parentLink? id = some parent) :
    grove.documentOf? id = grove.documentOf? parent := by
  rw [(Ascent.link linked ascent).documentOf?_eq sound, ascent.documentOf?_eq sound,
    List.getLast?_cons, Option.getD_some]

/-- Where links are kept, so are ways up to nodes that remain on top. -/
theorem keep (ascent : grove.Ascent id above)
    (links : ∀ {child owner}, grove.Link child owner → after.Link child owner)
    (free : after.parentLink? (above.getLast?.getD id) = none) : after.Ascent id above := by
  induction ascent with
  | top => exact .top free
  | @link id parent above linked ascent induction =>
      rw [List.getLast?_cons, Option.getD_some] at free
      exact .link (links linked) (induction free)

end Ascent

end XmlGrove.Grove
