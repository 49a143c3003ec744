import XmlGrove.Loading.Loader
import XmlGrove.Proofs.Document.Growth

/-!
# Converted element trees

The conversion of an element tree makes new nodes, which have the kinds of what is converted and
no parents. Whatever is filled meanwhile is among the new nodes.
-/

namespace XmlGrove.Loading

open Grove

variable {grove middle last start : Grove} {namer : Namer} {options : ParserOptions}
  {target : NodeId}

/-! ## Single nodes -/

namespace Item

/-- The kind of the node that is made of a node of an element tree. -/
def kind : Item → NodeKind
  | element .. => .tag
  | comment .. => .comment
  | instruction .. => .instruction
  | entity .. => .text

/-- Tell whether the options let a node of an element tree be converted. -/
def isKept (options : ParserOptions) : Item → Bool
  | comment .. => !options.removeComments
  | instruction .. => !options.removeInstructions
  | element .. | entity .. => true

end Item

/-- What the conversion of a node may come to. -/
def Converted (grove : Grove) (options : ParserOptions) (item : Item) (found : Option NodeId)
    (last : Grove) : Prop :=
  Enlarged grove last ∧
    match found with
    | none => item.isKept options = false
    | some id => item.isKept options = true ∧ Fresh grove item.kind id last

theorem converted_of_fresh {item : Item} {make : Edit NodeId} (kept : item.isKept options = true)
    (makes : Edit.Ensures make grove
      (fun id last => Enlarged grove last ∧ Fresh grove item.kind id last)
      (fun last => last = grove)) :
    Edit.Ensures (some <$> make) grove (Converted grove options item)
      (fun last => last = grove) := by
  rw [map_eq_pure_bind]
  apply Edit.Ensures.bind
  apply makes.mono
  · rintro id last ⟨enlarged, fresh⟩
    exact Edit.ensures_pure ⟨enlarged, kept, fresh⟩
  · intro last same
    exact same

/-- Nothing is done before all local names are told. -/
theorem ensures_createLocalTag {name : String} {attributes : List (String × String)}
    {made : NodeId → Grove → Prop} {failed : Grove → Prop} (untouched : failed grove)
    (creates : ∀ own given, Edit.Ensures (createTag (.text own) given []) grove made failed) :
    Edit.Ensures (createLocalTag namer name attributes) grove made failed := by
  rw [createLocalTag]
  apply Edit.Ensures.bind
  refine Edit.ensures_ofExcept ?_ untouched
  intro own _
  apply Edit.Ensures.bind
  refine Edit.ensures_ofExcept ?_ untouched
  intro given _
  exact creates own given

theorem convertItem_ensures (options : ParserOptions) (item : Item) :
    Edit.Ensures (convertItem namer options item) grove (Converted grove options item)
      (fun last => last = grove) := by
  cases item with
  | comment content tail =>
      rw [convertItem]
      apply Edit.ensures_ite
      · intro removed
        exact Edit.ensures_pure ⟨.refl _, by rw [Item.isKept, removed]; rfl⟩
      · intro kept
        rw [Bool.not_eq_true] at kept
        exact converted_of_fresh (by rw [Item.isKept, kept]; rfl)
          (createLeaf_ensures (.comment content))
  | instruction target content tail =>
      rw [convertItem]
      apply Edit.ensures_ite
      · intro removed
        exact Edit.ensures_pure ⟨.refl _, by rw [Item.isKept, removed]; rfl⟩
      · intro kept
        rw [Bool.not_eq_true] at kept
        apply Edit.Ensures.bind
        refine Edit.ensures_ofExcept ?_ (Eq.refl grove)
        intro name _
        exact converted_of_fresh (by rw [Item.isKept, kept]; rfl)
          (createLeaf_ensures (.instruction name content))
  | entity name tail =>
      rw [convertItem]
      exact converted_of_fresh rfl (createLeaf_ensures _)
  | element name attributes text children tail =>
      rw [convertItem]
      exact converted_of_fresh rfl
        (ensures_createLocalTag rfl fun _ _ => createTag_ensures _ _)

/-! ## Several nodes -/

/-- The kinds of the nodes that several nodes of an element tree are converted to. -/
def keptKinds (options : ParserOptions) (items : List Item) : List NodeKind :=
  (items.filter (·.isKept options)).map Item.kind

theorem convertItems_ensures (options : ParserOptions) (items : List Item) :
    Edit.Ensures (convertItems namer options items) grove
      (fun ids last => Enlarged grove last ∧ AllFresh grove (keptKinds options items) ids last)
      (Enlarged grove) := by
  induction items generalizing grove with
  | nil => exact Edit.ensures_pure ⟨.refl _, .nil⟩
  | cons first rest induction =>
      rw [convertItems]
      apply Edit.Ensures.bind
      apply (convertItem_ensures options first).mono
      · rintro found middle ⟨enlarged, made⟩
        apply Edit.Ensures.bind
        apply induction.mono
        · rintro others last ⟨further, fresh⟩
          apply Edit.ensures_pure
          refine ⟨enlarged.trans further, ?_⟩
          rw [keptKinds]
          cases found with
          | none =>
              rw [List.filter_cons_of_neg (by rw [made]; exact Bool.false_ne_true)]
              exact AllFresh.nil.append enlarged fresh further
          | some id =>
              rw [List.filter_cons_of_pos made.1]
              exact (AllFresh.single made.2).append enlarged fresh further
        · intro last further
          exact enlarged.trans further
      · rintro _ rfl
        exact .refl _

/-! ## What is below an element -/

/-- An operation fills nodes that are later than a given grove, and adds further ones. -/
def Fills (start grove : Grove) (operation : Edit α) (success : α → Prop) : Prop :=
  Edit.Ensures operation grove (fun value last => success value ∧ Grown start.Later grove last)
    (Grown start.Later grove)

namespace Fills

variable {success : α → Prop} {final : β → Prop}

theorem after {operation : Edit α} (grown : Grown start.Later grove middle)
    (fills : Fills start middle operation success) :
    Edit.Ensures operation middle
      (fun value last => success value ∧ Grown start.Later grove last)
      (Grown start.Later grove) := by
  apply Edit.Ensures.mono fills
  · rintro value last ⟨holds, further⟩
    exact ⟨holds, grown.trans further⟩
  · intro last further
    exact grown.trans further

theorem bind {first : Edit α} {next : α → Edit β} (former : Fills start grove first success)
    (latter : ∀ value middle, success value → Grown start.Later grove middle →
      Fills start middle (next value) final) : Fills start grove (first >>= next) final := by
  apply Edit.Ensures.bind
  apply Edit.Ensures.mono former
  · rintro value middle ⟨holds, grown⟩
    exact (latter value middle holds grown).after grown
  · intro last grown
    exact grown

end Fills

theorem fills_appendText (options : ParserOptions) (text : Option String) (sound : grove.Sound)
    (later : start.Later target) :
    Fills start grove (appendText options target text) fun _ => True := by
  rw [appendText]
  split
  · exact Edit.ensures_pure ⟨trivial, .refl _⟩
  · rename_i content _
    apply Edit.Ensures.bind
    apply (appendChild_grows sound (.refl grove) later _).mono
    · intro child last grown
      exact Edit.ensures_pure ⟨trivial, grown⟩
    · intro last grown
      exact grown
    · intro id member
      cases member

/-- The nodes that are still to be filled are later ones. -/
def AllLater (start : Grove) (pending : List (Item × NodeId)) : Prop :=
  ∀ pair ∈ pending, start.Later pair.2

theorem fills_appendItems (options : ParserOptions) (items : List Item)
    (converted : List (Item × NodeId)) (sound : grove.Sound)
    (behind : start.entries.size ≤ grove.entries.size) (later : start.Later target)
    (former : AllLater start converted) :
    Fills start grove (appendItems namer options target converted items) (AllLater start) := by
  induction items generalizing grove converted with
  | nil => exact Edit.ensures_pure ⟨former, .refl _⟩
  | cons item rest induction =>
      rw [appendItems]
      apply Edit.Ensures.bind
      apply (convertItem_ensures options item).mono
      · rintro found middle ⟨enlarged, made⟩
        have soundMiddle := enlarged.sound sound
        cases found with
        | none =>
            apply Fills.after enlarged.grown
            apply (fills_appendText options item.tail soundMiddle later).bind
            intro _ last _ grown
            exact induction converted (grown.sound soundMiddle)
              (Nat.le_trans (Nat.le_trans behind enlarged.size) grown.size) former
        | some id =>
            have fresh := made.2
            have added : start.Later id :=
              fun present => fresh.added (Nat.lt_of_lt_of_le present behind)
            have both : AllLater start ((item, id) :: converted) := by
              intro pair member
              rcases List.mem_cons.1 member with equal | other
              · rw [equal]
                exact added
              · exact former pair other
            apply Edit.Ensures.bind
            -- The new node gets a parent, but it was not there before it was converted.
            apply (appendChild_grows soundMiddle enlarged.grown later _).mono
            · intro child between grown
              have soundBetween := grown.sound sound
              apply Fills.after grown
              apply (fills_appendText options item.tail soundBetween later).bind
              intro _ last _ further
              have soundLast := further.sound soundBetween
              have size := Nat.le_trans (Nat.le_trans behind grown.size) further.size
              split
              · exact induction _ soundLast size both
              · exact induction _ soundLast size former
            · intro last grown
              exact grown
            · intro other member
              rw [Source.nodes, List.mem_singleton] at member
              rw [member]
              exact ⟨fresh.has, fresh.added⟩
      · rintro _ rfl
        exact .refl _

theorem fills_fillPending (options : ParserOptions) (bound : Nat)
    (pending : List (Item × NodeId)) (sound : grove.Sound)
    (behind : start.entries.size ≤ grove.entries.size) (later : AllLater start pending) :
    Fills start grove (fillPending namer options bound pending) fun _ => True := by
  induction bound generalizing grove pending with
  | zero =>
      rw [fillPending]
      exact Edit.ensures_pure ⟨trivial, .refl _⟩
  | succ bound induction =>
      cases pending with
      | nil =>
          rw [fillPending]
          · exact Edit.ensures_pure ⟨trivial, .refl _⟩
          · intro impossible
            cases impossible
      | cons first rest =>
          rcases first with ⟨item, id⟩
          have target : start.Later id := later (item, id) List.mem_cons_self
          rw [fillPending]
          apply (fills_appendText options item.text sound target).bind
          intro _ middle _ grown
          have soundMiddle := grown.sound sound
          have size := Nat.le_trans behind grown.size
          apply (fills_appendItems options item.children [] soundMiddle size target _).bind
          · intro converted last others further
            apply induction _ (further.sound soundMiddle) (Nat.le_trans size further.size)
            intro pair member
            rcases List.mem_append.1 member with new | old
            · exact others pair new
            · exact later pair (List.mem_cons_of_mem _ old)
          · intro pair member
            cases member

/-- An element becomes a tag node without a parent. -/
theorem convertElement_ensures (options : ParserOptions) (item : Item) (sound : grove.Sound) :
    Edit.Ensures (convertElement namer options item) grove
      (fun id last => Enlarged grove last ∧ Fresh grove .tag id last) (Enlarged grove) := by
  rw [convertElement]
  apply Edit.Ensures.bind
  apply (convertItem_ensures options item).mono
  · rintro found middle ⟨enlarged, made⟩
    split
    · rename_i name attributes text children tail id
      have fresh := made.2
      have later : AllLater grove [(Item.element name attributes text children tail, id)] := by
        intro pair member
        rw [List.mem_singleton] at member
        rw [member]
        exact fresh.added
      apply Edit.Ensures.bind
      apply (fills_fillPending options _ _ (enlarged.sound sound) enlarged.size later).mono
      · rintro _ last ⟨_, grown⟩
        apply Edit.ensures_pure
        exact ⟨(enlarged.grown.trans grown).enlarged, fresh.grow grown⟩
      · intro last grown
        exact (enlarged.grown.trans grown).enlarged
    · exact Edit.ensures_throw enlarged
  · rintro _ rfl
    exact .refl _

/-- The nodes that a tree is converted to: what precedes its root, and the root. -/
theorem convertTree_ensures (options : ParserOptions) (preceding : List Item) (item : Item)
    (sound : grove.Sound) :
    Edit.Ensures (convertTree namer options preceding item) grove
      (fun ids last => Enlarged grove last ∧
        AllFresh grove (keptKinds options preceding ++ [.tag]) ids last)
      (Enlarged grove) := by
  rw [convertTree]
  apply Edit.Ensures.bind
  apply (convertItems_ensures options preceding).mono
  · rintro ids middle ⟨enlarged, fresh⟩
    apply Edit.Ensures.bind
    apply (convertElement_ensures options item (enlarged.sound sound)).mono
    · rintro id last ⟨further, root⟩
      apply Edit.ensures_pure
      exact ⟨enlarged.trans further, fresh.append enlarged (.single root) further⟩
    · intro last further
      exact enlarged.trans further
  · intro last enlarged
    exact enlarged

end XmlGrove.Loading
