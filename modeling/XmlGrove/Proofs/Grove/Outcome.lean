import XmlGrove.Proofs.Grove.Lookup

/-!
# Outcomes of operations

What an operation on a grove comes to: its result, and the grove as it is then, whether the
operation succeeded or not.
-/

namespace XmlGrove

/-- The result of an operation, and the grove after it. -/
def Edit.outcome (operation : Edit α) (grove : Grove) : Except Fault α × Grove :=
  operation.run.run grove

/-- The grove after an operation, whether that succeeded or not. -/
def Edit.after (operation : Edit α) (grove : Grove) : Grove := (operation.outcome grove).2

namespace Edit

/-! ## Outcomes of the parts of operations -/

theorem outcome_pure (value : α) (grove : Grove) :
    outcome (pure value) grove = (.ok value, grove) := rfl

theorem outcome_get (grove : Grove) : outcome (get : Edit Grove) grove = (.ok grove, grove) := rfl

theorem outcome_bind (first : Edit α) (next : α → Edit β) (grove : Grove) :
    outcome (first >>= next) grove =
      match first.outcome grove with
      | (.ok value, middle) => (next value).outcome middle
      | (.error fault, middle) => (.error fault, middle) := by
  change (match first.outcome grove with
    | (result, middle) => StateT.run (ExceptT.bindCont next result) middle) = _
  cases first.outcome grove with
  | mk result middle =>
      cases result with
      | error fault => rfl
      | ok value => rfl

theorem outcome_bind_of_ok {first : Edit α} {next : α → Edit β} {grove middle : Grove}
    {value : α} (succeeded : first.outcome grove = (.ok value, middle)) :
    outcome (first >>= next) grove = (next value).outcome middle := by
  rw [outcome_bind, succeeded]

theorem outcome_bind_of_error {first : Edit α} {next : α → Edit β} {grove middle : Grove}
    {fault : Fault} (failed : first.outcome grove = (.error fault, middle)) :
    outcome (first >>= next) grove = (.error fault, middle) := by
  rw [outcome_bind, failed]

theorem after_bind_of_ok {first : Edit α} {next : α → Edit β} {grove middle : Grove} {value : α}
    (succeeded : first.outcome grove = (.ok value, middle)) :
    (first >>= next).after grove = (next value).after middle := by
  rw [after, outcome_bind_of_ok succeeded, after]

theorem after_bind_pure (operation : Edit α) (transform : α → β) (grove : Grove) :
    after (operation >>= fun value => pure (transform value)) grove = operation.after grove := by
  rw [after, after, outcome_bind]
  split
  · rename_i value middle equal
    rw [equal]
    rfl
  · rename_i fault middle equal
    rw [equal]

/-! ## What operations ensure -/

/-- An operation ensures one property of its result and the grove after it if it succeeds, and
another property of the grove after it if it fails. -/
def Ensures (operation : Edit α) (grove : Grove) (success : α → Grove → Prop)
    (failure : Grove → Prop) : Prop :=
  match operation.outcome grove with
  | (.ok value, last) => success value last
  | (.error _, last) => failure last

/-- An operation succeeds, and ensures a property of its result and the grove after it. -/
abbrev Yields (operation : Edit α) (grove : Grove) (success : α → Grove → Prop) : Prop :=
  Ensures operation grove success fun _ => False

theorem ensures_pure {value : α} {grove : Grove} {success : α → Grove → Prop}
    {failure : Grove → Prop} (holds : success value grove) :
    Ensures (pure value) grove success failure := holds

theorem ensures_throw {fault : Fault} {grove : Grove} {success : α → Grove → Prop}
    {failure : Grove → Prop} (holds : failure grove) :
    Ensures (throw fault) grove success failure := holds

theorem ensures_modify {change : Grove → Grove} {grove : Grove} {success : PUnit → Grove → Prop}
    {failure : Grove → Prop} (holds : success ⟨⟩ (change grove)) :
    Ensures (modify change) grove success failure := holds

theorem ensures_get {grove : Grove} {success : Grove → Grove → Prop} {failure : Grove → Prop}
    (holds : success grove grove) : Ensures get grove success failure := holds

theorem ensures_set {grove changed : Grove} {success : PUnit → Grove → Prop}
    {failure : Grove → Prop} (holds : success ⟨⟩ changed) :
    Ensures (set changed) grove success failure := holds

theorem ensures_create {node : Node} {grove : Grove} {success : NodeId → Grove → Prop}
    {failure : Grove → Prop} (holds : success grove.nextId (grove.add ⟨node, none⟩)) :
    Ensures (create node) grove success failure := holds

theorem ensures_ofExcept {result : Except Fault α} {grove : Grove}
    {success : α → Grove → Prop} {failure : Grove → Prop}
    (succeeding : ∀ value, result = .ok value → success value grove) (failing : failure grove) :
    Ensures (result : Edit α) grove success failure := by
  cases equal : result with
  | error fault => exact failing
  | ok value => exact succeeding value equal

theorem ensures_ite {condition : Prop} [Decidable condition] {first second : Edit α}
    {grove : Grove} {success : α → Grove → Prop} {failure : Grove → Prop}
    (positive : condition → Ensures first grove success failure)
    (negative : ¬ condition → Ensures second grove success failure) :
    Ensures (if condition then first else second) grove success failure := by
  by_cases holds : condition
  · rw [if_pos holds]
    exact positive holds
  · rw [if_neg holds]
    exact negative holds

theorem Ensures.throw_bind {fault : Fault} {next : α → Edit β} {grove : Grove}
    {success : β → Grove → Prop} {failure : Grove → Prop} (holds : failure grove) :
    Ensures (throw fault >>= next) grove success failure := holds

/-- The first part of an operation has to ensure that the rest does the remainder. -/
theorem Ensures.bind {first : Edit α} {next : α → Edit β} {grove : Grove}
    {success : β → Grove → Prop} {failure : Grove → Prop}
    (ensures : Ensures first grove
      (fun value middle => Ensures (next value) middle success failure) failure) :
    Ensures (first >>= next) grove success failure := by
  rw [Ensures] at ensures ⊢
  rw [outcome_bind]
  cases equal : first.outcome grove with
  | mk result middle =>
      rw [equal] at ensures
      cases result with
      | error fault => exact ensures
      | ok value => exact ensures

theorem Ensures.bind_of_ok {first : Edit α} {next : α → Edit β} {grove middle : Grove} {value : α}
    {success : β → Grove → Prop} {failure : Grove → Prop}
    (succeeded : first.outcome grove = (.ok value, middle))
    (ensures : Ensures (next value) middle success failure) :
    Ensures (first >>= next) grove success failure := by
  rw [Ensures, outcome_bind_of_ok succeeded]
  exact ensures

theorem Ensures.mono {operation : Edit α} {grove : Grove}
    {success weaker : α → Grove → Prop} {failure worse : Grove → Prop}
    (ensures : Ensures operation grove success failure)
    (succeeding : ∀ value last, success value last → weaker value last)
    (failing : ∀ last, failure last → worse last) :
    Ensures operation grove weaker worse := by
  rw [Ensures] at ensures ⊢
  split
  · rename_i value last equal
    rw [equal] at ensures
    exact succeeding value last ensures
  · rename_i fault last equal
    rw [equal] at ensures
    exact failing last ensures

/-- Other faults in place of those of an operation change nothing else. -/
theorem Ensures.adapt {operation : Edit α} {translate : Fault → Fault} {grove : Grove}
    {success : α → Grove → Prop} {failure : Grove → Prop}
    (ensures : Ensures operation grove success failure) :
    Ensures (ExceptT.adapt translate operation) grove success failure := by
  have translated : outcome (ExceptT.adapt translate operation) grove =
      ((operation.outcome grove).1.mapError translate, (operation.outcome grove).2) := rfl
  rw [Ensures] at ensures ⊢
  rw [translated]
  cases equal : operation.outcome grove with
  | mk result last =>
      rw [equal] at ensures
      cases result with
      | error fault => exact ensures
      | ok value => exact ensures

theorem Yields.mono {operation : Edit α} {grove : Grove} {success weaker : α → Grove → Prop}
    (yields : operation.Yields grove success)
    (weaken : ∀ value last, success value last → weaker value last) :
    operation.Yields grove weaker :=
  Ensures.mono yields weaken fun _ => id

theorem Yields.ensures {operation : Edit α} {grove : Grove} {success weaker : α → Grove → Prop}
    {failure : Grove → Prop} (yields : operation.Yields grove success)
    (weaken : ∀ value last, success value last → weaker value last) :
    operation.Ensures grove weaker failure :=
  Ensures.mono yields weaken fun _ => False.elim

/-- What an operation ensures goes along with its outcome. -/
theorem Ensures.with_outcome {operation : Edit α} {grove : Grove}
    {success : α → Grove → Prop} {failure : Grove → Prop}
    (ensures : Ensures operation grove success failure) :
    Ensures operation grove
      (fun value last => success value last ∧ operation.outcome grove = (.ok value, last))
      (fun last => failure last ∧ ∃ fault, operation.outcome grove = (.error fault, last)) := by
  rw [Ensures] at ensures ⊢
  split
  · rename_i value last equal
    rw [equal] at ensures
    exact ⟨ensures, equal⟩
  · rename_i fault last equal
    rw [equal] at ensures
    exact ⟨ensures, fault, equal⟩

/-- An operation that ensures two things ensures both. -/
theorem Ensures.and {operation : Edit α} {grove : Grove}
    {success others : α → Grove → Prop} {failure besides : Grove → Prop}
    (former : Ensures operation grove success failure)
    (latter : Ensures operation grove others besides) :
    Ensures operation grove (fun value last => success value last ∧ others value last)
      (fun last => failure last ∧ besides last) := by
  rw [Ensures] at former latter ⊢
  split
  · rename_i value last equal
    rw [equal] at former latter
    exact ⟨former, latter⟩
  · rename_i fault last equal
    rw [equal] at former latter
    exact ⟨former, latter⟩

theorem Ensures.of_ok {operation : Edit α} {grove last : Grove} {value : α}
    {success : α → Grove → Prop} {failure : Grove → Prop}
    (ensures : Ensures operation grove success failure)
    (succeeded : operation.outcome grove = (.ok value, last)) : success value last := by
  rw [Ensures, succeeded] at ensures
  exact ensures

theorem Ensures.of_error {operation : Edit α} {grove last : Grove} {fault : Fault}
    {success : α → Grove → Prop} {failure : Grove → Prop}
    (ensures : Ensures operation grove success failure)
    (failed : operation.outcome grove = (.error fault, last)) : failure last := by
  rw [Ensures, failed] at ensures
  exact ensures

/-- An operation succeeds if its failure would ensure what is not the case. -/
theorem Ensures.exists_ok {operation : Edit α} {grove : Grove}
    {success : α → Grove → Prop} {failure : Grove → Prop}
    (ensures : Ensures operation grove success failure) (never : ∀ last, ¬ failure last) :
    ∃ value last, operation.outcome grove = (.ok value, last) ∧ success value last := by
  rw [Ensures] at ensures
  split at ensures
  · rename_i value last equal
    exact ⟨value, last, equal, ensures⟩
  · exact absurd ensures (never _)

theorem Ensures.after {operation : Edit α} {grove : Grove} {holds : Grove → Prop}
    (ensures : Ensures operation grove (fun _ last => holds last) holds) :
    holds (operation.after grove) := by
  rw [Ensures] at ensures
  rw [Edit.after]
  split at ensures
  · rename_i value last equal
    rw [equal]
    exact ensures
  · rename_i fault last equal
    rw [equal]
    exact ensures

end Edit

end XmlGrove
