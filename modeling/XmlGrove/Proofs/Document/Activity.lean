import XmlGrove.Proofs.Grove.Outcome
import XmlGrove.Script.Workspace

/-!
# What activities ensure

Loading and scripts do operations on a grove within a state of their own. What an activity
ensures is said about that state as it is then, whether the activity succeeded or not; an
operation on the grove ensures there what it ensures on its own.
-/

namespace XmlGrove

namespace Activity

variable {state last : σ} {success weaker : α → σ → Prop} {failure worse : σ → Prop}

/-- The result of an activity, and the state after it. -/
def outcome (activity : ExceptT Fault (StateM σ) α) (state : σ) : Except Fault α × σ :=
  activity.run.run state

/-- An activity ensures one property of its result and the state after it if it succeeds, and
another property of the state after it if it fails. -/
def Ensures (activity : ExceptT Fault (StateM σ) α) (state : σ) (success : α → σ → Prop)
    (failure : σ → Prop) : Prop :=
  match outcome activity state with
  | (.ok value, last) => success value last
  | (.error _, last) => failure last

/-- An activity succeeds, and ensures a property of its result and the state after it. -/
abbrev Yields (activity : ExceptT Fault (StateM σ) α) (state : σ) (success : α → σ → Prop) :
    Prop :=
  Ensures activity state success fun _ => False

/-! ## Single steps -/

theorem ensures_pure {value : α} (holds : success value state) :
    Ensures (pure value) state success failure := holds

theorem ensures_throw {fault : Fault} (holds : failure state) :
    Ensures (throw fault) state success failure := holds

theorem ensures_get {success : σ → σ → Prop} (holds : success state state) :
    Ensures get state success failure := holds

theorem ensures_modify {change : σ → σ} {success : PUnit → σ → Prop}
    (holds : success ⟨⟩ (change state)) : Ensures (modify change) state success failure := holds

theorem outcome_ofExcept (result : Except Fault α) (state : σ) :
    outcome (MonadExcept.ofExcept result) state = (result, state) := by
  cases result with
  | error fault => rfl
  | ok value => rfl

theorem ensures_ofExcept {result : Except Fault α}
    (succeeding : ∀ value, result = .ok value → success value state) (failing : failure state) :
    Ensures (MonadExcept.ofExcept result) state success failure := by
  cases equal : result with
  | error fault => exact failing
  | ok value => exact succeeding value equal

theorem ensures_ite {condition : Prop} [Decidable condition]
    {first second : ExceptT Fault (StateM σ) α}
    (positive : condition → Ensures first state success failure)
    (negative : ¬ condition → Ensures second state success failure) :
    Ensures (if condition then first else second) state success failure := by
  by_cases holds : condition
  · rw [if_pos holds]
    exact positive holds
  · rw [if_neg holds]
    exact negative holds

/-! ## Composition -/

theorem outcome_bind (first : ExceptT Fault (StateM σ) α) (next : α → ExceptT Fault (StateM σ) β)
    (state : σ) :
    outcome (first >>= next) state =
      match outcome first state with
      | (.ok value, middle) => outcome (next value) middle
      | (.error fault, middle) => (.error fault, middle) := by
  change (match outcome first state with
    | (result, middle) => StateT.run (ExceptT.bindCont next result) middle) = _
  cases outcome first state with
  | mk result middle =>
      cases result with
      | error fault => rfl
      | ok value => rfl

theorem outcome_bind_of_ok {first : ExceptT Fault (StateM σ) α}
    {next : α → ExceptT Fault (StateM σ) β} {state middle : σ} {value : α}
    (succeeded : outcome first state = (.ok value, middle)) :
    outcome (first >>= next) state = outcome (next value) middle := by
  rw [outcome_bind, succeeded]

theorem Ensures.bind {first : ExceptT Fault (StateM σ) α}
    {next : α → ExceptT Fault (StateM σ) β} {success : β → σ → Prop}
    (ensures : Ensures first state
      (fun value middle => Ensures (next value) middle success failure) failure) :
    Ensures (first >>= next) state success failure := by
  rw [Ensures] at ensures ⊢
  rw [outcome_bind]
  cases equal : outcome first state with
  | mk result middle =>
      rw [equal] at ensures
      cases result with
      | error fault => exact ensures
      | ok value => exact ensures

theorem Ensures.bind_of_ok {first : ExceptT Fault (StateM σ) α}
    {next : α → ExceptT Fault (StateM σ) β} {success : β → σ → Prop} {middle : σ} {value : α}
    (succeeded : outcome first state = (.ok value, middle))
    (ensures : Ensures (next value) middle success failure) :
    Ensures (first >>= next) state success failure := by
  rw [Ensures, outcome_bind_of_ok succeeded]
  exact ensures

theorem Ensures.mono {activity : ExceptT Fault (StateM σ) α}
    (ensures : Ensures activity state success failure)
    (succeeding : ∀ value last, success value last → weaker value last)
    (failing : ∀ last, failure last → worse last) : Ensures activity state weaker worse := by
  rw [Ensures] at ensures ⊢
  split
  · rename_i value last equal
    rw [equal] at ensures
    exact succeeding value last ensures
  · rename_i fault last equal
    rw [equal] at ensures
    exact failing last ensures

theorem Yields.mono {activity : ExceptT Fault (StateM σ) α}
    (yields : Yields activity state success)
    (weaken : ∀ value last, success value last → weaker value last) :
    Yields activity state weaker :=
  Ensures.mono yields weaken fun _ => id

/-- What follows an activity that succeeds is all that can fail. -/
theorem Yields.andThen {first : ExceptT Fault (StateM σ) α}
    {next : α → ExceptT Fault (StateM σ) β} {between : α → σ → Prop} {success : β → σ → Prop}
    (former : Yields first state between)
    (latter : ∀ value middle, between value middle → Ensures (next value) middle success failure) :
    Ensures (first >>= next) state success failure := by
  apply Ensures.bind
  apply Ensures.mono former latter
  intro last impossible
  exact impossible.elim

/-- Where nothing is said about failures, one part follows the other. -/
theorem Ensures.andThen {first : ExceptT Fault (StateM σ) α}
    {next : α → ExceptT Fault (StateM σ) β} {between : α → σ → Prop} {success : β → σ → Prop}
    (former : Ensures first state between failure)
    (latter : ∀ value middle, between value middle →
      Ensures (next value) middle success fun _ => True) :
    Ensures (first >>= next) state success fun _ => True := by
  apply Ensures.bind
  apply former.mono latter
  intro last _
  trivial

/-- What follows an activity that changes nothing starts where that did. -/
theorem Ensures.bind_looking {first : ExceptT Fault (StateM σ) α}
    {next : α → ExceptT Fault (StateM σ) β} {success : β → σ → Prop}
    (looks : Ensures first state (fun _ last => last = state) (fun last => last = state))
    (failing : failure state) (rest : ∀ value, Ensures (next value) state success failure) :
    Ensures (first >>= next) state success failure := by
  apply Ensures.bind
  apply looks.mono
  · rintro value _ rfl
    exact rest value
  · rintro _ rfl
    exact failing

theorem Yields.exists_ok {activity : ExceptT Fault (StateM σ) α}
    (yields : Yields activity state success) :
    ∃ value last, outcome activity state = (.ok value, last) ∧ success value last := by
  rw [Yields, Ensures] at yields
  split at yields
  · rename_i value last equal
    exact ⟨value, last, equal, yields⟩
  · exact yields.elim

/-- An activity that ensures two things ensures both. -/
theorem Ensures.and {activity : ExceptT Fault (StateM σ) α} {others : α → σ → Prop}
    {besides : σ → Prop} (former : Ensures activity state success failure)
    (latter : Ensures activity state others besides) :
    Ensures activity state (fun value last => success value last ∧ others value last)
      (fun last => failure last ∧ besides last) := by
  rw [Ensures] at former latter ⊢
  split
  · rename_i value last equal
    rw [equal] at former latter
    exact ⟨former, latter⟩
  · rename_i fault last equal
    rw [equal] at former latter
    exact ⟨former, latter⟩

theorem Ensures.of_ok {activity : ExceptT Fault (StateM σ) α} {value : α}
    (ensures : Ensures activity state success failure)
    (succeeded : outcome activity state = (.ok value, last)) : success value last := by
  rw [Ensures, succeeded] at ensures
  exact ensures

theorem Ensures.of_error {activity : ExceptT Fault (StateM σ) α} {fault : Fault}
    (ensures : Ensures activity state success failure)
    (failed : outcome activity state = (.error fault, last)) : failure last := by
  rw [Ensures, failed] at ensures
  exact ensures

/-- What an activity ensures whether it succeeds or not. -/
theorem Ensures.after {activity : ExceptT Fault (StateM σ) α} {holds : σ → Prop}
    (ensures : Ensures activity state (fun _ last => holds last) holds) :
    holds (outcome activity state).2 := by
  rw [Ensures] at ensures
  split at ensures
  · rename_i value last equal
    rw [equal]
    exact ensures
  · rename_i fault last equal
    rw [equal]
    exact ensures

theorem outcome_tryCatch (activity : ExceptT Fault (StateM σ) α)
    (handle : Fault → ExceptT Fault (StateM σ) α) (state : σ) :
    outcome (tryCatch activity handle) state =
      match outcome activity state with
      | (.ok value, last) => (.ok value, last)
      | (.error fault, last) => outcome (handle fault) last := by
  unfold outcome ExceptT.run StateT.run
  simp only [tryCatch, tryCatchThe, MonadExceptOf.tryCatch, ExceptT.tryCatch, ExceptT.mk, bind,
    StateT.bind]
  cases activity state with
  | mk result last => cases result <;> rfl

/-- An attempt does not fail: what is left of a failing one is its fault. -/
theorem Ensures.attempt {activity : ExceptT Fault (StateM σ) α}
    {attempted : Except Fault α → σ → Prop}
    (ensures : Ensures activity state (fun value last => attempted (.ok value) last)
      (fun last => ∀ fault, attempted (.error fault) last)) :
    Ensures (tryCatch (Except.ok <$> activity) fun fault => pure (.error fault)) state attempted
      failure := by
  rw [Ensures] at ensures ⊢
  rw [outcome_tryCatch, map_eq_pure_bind, outcome_bind]
  cases equal : outcome activity state with
  | mk result last =>
      rw [equal] at ensures
      cases result with
      | error fault => exact ensures fault
      | ok value => exact ensures

end Activity

/-! ## Operations on the grove within an activity -/

theorem Loading.edit_ensures {operation : Edit α} {state : Loading.State}
    {success : α → Loading.State → Prop} {failure : Loading.State → Prop}
    (ensures : Edit.Ensures operation state.grove
      (fun value last => success value { state with grove := last })
      (fun last => failure { state with grove := last })) :
    Activity.Ensures (Loading.edit operation) state success failure := by
  rw [Loading.edit]
  apply Activity.Ensures.bind
  apply Activity.ensures_get
  rw [Edit.Ensures, Edit.outcome] at ensures
  cases equal : operation.run.run state.grove with
  | mk result last =>
      rw [equal] at ensures
      cases result with
      | error fault => exact ensures
      | ok value => exact ensures

theorem Script.edit_ensures {operation : Edit α} {workspace : Script.Workspace}
    {success : α → Script.Workspace → Prop} {failure : Script.Workspace → Prop}
    (ensures : Edit.Ensures operation workspace.grove
      (fun value last => success value { workspace with grove := last })
      (fun last => failure { workspace with grove := last })) :
    Activity.Ensures (Script.edit operation) workspace success failure := by
  rw [Script.edit]
  apply Activity.Ensures.bind
  apply Activity.ensures_get
  rw [Edit.Ensures, Edit.outcome] at ensures
  cases equal : operation.run.run workspace.grove with
  | mk result last =>
      rw [equal] at ensures
      cases result with
      | error fault => exact ensures
      | ok value => exact ensures

/-- An operation that only looks at the grove. -/
theorem Script.edit_looks {operation : Edit α} {workspace : Script.Workspace}
    {success : α → Script.Workspace → Prop} {failure : Script.Workspace → Prop}
    (looks : Edit.Ensures operation workspace.grove
      (fun value last => last = workspace.grove ∧ success value workspace)
      (fun last => last = workspace.grove ∧ failure workspace)) :
    Activity.Ensures (Script.edit operation) workspace success failure := by
  apply edit_ensures
  apply looks.mono
  · rintro value last ⟨same, holds⟩
    rw [same]
    exact holds
  · rintro last ⟨same, holds⟩
    rw [same]
    exact holds

theorem Script.edit_of_outcome {operation : Edit α} {workspace : Script.Workspace}
    {success : α → Script.Workspace → Prop} {failure : Script.Workspace → Prop} {value : α}
    {last : Grove} (succeeded : operation.outcome workspace.grove = (.ok value, last))
    (holds : success value { workspace with grove := last }) :
    Activity.Ensures (Script.edit operation) workspace success failure := by
  apply edit_ensures
  rw [Edit.Ensures, succeeded]
  exact holds

theorem Script.ensures_currentGrove {workspace : Script.Workspace}
    {success : Grove → Script.Workspace → Prop} {failure : Script.Workspace → Prop}
    (holds : success workspace.grove workspace) :
    Activity.Ensures Script.currentGrove workspace success failure := holds

theorem Script.look_looks (view : Grove → Except Fault α) (workspace : Script.Workspace) :
    Activity.Ensures (Script.look view) workspace (fun _ last => last = workspace)
      (fun last => last = workspace) := by
  rw [Script.look]
  apply Activity.Ensures.bind
  apply ensures_currentGrove
  exact Activity.ensures_ofExcept (fun _ _ => rfl) rfl

theorem Script.load_ensures {activity : Loading.Load α} {workspace : Script.Workspace}
    {success : α → Script.Workspace → Prop} {failure : Script.Workspace → Prop}
    (ensures : Activity.Ensures activity { grove := workspace.grove, notes := workspace.notes }
      (fun value last => success value { workspace with grove := last.grove, notes := last.notes })
      (fun last => failure { workspace with grove := last.grove, notes := last.notes })) :
    Activity.Ensures (Script.load activity) workspace success failure := by
  rw [Script.load]
  apply Activity.Ensures.bind
  apply Activity.ensures_get
  rw [Activity.Ensures, Activity.outcome] at ensures
  cases equal : activity.run.run { grove := workspace.grove, notes := workspace.notes } with
  | mk result last =>
      rw [equal] at ensures
      simp only [equal]
      cases result with
      | error fault => exact ensures
      | ok value => exact ensures

end XmlGrove
