import Mathlib.Data.List.InsertIdx
import Mathlib.Data.List.Perm.Basic
import XmlGrove.Loading.Registry

/-!
# The order of registered loaders

A loader gets its place when it is registered, by the positions that others have
at that time, and each later registration may shift it. What a constraint asks
for is an order of pairs though, and an insertion keeps those, wherever it takes
place. Thus all constraints that could be met at their time are met in the end.
-/

namespace XmlGrove.Loading

/-- One loader is tried before another one. -/
def Precedes (order : List String) (former latter : String) : Prop :=
  [former, latter].Sublist order

theorem Precedes.of_sublist {order larger : List String} {former latter : String}
    (precedes : Precedes order former latter) (kept : order.Sublist larger) :
    Precedes larger former latter :=
  List.Sublist.trans precedes kept

/-! ## Constraints that are met -/

namespace Constraint

/-- A constraint can be met if it doesn't ask for both, and what it refers to is
registered and not nothing. -/
def IsMeetable (registered : List String) : Constraint → Prop
  | last => True
  | before names => names ≠ [] ∧ ∀ name ∈ names, name ∈ registered
  | after names => names ≠ [] ∧ ∀ name ∈ names, name ∈ registered
  | both => False

/-- What a constraint asks for a loader, given those that were registered when it
was stated. -/
def IsMet (registered order : List String) (name : String) : Constraint → Prop
  | last => ∀ other ∈ registered, Precedes order other name
  | before names => ∀ other ∈ names, Precedes order name other
  | after names => ∀ other ∈ names, Precedes order other name
  | both => False

/-- The failure due to a constraint that can't be met. -/
def refusal : Constraint → Fault
  | both => .bothConstraints
  | _ => .unacceptable

theorem IsMet.of_sublist {registered order larger : List String} {name : String}
    {constraint : Constraint} (met : constraint.IsMet registered order name)
    (kept : order.Sublist larger) : constraint.IsMet registered larger name := by
  cases constraint with
  | last => exact fun other present => (met other present).of_sublist kept
  | before names => exact fun other member => (met other member).of_sublist kept
  | after names => exact fun other member => (met other member).of_sublist kept
  | both => exact met

end Constraint

namespace Registry

variable {registry : Registry}

/-! ## Positions -/

theorem positions?_of_registered {names : List String}
    (registered : ∀ name ∈ names, name ∈ registry.names) :
    registry.positions? names = some (names.map registry.names.idxOf) := by
  induction names with
  | nil => rfl
  | cons first rest induction =>
    have head : registry.names.idxOf? first = some (registry.names.idxOf first) := by
      rw [List.idxOf_eq_getD_idxOf?]
      obtain ⟨position, found⟩ := Option.isSome_iff_exists.mp
        (List.isSome_idxOf?.mpr (registered first List.mem_cons_self))
      rw [found, Option.getD_some]
    have tail := induction fun name member => registered name (List.mem_cons_of_mem first member)
    rw [positions?] at tail ⊢
    simp [List.mapM_cons, head, tail]

theorem positions?_of_missing {names : List String} {missing : String}
    (member : missing ∈ names) (absent : missing ∉ registry.names) :
    registry.positions? names = none := by
  induction names with
  | nil => cases member
  | cons first rest induction =>
    rw [positions?, List.mapM_cons]
    rcases List.mem_cons.mp member with rfl | later
    · simp [List.idxOf?_eq_none_iff.mpr absent]
    · have tail := induction later
      rw [positions?] at tail
      cases registry.names.idxOf? first <;> simp [tail]

/-- A constraint that can't be met has no position. -/
theorem position_of_not_meetable {constraint : Constraint}
    (refused : ¬ constraint.IsMeetable registry.names) :
    registry.position constraint = .error constraint.refusal := by
  have unplaced {names : List String} (pick : List Nat → Option Nat) (nothing : pick [] = none)
      (refused : ¬ (names ≠ [] ∧ ∀ name ∈ names, name ∈ registry.names)) :
      (registry.positions? names).bind pick = none := by
    by_cases empty : names = []
    · subst empty
      exact nothing
    · obtain ⟨missing, member, absent⟩ : ∃ name ∈ names, name ∉ registry.names := by
        simpa [empty] using refused
      rw [positions?_of_missing member absent, Option.bind_none]
  cases constraint with
  | last => exact absurd trivial refused
  | before names => simp [position, unplaced List.min? rfl refused, Constraint.refusal]
  | after names => simp [position, unplaced List.max? rfl refused, Constraint.refusal]
  | both => rfl

/-! ## Insertion -/

theorem names_insert (position : Nat) (name : String) :
    (registry.insert position name).names =
      registry.names.take position ++ name :: registry.names.drop position := by
  obtain ⟨front, back, split, length, inserted⟩ :=
    List.exists_of_modifyTailIdx (name :: ·) (Nat.min_le_right position registry.names.length)
  have taken : registry.names.take position = front := by
    rw [List.take_eq_take_min, ← length, split, List.take_left]
  have dropped : registry.names.drop position = back := by
    have whole := List.take_append_drop position registry.names
    rw [taken] at whole
    exact List.append_cancel_left (whole.trans split)
  rw [taken, dropped]
  exact inserted

theorem sublist_insert (position : Nat) (name : String) :
    registry.names.Sublist (registry.insert position name).names :=
  List.sublist_insertIdx _ _ _

theorem perm_insert (position : Nat) (name : String) :
    (registry.insert position name).names.Perm (name :: registry.names) :=
  List.perm_insertIdx _ _ (Nat.min_le_right _ _)

theorem precedes_insert_of_le {position : Nat} {name other : String}
    (present : other ∈ registry.names) (behind : position ≤ registry.names.idxOf other) :
    Precedes (registry.insert position name).names name other := by
  have member : other ∈ registry.names.drop position := by
    rw [List.mem_drop_iff_getElem]
    have bounded := List.idxOf_lt_length_of_mem present
    exact ⟨registry.names.idxOf other - position, by omega,
      by simp only [Nat.add_sub_cancel' behind, List.getElem_idxOf]⟩
  rw [Precedes, names_insert]
  exact ((List.singleton_sublist.mpr member).cons_cons name).trans
    (List.sublist_append_right _ _)

theorem precedes_insert_of_lt {position : Nat} {name other : String}
    (present : other ∈ registry.names) (ahead : registry.names.idxOf other < position) :
    Precedes (registry.insert position name).names other name := by
  have member : other ∈ registry.names.take position :=
    (List.mem_take_iff_idxOf_lt present).mpr ahead
  rw [Precedes, names_insert]
  exact (List.singleton_sublist.mpr member).append
    (List.singleton_sublist.mpr List.mem_cons_self)

/-- A constraint that can be met is met by the insertion at its position. -/
theorem isMet_insert {constraint : Constraint}
    (meetable : constraint.IsMeetable registry.names) (name : String) :
    ∃ position, registry.position constraint = .ok position ∧
      constraint.IsMet registry.names (registry.insert position name).names name := by
  cases constraint with
  | last =>
    exact ⟨registry.names.length, rfl, fun other present =>
      precedes_insert_of_lt present (List.idxOf_lt_length_of_mem present)⟩
  | before names =>
    obtain ⟨nonempty, registered⟩ := meetable
    obtain ⟨first, least⟩ : ∃ first, (names.map registry.names.idxOf).min? = some first :=
      Option.ne_none_iff_exists'.mp (by simpa [List.min?_eq_none_iff] using nonempty)
    refine ⟨first, by simp [position, positions?_of_registered registered, least], ?_⟩
    intro other member
    exact precedes_insert_of_le (registered other member)
      ((List.min?_eq_some_iff.mp least).2 _ (List.mem_map_of_mem member))
  | after names =>
    obtain ⟨nonempty, registered⟩ := meetable
    obtain ⟨latest, most⟩ : ∃ latest, (names.map registry.names.idxOf).max? = some latest :=
      Option.ne_none_iff_exists'.mp (by simpa [List.max?_eq_none_iff] using nonempty)
    refine ⟨latest + 1, by simp [position, positions?_of_registered registered, most], ?_⟩
    intro other member
    exact precedes_insert_of_lt (registered other member)
      (Nat.lt_succ_of_le ((List.max?_eq_some_iff.mp most).2 _ (List.mem_map_of_mem member)))
  | both => exact meetable.elim

/-! ## Registration -/

/-- What one registration does: it fails if its constraint can't be met. Otherwise
it adds the loader, such that the constraint is met and the order of those that
were there is kept. -/
theorem register_cases (registry : Registry) (constraint : Constraint) (name : String) :
    (¬ constraint.IsMeetable registry.names ∧
      registry.register constraint name = .error constraint.refusal) ∨
    (constraint.IsMeetable registry.names ∧ ∃ next,
      registry.register constraint name = .ok next ∧
      next.names.Perm (name :: registry.names) ∧
      registry.names.Sublist next.names ∧
      constraint.IsMet registry.names next.names name) := by
  by_cases meetable : constraint.IsMeetable registry.names
  · obtain ⟨position, placed, met⟩ := isMet_insert meetable name
    refine .inr ⟨meetable, registry.insert position name, ?_, perm_insert position name,
      sublist_insert position name, met⟩
    rw [register, placed, Except.map]
  · refine .inl ⟨meetable, ?_⟩
    rw [register, position_of_not_meetable meetable, Except.map]

/-! ## Sequences of commands -/

namespace Workbench

variable {workbench : Workbench}

/-- The state after a command. One that fails changes nothing. -/
def attempt (workbench : Workbench) (command : Command) : Workbench :=
  match workbench.execute command with
  | .ok (_, next) => next
  | .error _ => workbench

/-- The state after several commands. -/
def follow (workbench : Workbench) (commands : List Command) : Workbench :=
  commands.foldl attempt workbench

theorem run_cons (command : Command) (commands : List Command) :
    workbench.run (command :: commands) =
      ((workbench.execute command).map Prod.fst, (workbench.attempt command).registry.names) ::
        (workbench.attempt command).run commands := by
  rw [run, attempt]
  cases workbench.execute command <;> rfl

/-- What a run says of a command is what comes of it after those in front of it. -/
theorem run_getElem? (workbench : Workbench) (former : List Command) (command : Command)
    (latter : List Command) :
    (workbench.run (former ++ command :: latter))[former.length]? =
      some (((workbench.follow former).execute command).map Prod.fst,
        ((workbench.follow former).attempt command).registry.names) := by
  induction former generalizing workbench with
  | nil => rw [List.nil_append, run_cons]; rfl
  | cons first former induction =>
    rw [List.cons_append, run_cons, List.length_cons, List.getElem?_cons_succ, induction]
    rfl

/-- No command removes a loader or changes the order of those that are there. -/
theorem sublist_attempt (command : Command) :
    workbench.registry.names.Sublist (workbench.attempt command).registry.names := by
  cases command with
  | register name constraint =>
    rw [attempt, execute]
    rcases register_cases workbench.registry constraint name with
      ⟨-, failed⟩ | ⟨-, next, succeeded, -, kept, -⟩
    · rw [failed]
      exact List.Sublist.refl _
    · rw [succeeded]
      exact kept
  | prepare key constraint =>
    rw [attempt, execute]
    cases workbench.registry.position constraint <;> exact List.Sublist.refl _
  | apply key name =>
    cases found : workbench.prepared.lookup key with
    | none => simp [attempt, execute, found]
    | some position =>
      cases name with
      | none => simp [attempt, execute, found]
      | some name => simpa [attempt, execute, found] using sublist_insert position name

theorem sublist_follow (commands : List Command) :
    workbench.registry.names.Sublist (workbench.follow commands).registry.names := by
  induction commands generalizing workbench with
  | nil => exact List.Sublist.refl _
  | cons first commands induction => exact (sublist_attempt first).trans induction

end Workbench

/-! ## Sequences of registrations -/

/-- A loader along with the constraint that it is registered with. -/
structure Registration where
  name : String
  constraint : Constraint
  deriving Repr, DecidableEq

def Registration.command (registration : Registration) : Command :=
  .register registration.name registration.constraint

namespace Workbench

variable {workbench : Workbench}

def registerEach (workbench : Workbench) (registrations : List Registration) : Workbench :=
  workbench.follow (registrations.map Registration.command)

/-- The loaders whose registration is answered as successful. -/
def accepted (workbench : Workbench) (registrations : List Registration) : List String :=
  ((registrations.zip (workbench.run (registrations.map Registration.command))).filter
    fun (_, answer, _) => answer.isOk).map fun (registration, _) => registration.name

theorem accepted_cons (first : Registration) (rest : List Registration) :
    workbench.accepted (first :: rest) =
      if (workbench.execute first.command).isOk
      then first.name :: (workbench.attempt first.command).accepted rest
      else (workbench.attempt first.command).accepted rest := by
  rw [accepted, List.map_cons, run_cons, List.zip_cons_cons, List.filter_cons]
  cases workbench.execute first.command <;> rfl

/-- What one registration does to the state. -/
theorem attempt_cases (workbench : Workbench) (registration : Registration) :
    (¬ registration.constraint.IsMeetable workbench.registry.names ∧
      workbench.execute registration.command = .error registration.constraint.refusal ∧
      workbench.attempt registration.command = workbench) ∨
    (registration.constraint.IsMeetable workbench.registry.names ∧
      workbench.execute registration.command =
        .ok (true, workbench.attempt registration.command) ∧
      (workbench.attempt registration.command).registry.names.Perm
        (registration.name :: workbench.registry.names) ∧
      registration.constraint.IsMet workbench.registry.names
        (workbench.attempt registration.command).registry.names registration.name) := by
  rcases workbench.registry.register_cases registration.constraint registration.name with
    ⟨refused, failed⟩ | ⟨meetable, next, succeeded, added, -, met⟩
  · have executed : workbench.execute registration.command =
        .error registration.constraint.refusal := by
      rw [Registration.command, execute, failed, Except.map]
    exact .inl ⟨refused, executed, by rw [attempt, executed]⟩
  · have executed : workbench.execute registration.command =
        .ok (true, { workbench with registry := next }) := by
      rw [Registration.command, execute, succeeded, Except.map]
    have attempted : workbench.attempt registration.command =
        { workbench with registry := next } := by
      rw [attempt, executed]
    rw [attempted]
    exact .inr ⟨meetable, executed, added, met⟩

theorem sublist_accepted (registrations : List Registration) :
    (workbench.accepted registrations).Sublist (registrations.map Registration.name) := by
  induction registrations generalizing workbench with
  | nil => exact List.Sublist.refl _
  | cons first rest induction =>
    rw [accepted_cons, List.map_cons]
    split
    · exact induction.cons_cons first.name
    · exact induction.cons first.name

theorem perm_registerEach (workbench : Workbench) (registrations : List Registration) :
    (workbench.registerEach registrations).registry.names.Perm
      (workbench.accepted registrations ++ workbench.registry.names) := by
  induction registrations generalizing workbench with
  | nil => exact List.Perm.refl _
  | cons first rest induction =>
    have later : (workbench.registerEach (first :: rest)).registry.names.Perm
        ((workbench.attempt first.command).accepted rest ++
          (workbench.attempt first.command).registry.names) :=
      induction (workbench.attempt first.command)
    rw [accepted_cons]
    rcases workbench.attempt_cases first with
      ⟨-, failed, unchanged⟩ | ⟨-, succeeded, added, -⟩
    · rw [failed]
      rw [unchanged] at later ⊢
      exact later
    · rw [succeeded]
      exact later.trans ((added.append_left _).trans List.perm_middle)

end Workbench

/-! ## New registries -/

/-- The loaders of a new registry after several registrations. -/
def orderAfter (registrations : List Registration) : List String :=
  (({} : Workbench).registerEach registrations).registry.names

/-- What several registrations on a new registry are answered with. -/
def answersTo (registrations : List Registration) : List (Except Fault Bool × List String) :=
  ({} : Workbench).run (registrations.map Registration.command)

/-- The loaders whose registration on a new registry is answered as successful. -/
def acceptedOf (registrations : List Registration) : List String :=
  ({} : Workbench).accepted registrations

theorem orderAfter_append (former latter : List Registration) :
    orderAfter (former ++ latter) =
      ((({} : Workbench).registerEach former).registerEach latter).registry.names := by
  simp [orderAfter, Workbench.registerEach, Workbench.follow]

theorem sublist_orderAfter (former latter : List Registration) :
    (orderAfter former).Sublist (orderAfter (former ++ latter)) := by
  rw [orderAfter_append]
  exact Workbench.sublist_follow _

/-- Of loaders that are registered one after another on a new registry, those that
were accepted are in it in the end, each of them once, and the order among those
that were registered at any time is kept. A registration is accepted exactly if its
constraint can be met at that time, and then it is met in the end. -/
theorem registrations_orderly (registrations : List Registration)
    (different : (registrations.map Registration.name).Nodup) :
    (orderAfter registrations).Nodup ∧
    (orderAfter registrations).Perm (acceptedOf registrations) ∧
    ∀ former registration latter, registrations = former ++ registration :: latter →
      (orderAfter former).Sublist (orderAfter registrations) ∧
      ((registration.constraint.IsMeetable (orderAfter former) ∧
          (answersTo registrations)[former.length]? =
            some (.ok true, orderAfter (former ++ [registration])) ∧
          registration.constraint.IsMet (orderAfter former) (orderAfter registrations)
            registration.name) ∨
        (¬ registration.constraint.IsMeetable (orderAfter former) ∧
          (answersTo registrations)[former.length]? =
            some (.error registration.constraint.refusal, orderAfter former) ∧
          orderAfter (former ++ [registration]) = orderAfter former)) := by
  have listed : (orderAfter registrations).Perm (acceptedOf registrations) := by
    have listed := ({} : Workbench).perm_registerEach registrations
    rwa [List.append_nil] at listed
  refine ⟨listed.nodup_iff.mpr (different.sublist (Workbench.sublist_accepted registrations)),
    listed, ?_⟩
  rintro former registration latter rfl
  have answer : (answersTo (former ++ registration :: latter))[former.length]? =
      some (((({} : Workbench).registerEach former).execute registration.command).map Prod.fst,
        orderAfter (former ++ [registration])) := by
    rw [orderAfter_append, answersTo, List.map_append, List.map_cons]
    have answer := ({} : Workbench).run_getElem? (former.map Registration.command)
      registration.command (latter.map Registration.command)
    rwa [List.length_map] at answer
  have kept : (orderAfter (former ++ [registration])).Sublist
      (orderAfter (former ++ registration :: latter)) := by
    simpa using sublist_orderAfter (former ++ [registration]) latter
  refine ⟨sublist_orderAfter former (registration :: latter), ?_⟩
  rw [answer]
  rcases (({} : Workbench).registerEach former).attempt_cases registration with
    ⟨refused, failed, unchanged⟩ | ⟨meetable, succeeded, -, met⟩
  · have same : orderAfter (former ++ [registration]) = orderAfter former := by
      rw [orderAfter_append]
      exact congrArg (·.registry.names) unchanged
    refine .inr ⟨refused, ?_, same⟩
    rw [failed, same, Except.map]
  · refine .inl ⟨meetable, ?_, ?_⟩
    · rw [succeeded, Except.map]
    · rw [orderAfter_append] at kept
      exact met.of_sublist kept

/-- Loaders in front of and behind others, and two that are refused because of what
they refer to. -/
def mixedRegistrations : List Registration :=
  [⟨"text", .last⟩, ⟨"path", .before ["text"]⟩, ⟨"none", .after []⟩, ⟨"web", .after ["path"]⟩,
    ⟨"lost", .before ["text", "other"]⟩, ⟨"tree", .before ["text", "web"]⟩]

theorem registrations_orderly_mixed :
    (mixedRegistrations.map Registration.name).Nodup ∧
    orderAfter mixedRegistrations = ["path", "tree", "web", "text"] ∧
    (orderAfter mixedRegistrations).Perm (acceptedOf mixedRegistrations) ∧
    Precedes (orderAfter mixedRegistrations) "tree" "text" := by
  have different : (mixedRegistrations.map Registration.name).Nodup := by decide
  have orderly := registrations_orderly mixedRegistrations different
  refine ⟨different, by decide, orderly.2.1, ?_⟩
  obtain ⟨-, ⟨-, -, met⟩ | ⟨refused, -, -⟩⟩ :=
    orderly.2.2 (mixedRegistrations.take 5) ⟨"tree", .before ["text", "web"]⟩ [] rfl
  · exact met "text" List.mem_cons_self
  · exact absurd ⟨by decide, by decide⟩ refused

end Registry

end XmlGrove.Loading
