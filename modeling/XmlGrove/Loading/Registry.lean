import XmlGrove.Fault

/-!
# Registries of loaders

Loaders are tried in an order that is determined by constraints: a loader can be
registered before or after others. The order is that of a list, and the place of
a loader is computed when its constraint is stated, which can be earlier than
when it is registered.
-/

namespace XmlGrove.Loading

inductive Constraint where
  | last
  | before (names : List String)
  | after (names : List String)
  | both
  deriving Repr, DecidableEq

structure Registry where
  names : List String := []
  deriving Repr, DecidableEq

namespace Registry

def positions? (registry : Registry) (names : List String) : Option (List Nat) :=
  names.mapM fun name => registry.names.idxOf? name

/-- The position that a constraint demands. The loaders that it refers to must be
registered, and there must be one. -/
def position (registry : Registry) : Constraint → Except Fault Nat
  | .last => .ok registry.names.length
  | .before names =>
    match (registry.positions? names).bind List.min? with
    | some first => .ok first
    | none => .error .unacceptable
  | .after names =>
    match (registry.positions? names).bind List.max? with
    | some last => .ok (last + 1)
    | none => .error .unacceptable
  | .both => .error .bothConstraints

def insert (registry : Registry) (position : Nat) (name : String) : Registry :=
  ⟨registry.names.insertIdx (min position registry.names.length) name⟩

def register (registry : Registry) (constraint : Constraint) (name : String) :
    Except Fault Registry :=
  (registry.position constraint).map fun position => registry.insert position name

/-! ## Placeholders

The place for a loader can be prepared before the loader is known. -/

inductive Command where
  | register (name : String) (constraint : Constraint)
  | prepare (key : String) (constraint : Constraint)
  /-- Register a loader at a prepared place; nothing isn't a loader. -/
  | apply (key : String) (name : Option String)
  deriving Repr, DecidableEq

structure Workbench where
  registry : Registry := {}
  prepared : List (String × Nat) := []
  deriving Repr, DecidableEq

def Workbench.execute (workbench : Workbench) : Command → Except Fault (Bool × Workbench)
  | .register name constraint =>
    (workbench.registry.register constraint name).map fun registry =>
      (true, { workbench with registry := registry })
  | .prepare key constraint =>
    (workbench.registry.position constraint).map fun position =>
      (false, { workbench with prepared := (key, position) :: workbench.prepared })
  | .apply key name =>
    match workbench.prepared.lookup key, name with
    | none, _ => .error .noKey
    | some _, none => .error .assertion
    | some position, some name =>
      .ok (true, { workbench with registry := workbench.registry.insert position name })

/-- Execute several commands; one that fails changes nothing. Yields what each one
does and the registered loaders then. -/
def Workbench.run (workbench : Workbench) :
    List Command → List (Except Fault Bool × List String)
  | [] => []
  | first :: rest =>
    match workbench.execute first with
    | .error fault => (.error fault, workbench.registry.names) :: workbench.run rest
    | .ok (registered, next) => (.ok registered, next.registry.names) :: next.run rest

end Registry

end XmlGrove.Loading
