import XmlGrove.Name
import XmlGrove.Text.Quoted

/-!
# Attributes

The attributes of a tag: texts by name, in the order in which the names were
first set. A name occurs at most once.
-/

namespace XmlGrove

namespace AttributeEntries

/-! ## Entries

Operations on the plain list of entries, and what they do to the names. -/

/-- Set a value; the value of a name that is present is replaced in place. -/
def set (name : Name) (value : String) : List (Name × String) → List (Name × String)
  | [] => [(name, value)]
  | (present, old) :: rest =>
    if present = name then (name, value) :: rest
    else (present, old) :: set name value rest

theorem map_fst_set (name : Name) (value : String) (entries : List (Name × String)) :
    (set name value entries).map Prod.fst =
      if name ∈ entries.map Prod.fst then entries.map Prod.fst
      else entries.map Prod.fst ++ [name] := by
  induction entries with
  | nil => simp [set]
  | cons entry rest induction =>
    rcases entry with ⟨present, old⟩
    by_cases equal : present = name
    · simp [set, equal]
    · have different : ¬ name = present := fun reversed => equal reversed.symm
      rw [set, if_neg equal, List.map_cons, induction]
      by_cases member : name ∈ rest.map Prod.fst <;>
        simp only [List.map_cons, List.mem_cons, different, false_or, member, if_true,
          if_false, List.cons_append]

theorem nodup_set {name : Name} {value : String} {entries : List (Name × String)}
    (nodup : (entries.map Prod.fst).Nodup) :
    ((set name value entries).map Prod.fst).Nodup := by
  rw [map_fst_set]
  split
  · exact nodup
  · rename_i fresh
    rw [List.nodup_append]
    refine ⟨nodup, by simp, fun present member other equal => ?_⟩
    simp only [List.mem_singleton] at equal
    rintro rfl
    exact fresh (equal ▸ member)

end AttributeEntries

structure Attributes where
  entries : List (Name × String)
  nodup_names : (entries.map Prod.fst).Nodup
  deriving DecidableEq

namespace Attributes

instance : Repr Attributes where
  reprPrec attributes precedence := reprPrec attributes.entries precedence

def empty : Attributes := ⟨[], by simp⟩

instance : EmptyCollection Attributes := ⟨empty⟩

instance : Inhabited Attributes := ⟨empty⟩

def set (attributes : Attributes) (name : Name) (value : String) : Attributes :=
  ⟨AttributeEntries.set name value attributes.entries,
    AttributeEntries.nodup_set attributes.nodup_names⟩

/-- Attributes from a list of entries, later values replace earlier ones. -/
def ofList (entries : List (Name × String)) : Attributes :=
  entries.foldl (fun attributes (name, value) => attributes.set name value) empty

def get? (attributes : Attributes) (name : String) : Option String :=
  (attributes.entries.find? fun (present, _) => present.text == name).map Prod.snd

def has (attributes : Attributes) (name : String) : Bool :=
  (attributes.get? name).isSome

def erase (attributes : Attributes) (name : String) : Attributes :=
  ⟨attributes.entries.filter fun (present, _) => present.text != name,
    attributes.nodup_names.sublist (List.filter_sublist.map Prod.fst)⟩

def names (attributes : Attributes) : List String :=
  attributes.entries.map fun (name, _) => name.text

def values (attributes : Attributes) : List String :=
  attributes.entries.map Prod.snd

def pairs (attributes : Attributes) : List (String × String) :=
  attributes.entries.map fun (name, value) => (name.text, value)

def sorted (attributes : Attributes) : List (Name × String) :=
  attributes.entries.mergeSort fun left right => left.1.text ≤ right.1.text

/-- Tell whether two collections of attributes have the same names and values,
in whatever order. -/
def sameAs (left right : Attributes) : Bool :=
  left.entries.length == right.entries.length &&
    left.entries.all fun (name, value) => right.get? name.text == some value

def displayPairs (pairs : List (String × String)) : String :=
  let shown := pairs.map fun (name, value) =>
    String.ofList (Text.quoted name.toList) ++ ": " ++ String.ofList (Text.quoted value.toList)
  "\x7b" ++ ", ".intercalate shown ++ "\x7d"

def display (attributes : Attributes) : String :=
  displayPairs attributes.pairs

end Attributes

end XmlGrove
