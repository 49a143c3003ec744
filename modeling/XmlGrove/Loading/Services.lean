import XmlGrove.Encoding.Unicode
import XmlGrove.Fault
import XmlGrove.Name

/-!
# Services

What loading leaves to others: how documents are fetched from addresses, and how
the local part of a qualified name is told. Of both no more is presumed than what
is stated here.
-/

namespace XmlGrove.Loading

open Encoding (Bytes)

/-! ## Fetching -/

structure Fetched where
  body : Bytes
  contentType : Option String
  charset : Except Fault (Option String)

/-! ## Local names -/

/-- A name without the namespace that can precede it in braces. -/
def unqualified (name : String) : String :=
  match name.toList with
  | '\x7b' :: rest => String.ofList ((rest.dropWhile (· ≠ '\x7d')).drop 1)
  | _ => name

example : unqualified "\x7burn:x\x7da" = "a" := by decide +kernel

theorem unqualified_text (name : Name) : unqualified name.text = name.text := by
  rw [unqualified]
  split
  · rename_i rest equal
    have valid := name.isName_text
    rw [equal] at valid
    simp [isName, isNameStart] at valid
  · rfl

/-- Tells local names. It may refuse a name, but not one that has neither a namespace
nor a prefix. -/
structure Namer where
  localName : String → Except Fault String
  eq_unqualified : ∀ name own, localName name = .ok own → own = unqualified name
  localName_text : ∀ name : Name, ':' ∉ name.text.toList → localName name.text = .ok name.text

/-- Refuses names that are void or have a prefix. -/
def Namer.standard : Namer where
  localName name :=
    let own := unqualified name
    if own = "" || own.toList.contains ':' then .error .unacceptable else .ok own
  eq_unqualified name own told := by
    dsimp only at told
    split at told
    · cases told
    · cases told
      rfl
  localName_text name unprefixed := by
    have filled : name.text ≠ "" := by
      intro empty
      have valid := name.isName_text
      rw [empty] at valid
      cases valid
    simp [unqualified_text, unprefixed, filled]

/-! ## Both -/

structure Services where
  fetch : String → Except Fault Fetched := fun _ => .error .noConnection
  namer : Namer := .standard

end XmlGrove.Loading
