/-!
# Searching texts

A text is cut at the first place where a given delimiter occurs. Everything that
is read up to a delimiter, from comments to attribute values, rests on this cut.
-/

namespace XmlGrove.Text

/-- Cut a text at the first occurrence of a delimiter into what precedes and
what follows it. -/
def cut? (delimiter : List Char) : List Char → Option (List Char × List Char)
  | [] => if delimiter.isEmpty then some ([], []) else none
  | character :: rest =>
    if delimiter.isPrefixOf (character :: rest) then
      some ([], (character :: rest).drop delimiter.length)
    else
      (cut? delimiter rest).map fun (before, after) => (character :: before, after)

def occurs (fragment text : List Char) : Bool :=
  (cut? fragment text).isSome

theorem eq_append_of_cut? {delimiter text before after : List Char}
    (found : cut? delimiter text = some (before, after)) :
    text = before ++ delimiter ++ after := by
  induction text generalizing before with
  | nil =>
    rw [cut?] at found
    split at found
    · rename_i empty
      simp_all
    · cases found
  | cons character rest induction =>
    rw [cut?] at found
    split at found
    · rename_i starts
      rcases List.isPrefixOf_iff_prefix.1 starts with ⟨remainder, equal⟩
      simp only [Option.some.injEq, Prod.mk.injEq] at found
      rw [← found.1, ← found.2, ← equal]
      simp
    · simp only [Option.map_eq_some_iff, Prod.mk.injEq, Prod.exists] at found
      rcases found with ⟨inner, remainder, cut, rfl, rfl⟩
      rw [induction cut]
      simp

theorem length_of_cut? {delimiter text before after : List Char}
    (found : cut? delimiter text = some (before, after)) :
    before.length + delimiter.length + after.length = text.length := by
  rw [eq_append_of_cut? found]
  simp [Nat.add_assoc]

def splitAtEach (separator : Char) : List Char → List (List Char)
  | [] => [[]]
  | character :: rest =>
    if character = separator then [] :: splitAtEach separator rest
    else
      match splitAtEach separator rest with
      | [] => [[character]]
      | segment :: segments => (character :: segment) :: segments

example : splitAtEach '/' "a//b".toList = ["a".toList, [], "b".toList] := rfl

def beforeLast? (separator : Char) (text : List Char) : Option (List Char) :=
  match text.reverse.dropWhile (· ≠ separator) with
  | [] => none
  | _ :: reversed => some reversed.reverse

end XmlGrove.Text
