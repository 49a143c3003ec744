import Mathlib.Logic.ExistsUnique
import XmlGrove.Proofs.Options.Straddling

/-!
# Texts as signs

What stands for one character of a text is a sign: a predefined reference, or the character
itself. A text is made up of signs in one way only, and decoding it puts their meanings in a row.
-/

namespace XmlGrove.Entity

/-- What stands for a character. -/
inductive Sign where
  | reference (entry : List Char × Char) (known : entry ∈ predefined)
  | plain (character : Char)

namespace Sign

def source : Sign → List Char
  | reference entry _ => '&' :: entry.1
  | plain character => [character]

def meaning : Sign → Char
  | reference entry _ => entry.2
  | plain character => character

end Sign

/-- The signs that a text is made up of. An ampersand stands for itself only where it does not
begin a reference. -/
inductive Splits : List Char → List Sign → Prop
  | nil : Splits [] []
  | reference {entry : List Char × Char} (known : entry ∈ predefined) {rest : List Char}
      {signs : List Sign} (others : Splits rest signs) :
      Splits ('&' :: (entry.1 ++ rest)) (.reference entry known :: signs)
  | plain {character : Char} {rest : List Char} {signs : List Sign}
      (alone : ∀ entry ∈ predefined, ¬ ('&' :: entry.1) <+: character :: rest)
      (others : Splits rest signs) :
      Splits (character :: rest) (.plain character :: signs)

variable {text rest : List Char} {signs : List Sign}

/-! ## One way to split -/

theorem exists_splits (text : List Char) : ∃ signs, Splits text signs := by
  -- A reference takes several characters at once, hence the induction on the length.
  induction length : text.length using Nat.strongRecOn generalizing text with
  | ind bound induction =>
      cases text with
      | nil => exact ⟨[], .nil⟩
      | cons character rest =>
          rw [List.length_cons] at length
          by_cases begins : ∃ entry ∈ predefined, ('&' :: entry.1) <+: character :: rest
          · rcases begins with ⟨entry, known, starts⟩
            rcases List.cons_prefix_cons.1 starts with ⟨rfl, after, rfl⟩
            rw [List.length_append] at length
            rcases induction after.length (by omega) after rfl with ⟨signs, others⟩
            exact ⟨_, .reference known others⟩
          · rcases induction rest.length (by omega) rest rfl with ⟨signs, others⟩
            refine ⟨_, .plain ?_ others⟩
            intro entry known starts
            exact begins ⟨entry, known, starts⟩

theorem Splits.of_reference {entry : List Char × Char} (known : entry ∈ predefined)
    (split : Splits text signs) (begins : text = '&' :: (entry.1 ++ rest)) :
    ∃ others, Splits rest others ∧ signs = .reference entry known :: others := by
  cases split with
  | nil => cases begins
  | @reference other otherKnown after others following =>
      rw [List.cons.injEq] at begins
      have starts : other.1 <+: entry.1 ++ rest := begins.2 ▸ List.prefix_append _ _
      have same := eq_of_prefix_of_prefix otherKnown known starts (List.prefix_append _ _)
      subst same
      rw [← List.append_cancel_left begins.2]
      exact ⟨others, following, rfl⟩
  | plain alone following =>
      rw [begins] at alone
      have starts : ('&' :: entry.1) <+: '&' :: (entry.1 ++ rest) := ⟨rest, rfl⟩
      exact absurd starts (alone entry known)

theorem Splits.of_plain {character : Char}
    (alone : ∀ entry ∈ predefined, ¬ ('&' :: entry.1) <+: character :: rest)
    (split : Splits (character :: rest) signs) :
    ∃ others, Splits rest others ∧ signs = .plain character :: others := by
  cases split with
  | @reference entry known after others following =>
      have starts : ('&' :: entry.1) <+: '&' :: (entry.1 ++ after) := ⟨after, rfl⟩
      exact absurd starts (alone entry known)
  | plain _ following => exact ⟨_, following, rfl⟩

theorem Splits.unique {others : List Sign} (split : Splits text signs)
    (other : Splits text others) : others = signs := by
  induction split generalizing others with
  | nil =>
      cases other
      rfl
  | reference known following induction =>
      rcases other.of_reference known rfl with ⟨behind, split, rfl⟩
      rw [induction split]
  | plain alone following induction =>
      rcases other.of_plain alone with ⟨behind, split, rfl⟩
      rw [induction split]

/-! ## What signs stand for -/

theorem Splits.flatMap_source (split : Splits text signs) :
    signs.flatMap Sign.source = text := by
  induction split with
  | nil => rfl
  | reference known following induction =>
      rw [List.flatMap_cons, induction]
      rfl
  | plain alone following induction =>
      rw [List.flatMap_cons, induction]
      rfl

theorem Splits.decode_eq (split : Splits text signs) :
    decode text = signs.map Sign.meaning := by
  induction split with
  | nil => rfl
  | @reference entry known rest signs following induction =>
      have found : reference? (entry.1 ++ rest) = some (entry.1, entry.2) :=
        reference?_eq_some_iff.2 ⟨known, List.prefix_append _ _⟩
      rw [decode_ampersand_of_some found, induction]
      rfl
  | @plain character rest signs alone following induction =>
      have missing : character = '&' → reference? rest = none := by
        rintro rfl
        rw [Option.eq_none_iff_forall_ne_some]
        intro entry found
        rcases reference?_eq_some_iff.1 found with ⟨known, starts⟩
        exact alone entry known (List.cons_prefix_cons.2 ⟨rfl, starts⟩)
      rw [decode_cons_of_reference?_eq_none missing, induction]
      rfl

theorem holdsReference_eq_false_iff :
    holdsReference text = false ↔ ∀ entry ∈ predefined, ¬ ('&' :: entry.1) <:+: text := by
  simp only [holdsReference, List.any_eq_false, Text.occurs_iff_infix]

/-- Decoding reads a text as the signs that it is made up of, and as nothing else: it changes
only what holds a reference. So it takes back what is done to the characters of content, and
what is done to those of attributes makes no difference to it. -/
theorem decode_of_signs (text : List Char) :
    (∃! signs, Splits text signs) ∧
    (∀ signs, Splits text signs →
      signs.flatMap Sign.source = text ∧ decode text = signs.map Sign.meaning) ∧
    (decode text = text ↔ ∀ entry ∈ predefined, ¬ ('&' :: entry.1) <:+: text) ∧
    decode (encodeText text) = text ∧
    decode (encodeAttribute text) = decode text := by
  have splits : ∃! signs, Splits text signs := by
    rcases exists_splits text with ⟨signs, split⟩
    exact ⟨signs, split, fun others other => split.unique other⟩
  refine ⟨splits, ?_, ?_, decode_encodeText text, decode_encodeAttribute text⟩
  · intro signs split
    exact ⟨split.flatMap_source, split.decode_eq⟩
  · rw [decode_eq_self_iff, holdsReference_eq_false_iff]

/-- What a reference leaves is not read again, and one that is broken off is none. -/
example : decode "&a&amp;lt;&ap".toList = "&a&lt;&ap".toList := rfl

end XmlGrove.Entity
