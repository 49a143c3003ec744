import XmlGrove.Difference
import XmlGrove.Proofs.RoundTrip.Encoding

/-!
# The normal form of a tree

What is left of a tree that is written in the canonical layout and read again. It is defined
without writing or reading anything, by what happens to each node and to the runs of text nodes.
-/

namespace XmlGrove

/-- A text with every line ending written as a line feed. -/
def Text.withLineFeeds (content : String) : String :=
  String.ofList (normalizeLineEndings content.toList)

@[simp] theorem Text.toList_withLineFeeds (content : String) :
    (withLineFeeds content).toList = normalizeLineEndings content.toList :=
  String.toList_ofList

namespace Attributes

/-- Apply a function to each value. -/
def mapValues (transform : String → String) (attributes : Attributes) : Attributes :=
  ⟨attributes.entries.map fun (name, value) => (name, transform value), by
    rw [List.map_map]
    exact attributes.nodup_names⟩

end Attributes

/-- The value of an attribute as it is read after it was written. -/
def Attributes.valueNormalForm (value : String) : String :=
  String.ofList (Entity.decode (Text.withLineFeeds value).toList)

namespace Leaf

/-- A leaf as it is read after it was written: a comment's content is set off by spaces, and
an instruction's content starts with what is not blank. -/
def normalForm : Leaf → Leaf
  | text content => text (Text.withLineFeeds content)
  | comment content => comment (" " ++ Text.withLineFeeds content ++ " ")
  | cdata content => cdata (Text.withLineFeeds content)
  | instruction target content =>
    instruction target (String.ofList (Text.trimStart (Text.withLineFeeds content).toList))

end Leaf

namespace Tree

/-! ## Runs of text nodes -/

/-- Put a text in front of sibling trees, as a part of the text that they start with if they
start with one. -/
def prependText (content : String) : List Tree → List Tree
  | leaf (.text next) :: rest => text (content ++ next) :: rest
  | trees => text content :: trees

/-- Replace each maximal run of adjacent text nodes by one text node. -/
def mergeTexts : List Tree → List Tree
  | [] => []
  | leaf (.text content) :: rest => prependText content (mergeTexts rest)
  | first :: rest => first :: mergeTexts rest

/-- Tell whether a run of text nodes is kept: it must not be empty, nor blank unless blank
texts are preserved. Everything else is kept. -/
def isKept (preserveWhitespace : Bool) : Tree → Bool
  | leaf (.text content) =>
    content != "" && (preserveWhitespace || !content.toList.all Text.isBlank)
  | _ => true

/-! ## The normal form -/

mutual

/-- The normal form of a tree. -/
def normalForm (preserveWhitespace : Bool) : Tree → Tree
  | leaf content => leaf content.normalForm
  | tag name attributes children =>
    tag name (attributes.mapValues Attributes.valueNormalForm)
      ((mergeTexts (normalForms preserveWhitespace children)).filter
        (isKept preserveWhitespace))

/-- The normal forms of several trees. -/
def normalForms (preserveWhitespace : Bool) : List Tree → List Tree
  | [] => []
  | first :: rest => first.normalForm preserveWhitespace :: normalForms preserveWhitespace rest

end

example :
    (tag ⟨"a", by decide⟩ {} [text "x\r", text "\ny", leaf (.comment "c"), text " "]).normalForm
        false =
      tag ⟨"a", by decide⟩ {} [text "x\n\ny", leaf (.comment " c ")] := rfl

/-! ## Texts in front of siblings -/

theorem prependText_prependText (first second : String) (trees : List Tree) :
    prependText first (prependText second trees) = prependText (first ++ second) trees := by
  cases trees with
  | nil => rfl
  | cons tree trees =>
      cases tree with
      | tag name attributes children => rfl
      | leaf content =>
          cases content with
          | text next => simp only [prependText, String.append_assoc]
          | comment content => rfl
          | cdata content => rfl
          | instruction target content => rfl

/-- A text without content is not kept, wherever it is. -/
theorem filter_prependText_empty (preserveWhitespace : Bool) (trees : List Tree) :
    (prependText "" trees).filter (isKept preserveWhitespace) =
      trees.filter (isKept preserveWhitespace) := by
  have dropped : isKept preserveWhitespace (text "") = false := rfl
  cases trees with
  | nil => rfl
  | cons tree trees =>
      cases tree with
      | tag name attributes children => exact List.filter_cons_of_neg (by simp [dropped])
      | leaf content =>
          cases content with
          | text next => simp only [prependText, String.empty_append]
          | comment content => exact List.filter_cons_of_neg (by simp [dropped])
          | cdata content => exact List.filter_cons_of_neg (by simp [dropped])
          | instruction target content => exact List.filter_cons_of_neg (by simp [dropped])

theorem prependText_cons_of_not_text (content : String) {tree : Tree} (trees : List Tree)
    (other : tree.isText = false) :
    prependText content (tree :: trees) = text content :: tree :: trees := by
  cases tree with
  | tag name attributes children => rfl
  | leaf leaf =>
      cases leaf with
      | text next => cases other
      | comment content => rfl
      | cdata content => rfl
      | instruction target content => rfl

theorem mergeTexts_cons_of_not_text {tree : Tree} (trees : List Tree)
    (other : tree.isText = false) : mergeTexts (tree :: trees) = tree :: mergeTexts trees := by
  cases tree with
  | tag name attributes children => rw [mergeTexts]; exact fun _ equal => by cases equal
  | leaf leaf =>
      cases leaf with
      | text next => cases other
      | comment content => rw [mergeTexts]; exact fun _ equal => by cases equal
      | cdata content => rw [mergeTexts]; exact fun _ equal => by cases equal
      | instruction target content => rw [mergeTexts]; exact fun _ equal => by cases equal

end Tree

end XmlGrove
