import XmlGrove.Proofs.Elements.Loop
import XmlGrove.Proofs.Elements.Markup
import XmlGrove.Proofs.Grove.Comparison
import XmlGrove.Proofs.Options.Removal

/-!
# Converted and parsed elements

An element tree can be converted, and it can be written as XML text and parsed. Both ways keep the
same nodes and the same texts. Where a node is removed they differ: parsing gathers the text around
it as one, the conversion makes a node of the text on each side.
-/

namespace XmlGrove.Loading

open Grammar Text
open XmlGrove.Tree

variable {namer : Namer} {options : ParserOptions} {grove : Grove}

/-! ## Runs of text -/

/-- A text as a fragment of a run, unless it is void. -/
def fragmentsOf (text : Option String) : List String := (text.filter (· ≠ "")).toList

/-- Tell whether a run of text is left in parts where it could be one text: it consists of several
fragments, and it is not dropped for being blank. -/
def isBroken (options : ParserOptions) (run : List String) : Bool :=
  decide (2 ≤ run.length) &&
    (options.preserveWhitespace || !run.all fun fragment => fragment.toList.all isBlank)

namespace PlainItem

/-- The runs of text among nodes, each one as its fragments. A node that is kept ends a run; the
given fragments belong to the first one. -/
def runsAmong (options : ParserOptions) (pending : List String) :
    List PlainItem → List (List String)
  | [] => [pending]
  | first :: rest =>
    match first.converted? options with
    | none => runsAmong options (pending ++ fragmentsOf first.tail) rest
    | some _ => pending :: runsAmong options (fragmentsOf first.tail) rest

mutual

/-- Tell whether a run of text at any depth of a node is left in parts. -/
def holdsBrokenRun (options : ParserOptions) : PlainItem → Bool
  | element _ _ text children _ _ =>
    (runsAmong options (fragmentsOf text) children).any (isBroken options) ||
      holdBrokenRun options children
  | _ => false

def holdBrokenRun (options : ParserOptions) : List PlainItem → Bool
  | [] => false
  | first :: rest => first.holdsBrokenRun options || holdBrokenRun options rest

end

end PlainItem

/-! ## One run -/

/-- The text nodes that fragments become one by one. -/
def keptTexts (options : ParserOptions) (fragments : List String) : List Tree :=
  (fragments.map Tree.text).filter (isKept options.preserveWhitespace)

theorem keptTexts_append (former latter : List String) :
    keptTexts options (former ++ latter) =
      keptTexts options former ++ keptTexts options latter := by
  rw [keptTexts, List.map_append, List.filter_append, keptTexts, keptTexts]

theorem mem_keptTexts_iff {fragments : List String} {tree : Tree} :
    tree ∈ keptTexts options fragments ↔
      ∃ content ∈ fragments, tree = text content ∧
        isKept options.preserveWhitespace (text content) = true := by
  rw [keptTexts, List.mem_filter, List.mem_map]
  constructor
  · rintro ⟨⟨content, member, rfl⟩, kept⟩
    exact ⟨content, member, rfl, kept⟩
  · rintro ⟨content, member, rfl, kept⟩
    exact ⟨⟨content, member, rfl⟩, kept⟩

theorem isText_of_mem_keptTexts {fragments : List String} {tree : Tree}
    (member : tree ∈ keptTexts options fragments) : tree.isText = true := by
  rcases mem_keptTexts_iff.1 member with ⟨content, _, rfl, _⟩
  rfl

theorem ne_of_mem_fragmentsOf {text : Option String} :
    ∀ fragment ∈ fragmentsOf text, fragment ≠ "" := by
  intro fragment member
  rw [fragmentsOf, Option.mem_toList, Option.filter_eq_some_iff] at member
  simpa using member.2

theorem length_fragmentsOf_le (text : Option String) : (fragmentsOf text).length ≤ 1 := by
  rw [fragmentsOf]
  cases text.filter (· ≠ "") with
  | none => exact Nat.zero_le _
  | some content => exact Nat.le_refl _

theorem fragmentsOf_some {content : String} (filled : content ≠ "") :
    fragmentsOf (some content) = [content] := by
  rw [fragmentsOf, Option.filter_some_pos (by simpa)]
  rfl

theorem keptNodes_eq (text : Option String) :
    keptNodes options text = keptTexts options (fragmentsOf text) := by
  cases text with
  | none => rfl
  | some content =>
      by_cases empty : content = ""
      · rw [empty]
        rfl
      · have filled : content.toList ≠ [] := fun equal => empty (String.toList_eq_nil_iff.1 equal)
        have same : (decide (content ≠ "") && (options.preserveWhitespace ||
            !allBlank content.toList)) = isKept options.preserveWhitespace (text content) := by
          rw [allBlank, List.isEmpty_eq_false_iff.2 filled, isKept]
          simp [empty]
        rw [keptNodes, keptText?, Option.filter_some, same, fragmentsOf_some empty, keptTexts,
          List.map_singleton]
        cases kept : isKept options.preserveWhitespace (text content) with
        | true =>
            rw [List.filter_cons_of_pos kept]
            rfl
        | false =>
            rw [List.filter_cons_of_neg (by simp [kept])]
            rfl

theorem escapedText_eq (text : Option String) :
    escapedText text = Entity.escape (String.join (fragmentsOf text)).toList := by
  cases text with
  | none => rfl
  | some content =>
      by_cases empty : content = ""
      · rw [empty]
        rfl
      · rw [fragmentsOf_some empty]
        simp [escapedText]

theorem textRun_escape (fragments : List String) :
    textRun options (Entity.escape (String.join fragments).toList) =
      keptTexts options [String.join fragments] := by
  rw [textRun_eq, Entity.decode_escape, String.ofList_toList, keptTexts, List.map_singleton]

theorem allOrdered_keptTexts (fragments : List String) :
    allOrdered (keptTexts options fragments) = keptTexts options fragments := by
  have same : ∀ tree ∈ keptTexts options fragments, tree.ordered = id tree := by
    intro tree member
    rcases mem_keptTexts_iff.1 member with ⟨content, _, rfl, _⟩
    rfl
  rw [allOrdered_eq_map, List.map_congr_left same, List.map_id]

section

variable {run : List String} {fragment : String}

theorem length_le_length_join (solid : ∀ fragment ∈ run, fragment ≠ "") :
    run.length ≤ (String.join run).length := by
  induction run with
  | nil => exact Nat.zero_le _
  | cons first rest induction =>
      rw [List.forall_mem_cons] at solid
      have positive : 0 < first.length := by
        rw [Nat.pos_iff_ne_zero, ne_eq, String.length_eq_zero_iff]
        exact solid.1
      have others := induction solid.2
      rw [String.join_cons, String.length_append, List.length_cons]
      omega

/-- No fragment is as long as several ones together. -/
theorem length_add_length_le (solid : ∀ fragment ∈ run, fragment ≠ "") (member : fragment ∈ run) :
    fragment.length + run.length ≤ (String.join run).length + 1 := by
  induction member with
  | head rest =>
      rw [List.forall_mem_cons] at solid
      have others := length_le_length_join solid.2
      rw [String.join_cons, String.length_append, List.length_cons]
      omega
  | @tail first rest _ induction =>
      rw [List.forall_mem_cons] at solid
      have positive : 0 < first.length := by
        rw [Nat.pos_iff_ne_zero, ne_eq, String.length_eq_zero_iff]
        exact solid.1
      have others := induction solid.2
      rw [String.join_cons, String.length_append, List.length_cons]
      omega

theorem isKept_join (options : ParserOptions) (solid : ∀ fragment ∈ run, fragment ≠ "")
    (nonempty : run ≠ []) :
    isKept options.preserveWhitespace (text (String.join run)) =
      (options.preserveWhitespace || !run.all fun fragment => fragment.toList.all isBlank) := by
  have filled : String.join run ≠ "" := by
    intro equal
    have positive := List.length_pos_iff.2 nonempty
    have bound := length_le_length_join solid
    rw [equal, String.length_empty] at bound
    omega
  simp [isKept, filled, String.toList_join, List.all_flatMap]

theorem keptTexts_eq_nil_iff :
    keptTexts options run = [] ↔
      ∀ fragment ∈ run, isKept options.preserveWhitespace (text fragment) = false := by
  simp [keptTexts]

/-- Fragments become the same text nodes as what they make up, unless the run is broken. -/
theorem keptTexts_eq_iff (solid : ∀ fragment ∈ run, fragment ≠ "") :
    keptTexts options run = keptTexts options [String.join run] ↔ isBroken options run = false := by
  rcases Nat.lt_or_ge run.length 2 with short | long
  · have whole : isBroken options run = false := by
      simp [isBroken, Nat.not_le.2 short]
    apply iff_of_true _ whole
    match run with
    | [] => rfl
    | [single] => simp
    | first :: second :: rest =>
        simp only [List.length_cons] at short
        omega
  · have nonempty : run ≠ [] := by
      rintro rfl
      simp at long
    have joined := isKept_join options solid nonempty
    cases visible : options.preserveWhitespace ||
        !run.all fun fragment => fragment.toList.all isBlank with
    | true =>
        rw [visible] at joined
        have broken : isBroken options run = true := by
          simp [isBroken, long, visible]
        rw [broken]
        apply iff_of_false _ (by decide)
        intro equal
        have member : text (String.join run) ∈ keptTexts options run := by
          rw [equal]
          exact mem_keptTexts_iff.2 ⟨_, List.mem_singleton_self _, rfl, joined⟩
        rcases mem_keptTexts_iff.1 member with ⟨fragment, inside, same, _⟩
        cases same
        have bound := length_add_length_le solid inside
        omega
    | false =>
        rw [visible] at joined
        have whole : isBroken options run = false := by
          rw [isBroken, visible, Bool.and_false]
        rw [Bool.or_eq_false_iff, Bool.not_eq_false', List.all_eq_true] at visible
        apply iff_of_true _ whole
        have dropped : keptTexts options [String.join run] = [] :=
          keptTexts_eq_nil_iff.2 (List.forall_mem_singleton.2 joined)
        rw [dropped, keptTexts_eq_nil_iff]
        intro fragment member
        simp [isKept, visible.1, visible.2 fragment member]

end

/-! ## All runs -/

theorem append_cons_inj_of_isText {former latter rest more : List Tree} {left right : Tree}
    (formerTexts : ∀ tree ∈ former, tree.isText = true)
    (latterTexts : ∀ tree ∈ latter, tree.isText = true)
    (leftOther : left.isText = false) (rightOther : right.isText = false) :
    former ++ left :: rest = latter ++ right :: more ↔
      former = latter ∧ left = right ∧ rest = more := by
  constructor
  · intro equal
    have taken := congrArg (List.takeWhile Tree.isText) equal
    rw [List.takeWhile_append_of_pos formerTexts, List.takeWhile_append_of_pos latterTexts,
      List.takeWhile_cons_of_neg (by simp [leftOther]),
      List.takeWhile_cons_of_neg (by simp [rightOther]), List.append_nil, List.append_nil] at taken
    subst taken
    simpa using equal
  · rintro ⟨rfl, rfl, rfl⟩
    rfl

namespace PlainItem

/-- Parsing keeps a node if its conversion does. -/
theorem node?_toPiece_cases (options : ParserOptions) (item : PlainItem) :
    (item.converted? options = none ∧ item.toPiece.node? options = none ∧
      item.holdsBrokenRun options = false ∧ item.toPiece.characters = []) ∨
    ∃ converted parsed, item.converted? options = some converted ∧
      item.toPiece.node? options = some parsed ∧ converted.isText = false ∧
      parsed.isText = false := by
  cases item with
  | element name attributes text children tail unprefixed =>
      right
      rw [converted?, toPiece, Piece.node?]
      exact ⟨_, _, rfl, rfl, rfl, rfl⟩
  | comment content tail writable =>
      rw [converted?, toPiece, Piece.node?]
      split
      · exact .inl ⟨rfl, rfl, by rw [holdsBrokenRun]; nofun, rfl⟩
      · exact .inr ⟨_, _, rfl, rfl, rfl, rfl⟩
  | instruction target content tail writable solid =>
      rw [converted?, toPiece, Piece.node?]
      split
      · exact .inl ⟨rfl, rfl, by rw [holdsBrokenRun]; nofun, rfl⟩
      · exact .inr ⟨_, _, rfl, rfl, rfl, rfl⟩

theorem nodesOf_textPieces (pending : List String) (text : Option String) (pieces : List Piece) :
    nodesOf options (Entity.escape (String.join pending).toList) (textPieces text ++ pieces) =
      nodesOf options (Entity.escape (String.join (pending ++ fragmentsOf text)).toList)
        pieces := by
  have behind : Entity.escape (String.join (pending ++ fragmentsOf text)).toList =
      Entity.escape (String.join pending).toList ++ escapedText text := by
    rw [escapedText_eq, String.join_append, String.toList_append, Entity.escape_append]
  rw [behind]
  cases text with
  | none => simp [textPieces, escapedText]
  | some content => rfl

theorem nodesOf_nil_textPieces (text : Option String) (pieces : List Piece) :
    nodesOf options [] (textPieces text ++ pieces) =
      nodesOf options (Entity.escape (String.join (fragmentsOf text)).toList) pieces :=
  nodesOf_textPieces [] text pieces

theorem allOrdered_append_cons (fragments : List String) (node : Tree) (rest : List Tree) :
    allOrdered (keptTexts options fragments ++ node :: rest) =
      keptTexts options fragments ++ node.ordered :: allOrdered rest := by
  rw [allOrdered_eq_map, List.map_append, ← allOrdered_eq_map, allOrdered_keptTexts, List.map_cons,
    ← allOrdered_eq_map]

mutual

theorem ordered_eq_iff : (item : PlainItem) → {converted parsed : Tree} →
    item.converted? options = some converted → item.toPiece.node? options = some parsed →
      (converted.ordered = parsed.ordered ↔ item.holdsBrokenRun options = false)
  | comment content tail writable, converted, parsed, left, right => by
      have same : (comment content tail writable).toPiece.node? options =
          (comment content tail writable).converted? options := by
        rw [toPiece, Piece.node?, String.ofList_toList, converted?]
      rw [same, left] at right
      cases right
      rw [holdsBrokenRun]
      · simp
      · nofun
  | instruction target content tail writable solid, converted, parsed, left, right => by
      have same : (instruction target content tail writable solid).toPiece.node? options =
          (instruction target content tail writable solid).converted? options := by
        rw [toPiece, Piece.node?, String.ofList_toList, converted?]
      rw [same, left] at right
      cases right
      rw [holdsBrokenRun]
      · simp
      · nofun
  | element name attributes text children tail unprefixed, converted, parsed, left, right => by
      have inner := allOrdered_eq_iff children (fragmentsOf text) ne_of_mem_fragmentsOf
      rw [converted?] at left
      rw [toPiece, Piece.node?, attributesOf_escapedEntry, nodesOf_nil_textPieces] at right
      cases left
      cases right
      rw [ordered, ordered, holdsBrokenRun, Bool.or_eq_false_iff, ← inner, keptNodes_eq]
      simp

theorem allOrdered_eq_iff : (items : List PlainItem) → (pending : List String) →
    (∀ fragment ∈ pending, fragment ≠ "") →
      (allOrdered (keptTexts options pending ++ allConverted options items) =
        allOrdered (nodesOf options (Entity.escape (String.join pending).toList)
          (allPieces items)) ↔
        (runsAmong options pending items).any (isBroken options) = false ∧
          holdBrokenRun options items = false)
  | [], pending, solid => by
      rw [allConverted, allPieces, nodesOf, runsAmong, holdBrokenRun, textRun_escape,
        List.append_nil, allOrdered_keptTexts, allOrdered_keptTexts, keptTexts_eq_iff solid]
      simp
  | first :: rest, pending, solid => by
      rw [allConverted, allPieces, nodesOf, runsAmong, holdBrokenRun, keptNodes_eq]
      rcases node?_toPiece_cases options first with
        ⟨gone, absent, whole, void⟩ | ⟨converted, parsed, left, right, leftOther, rightOther⟩
      · have joined : ∀ fragment ∈ pending ++ fragmentsOf first.tail, fragment ≠ "" := by
          rw [List.forall_mem_append]
          exact ⟨solid, ne_of_mem_fragmentsOf⟩
        have induction := allOrdered_eq_iff rest _ joined
        rw [gone, absent, whole, void, List.append_nil, nodesOf_textPieces, Bool.false_or,
          Option.toList_none, List.nil_append, ← List.append_assoc, ← keptTexts_append]
        exact induction
      · have own := ordered_eq_iff first left right
        have induction := allOrdered_eq_iff rest (fragmentsOf first.tail) ne_of_mem_fragmentsOf
        have leftText : converted.ordered.isText = false := by rwa [isText_ordered]
        have rightText : parsed.ordered.isText = false := by rwa [isText_ordered]
        rw [left, right]
        dsimp only
        rw [textRun_escape, nodesOf_nil_textPieces, Option.toList_some, List.singleton_append,
          allOrdered_append_cons, allOrdered_append_cons,
          append_cons_inj_of_isText (fun _ => isText_of_mem_keptTexts)
            (fun _ => isText_of_mem_keptTexts) leftText rightText,
          keptTexts_eq_iff solid, own, induction, List.any_cons, Bool.or_eq_false_iff,
          Bool.or_eq_false_iff]
        tauto

end

/-! Where no node is removed, a run is a fragment at most. -/

theorem isSome_converted?_keepingAll (options : ParserOptions)
    (item : PlainItem) : (item.converted? options.keepingAll).isSome = true := by
  cases item with
  | element name attributes text children tail unprefixed =>
      rw [converted?]
      rfl
  | comment content tail writable => rfl
  | instruction target content tail writable solid => rfl

theorem length_le_of_mem_runsAmong {items : List PlainItem} {pending : List String}
    (short : pending.length ≤ 1) :
    ∀ run ∈ runsAmong options.keepingAll pending items, run.length ≤ 1 := by
  induction items generalizing pending with
  | nil => exact List.forall_mem_singleton.2 short
  | cons first rest induction =>
      rcases Option.isSome_iff_exists.1 (isSome_converted?_keepingAll options first) with
        ⟨tree, converted⟩
      rw [runsAmong, converted]
      exact List.forall_mem_cons.2 ⟨short, induction (length_fragmentsOf_le first.tail)⟩

mutual

theorem holdsBrokenRun_keepingAll : (item : PlainItem) →
    item.holdsBrokenRun options.keepingAll = false
  | element name attributes text children tail unprefixed => by
      rw [holdsBrokenRun, Bool.or_eq_false_iff, List.any_eq_false]
      refine ⟨fun run member => ?_, holdBrokenRun_keepingAll children⟩
      have short := length_le_of_mem_runsAmong (length_fragmentsOf_le text) run member
      have few : ¬ 2 ≤ run.length := by omega
      simp [isBroken, few]
  | comment content tail writable => by
      rw [holdsBrokenRun]
      nofun
  | instruction target content tail writable solid => by
      rw [holdsBrokenRun]
      nofun

theorem holdBrokenRun_keepingAll : (items : List PlainItem) →
    holdBrokenRun options.keepingAll items = false
  | [] => rfl
  | first :: rest => by
      rw [holdBrokenRun, holdsBrokenRun_keepingAll first, holdBrokenRun_keepingAll rest]
      rfl

end

end PlainItem

/-! ## Both ways -/

/-- Compare what an element is converted to with what a text is parsed to. -/
@[irreducible]
def contrastWithParsed (namer : Namer) (options : ParserOptions) (item : Item)
    (content : String) : Edit (Option Contrast) := do
  let converted ← convertElement namer options item
  let (document, _) ← (Input.text content).parse options
  let parsed ← plant document.root
  (← get).contrast? converted parsed

namespace PlainItem

/-- The XML text of an element without the text that follows it. -/
def xml (item : PlainItem) : String := String.ofList item.markup

/-- An element is converted to the tree that it stands for, since nothing in it is refused. -/
theorem convertElement_yields {item : PlainItem} (isElement : item.toItem.isElement = true)
    (sound : grove.Sound) :
    (convertElement namer options item.toItem).Yields grove fun id last =>
      Grove.Enlarged grove last ∧
        ∃ tree, item.converted? options = some tree ∧ last.view? id = some tree := by
  apply (convertElement_shows item.toItem sound).mono
  · rintro id last ⟨enlarged, tree, _, stands, seen⟩
    rw [tree?_toItem, Option.some.injEq] at stands
    exact ⟨enlarged, tree, stands, seen⟩
  · rintro last (other | refused)
    · rw [isElement] at other
      cases other
    · rw [tree?_toItem] at refused
      cases refused

/-- The XML text of an element is parsed, and its root is what the piece denotes. -/
theorem exists_parse_xml (options : ParserOptions) {item : PlainItem}
    (isElement : item.toItem.isElement = true) :
    ∃ document, (Input.text item.xml).parse options = .ok (document, none) ∧
      item.toPiece.node? options = some document.root := by
  cases item with
  | comment content tail writable =>
      rw [toItem] at isElement
      cases isElement
  | instruction target content tail writable solid =>
      rw [toItem] at isElement
      cases isElement
  | element name attributes text children tail unprefixed =>
      refine ⟨_, parse_markup options name attributes text children tail unprefixed, ?_⟩
      rw [toPiece, Piece.node?, attributesOf_escapedEntry]

/-- Neither the conversion of an element nor parsing its XML text fails, and the two nodes are told
apart exactly if the trees are. -/
theorem contrastWithParsed_contrasts (namer : Namer) (options : ParserOptions) (item : PlainItem)
    (isElement : item.toItem.isElement = true) (sound : grove.Sound) :
    (contrastWithParsed namer options item.toItem item.xml).Yields grove fun contrast _ =>
      ∃ converted parsed, item.converted? options = some converted ∧
        item.toPiece.node? options = some parsed ∧
        (contrast = none ↔ converted.difference? parsed = none) := by
  rcases exists_parse_xml options isElement with ⟨document, parsed, denoted⟩
  rw [contrastWithParsed]
  apply Edit.Ensures.bind
  apply (convertElement_yields isElement sound).mono
  rintro converted middle ⟨enlarged, tree, stands, seen⟩
  have middleSound : middle.Sound := enlarged.sound sound
  rw [parsed]
  apply Edit.Ensures.bind
  apply Edit.ensures_pure
  apply Edit.Ensures.bind
  apply ((plant_yields document.root middle).and
    (plant_grows document.root middleSound fun _ => False)).mono
  · rintro other last ⟨sprouts, grown, _⟩
    have lastSound : last.Sound := grown.sound middleSound
    have left : last.view? converted = some tree := grown.retained.view? middleSound seen
    have right : last.view? other = some document.root := sprouts.shows.viewWithin (by omega)
    rcases Grove.exists_contrast? lastSound (Option.isSome_of_eq_some left)
      (Option.isSome_of_eq_some right) with ⟨report, compared⟩
    have apart := Grove.contrast?_eq_ok_none_iff lastSound left right
    rw [compared, Except.ok.injEq] at apart
    apply Edit.Ensures.bind
    apply Edit.ensures_get
    rw [compared]
    exact Edit.ensures_pure ⟨tree, document.root, stands, denoted, apart⟩
  · rintro last ⟨never, _⟩
    exact never

/-- What an element is converted to and what its XML text is parsed to are equal, unless a run of
text in the element is left in parts. Neither the conversion nor the parsing fails. -/
theorem contrastWithParsed_yields (namer : Namer) (options : ParserOptions) (item : PlainItem)
    (isElement : item.toItem.isElement = true) (sound : grove.Sound) :
    (contrastWithParsed namer options item.toItem item.xml).Yields grove fun contrast _ =>
      contrast = none ↔ item.holdsBrokenRun options = false := by
  apply (contrastWithParsed_contrasts namer options item isElement sound).mono
  rintro contrast last ⟨converted, parsed, left, right, same⟩
  rw [same, difference?_eq_none_iff, ordered_eq_iff item left right]

/-- If no node is removed, then both ways agree. -/
theorem contrastWithParsed_keepingAll (namer : Namer) (options : ParserOptions) (item : PlainItem)
    (isElement : item.toItem.isElement = true) (sound : grove.Sound) :
    (contrastWithParsed namer options.keepingAll item.toItem item.xml).Yields grove
      fun contrast _ => contrast = none := by
  apply (contrastWithParsed_contrasts namer options.keepingAll item isElement sound).mono
  rintro contrast last ⟨converted, parsed, left, right, same⟩
  rw [same, difference?_eq_none_iff, ordered_eq_iff item left right]
  exact holdsBrokenRun_keepingAll item

/-- Comments are removed, and blank texts are. -/
def withoutComments : ParserOptions where
  removeComments := true

/-- Comments that are removed stand in front of an element and of a processing instruction, so that
they interrupt no text. -/
def bookItem : PlainItem :=
  .element ⟨"volume", by decide⟩ [(⟨"title", by decide⟩, "\x22A & B\x22")] (some "by <me>")
    [.comment "draft" none (by decide), .element ⟨"page", by decide⟩ [] none [] none (by decide),
      .comment "-" (some "the end") (by decide),
      .instruction ⟨"print", by decide⟩ "all?" none (by decide)
        (startsOutside_cons_iff.2 (by decide))]
    none (by decide)

/-- A comment that is removed stands within a text. -/
def interruptedItem : PlainItem :=
  .element ⟨"verse", by decide⟩ [] (some "a") [.comment "x" (some "b") (by decide)] none
    (by decide)

theorem contrastWithParsed_yields_bookItem :
    bookItem.toItem.isElement = true ∧ Grove.Sound {} ∧
      (contrastWithParsed .standard withoutComments bookItem.toItem bookItem.xml).Yields {}
        fun contrast _ => contrast = none := by
  have conforms : bookItem.holdsBrokenRun withoutComments = false := by decide
  refine ⟨rfl, Grove.sound_empty, ?_⟩
  exact (contrastWithParsed_yields .standard withoutComments bookItem rfl Grove.sound_empty).mono
    fun contrast _ same => same.2 conforms

/-- Parsing joins the text around a comment that is removed, the conversion does not. -/
theorem not_contrastWithParsed_yields :
    ¬ ∀ (namer : Namer) (options : ParserOptions) (item : PlainItem) (grove : Grove),
      item.toItem.isElement = true → grove.Sound →
        (contrastWithParsed namer options item.toItem item.xml).Yields grove fun contrast _ =>
          contrast = none := by
  intro always
  have broken : interruptedItem.holdsBrokenRun withoutComments = true := by decide
  have contrasts := contrastWithParsed_contrasts .standard withoutComments interruptedItem rfl
    Grove.sound_empty
  rcases contrasts.exists_ok (fun _ => id) with
    ⟨contrast, last, succeeded, converted, parsed, left, right, same⟩
  have equal :=
    (always .standard withoutComments interruptedItem {} rfl Grove.sound_empty).of_ok succeeded
  rw [same, difference?_eq_none_iff, ordered_eq_iff _ left right, broken] at equal
  cases equal

end PlainItem

end XmlGrove.Loading
