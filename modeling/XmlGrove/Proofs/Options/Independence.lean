import XmlGrove.Proofs.Continuation.Completion

/-!
# What options have no influence on

Options decide which nodes are kept. What a parser goes on with after a step is another matter:
the cursor and the names of the open tags. Two runs over one text with different options are at
the same place after each step, hence they fail with the same fault or not at all.
-/

namespace XmlGrove

namespace Parse

/-! ## Places -/

/-- The names of the open tags, innermost one first, and the cursor. -/
def Progress.place (progress : Progress) : List Name × Cursor :=
  (progress.innermost.name :: progress.outer.map OpenTag.name, progress.cursor)

/-- Where a step leads to. No tag is open once the outermost one is complete. -/
def Outcome.place : Outcome → List Name × Cursor
  | continues progress => progress.place
  | complete _ cursor => ([], cursor)

/-- Where a token leads to that ends at a cursor, within open tags of the given names. -/
def passToken (names : List Name) (next : Cursor) :
    Token → Except ParsingFault (List Name × Cursor)
  | .text _ | .leaf _ | .startTag (.empty _ _) => .ok (names, next)
  | .startTag (.opening name _) => .ok (name :: names, next)
  | .endTag name =>
    match names with
    | [] => .ok ([], next)
    | innermost :: outer =>
      if name = innermost then .ok (outer, next)
      else .error (.mismatchedTags innermost.text name.text next.location)

@[simp] theorem place_add (options : ParserOptions) (progress : Progress) (node : Tree)
    (next : Cursor) : (progress.add options node next).place = (progress.place.1, next) := by
  simp [Progress.place, Progress.add, Progress.flush_eq, OpenTag.push]

@[simp] theorem place_enter (options : ParserOptions) (progress : Progress) (name : Name)
    (attributes : Attributes) (next : Cursor) :
    (progress.enter options name attributes next).place = (name :: progress.place.1, next) := by
  simp [Progress.place, Progress.enter, Progress.flush_eq]

@[simp] theorem place_close_flush (options : ParserOptions) (progress : Progress)
    (next : Cursor) :
    (close (progress.flush options) next).place = (progress.place.1.tail, next) := by
  rw [close, Progress.flush_eq]
  cases outer : progress.outer with
  | nil => simp [Outcome.place, Progress.place, outer]
  | cons parent others => simp [Outcome.place, Progress.place, OpenTag.push, outer]

/-- Where a token leads to depends on the place only. -/
theorem place_after (options : ParserOptions) (progress : Progress) (next : Cursor)
    (token : Token) :
    (progress.after options next token).map Outcome.place =
      passToken progress.place.1 next token := by
  cases token with
  | text characters => rfl
  | leaf content =>
      rw [Progress.after]
      split
      · exact congrArg Except.ok (place_add options progress _ next)
      · rfl
  | startTag tag =>
      cases tag with
      | empty name attributes => exact congrArg Except.ok (place_add options progress _ next)
      | opening name attributes => exact congrArg Except.ok (place_enter options progress _ _ next)
  | endTag name =>
      by_cases matching : name = progress.innermost.name
      · simp [Progress.after, passToken, Progress.place, matching, Except.map]
      · simp [Progress.after, passToken, Progress.place, matching, Except.map]

/-- Steps from one place lead to one place, whatever the options are. -/
theorem place_step (first second : ParserOptions) {progress other : Progress}
    (same : progress.place = other.place) :
    (step first progress).map Outcome.place = (step second other).map Outcome.place := by
  have sameNames : progress.place.1 = other.place.1 := congrArg Prod.fst same
  have sameCursor : progress.cursor = other.cursor := congrArg Prod.snd same
  have sameName : progress.innermost.name = other.innermost.name := (List.cons.inj sameNames).1
  rw [step_eq, step_eq, sameCursor, sameName]
  split
  · rfl
  · cases readToken other.cursor with
    | error fault => rfl
    | ok read =>
        change (progress.after first read.2 read.1).map _ = (other.after second read.2 read.1).map _
        rw [place_after, place_after, sameNames]

/-! ## Elements -/

theorem readContent_place (first second : ParserOptions) {progress other : Progress}
    (same : progress.place = other.place) :
    (readContent first progress).map Prod.snd = (readContent second other).map Prod.snd := by
  fun_induction readContent first progress generalizing other with
  | case1 progress fault stepped =>
      have passed := place_step first second same
      rw [stepped] at passed
      rw [readContent_of_error (map_eq_error_iff.1 passed.symm)]
  | case2 progress node cursor stepped =>
      have passed := place_step first second same
      rw [stepped] at passed
      rcases map_eq_ok_iff.1 passed.symm with ⟨outcome, otherStepped, samePlace⟩
      cases outcome with
      | continues following => cases samePlace
      | complete otherNode otherCursor =>
          cases samePlace
          rw [readContent_of_complete otherStepped]
          rfl
  | case3 progress following stepped induction =>
      have passed := place_step first second same
      rw [stepped] at passed
      rcases map_eq_ok_iff.1 passed.symm with ⟨outcome, otherStepped, samePlace⟩
      cases outcome with
      | continues otherFollowing =>
          rw [readContent_of_continues otherStepped]
          exact induction samePlace.symm
      | complete otherNode otherCursor => cases samePlace

theorem readElement_place (first second : ParserOptions) (cursor : Cursor) :
    (readElement first cursor).map Prod.snd = (readElement second cursor).map Prod.snd := by
  rw [readElement, readElement]
  rcases readStartTag cursor with fault | ⟨tag, next⟩
  · rfl
  · cases tag with
    | empty name attributes => rfl
    | opening name attributes => exact readContent_place first second rfl

/-! ## Documents -/

/-- What options keep of what precedes a root is a part of what is there. -/
theorem readPrologue_eq_filter (options : ParserOptions) (cursor : Cursor) :
    readPrologue options cursor =
      (readPrologue {} cursor).map fun (leaves, next) => (leaves.filter (keeps options), next) := by
  fun_induction readPrologue options cursor with
  | case1 cursor starts fault failed =>
      rw [readPrologue_eq_of_instruction starts, failed]
      rfl
  | case2 cursor starts target content next read induction =>
      rw [readPrologue_of_instruction starts read, induction]
      cases readPrologue {} next.skipBlanks with
      | error fault => rfl
      | ok rest => simp [Except.map, ← List.filter_append, keeps]
  | case3 cursor different starts fault failed =>
      rw [readPrologue_eq_of_comment starts, failed]
      rfl
  | case4 cursor different starts content next read induction =>
      rw [readPrologue_of_comment starts read, induction]
      cases readPrologue {} next.skipBlanks with
      | error fault => rfl
      | ok rest => simp [Except.map, ← List.filter_append, keeps]
  | case5 cursor different other =>
      rw [readPrologue, if_neg different, if_neg other]
      rfl

theorem readPrologue_place (first second : ParserOptions) (cursor : Cursor) :
    (readPrologue first cursor).map Prod.snd = (readPrologue second cursor).map Prod.snd := by
  rw [readPrologue_eq_filter first, readPrologue_eq_filter second]
  cases readPrologue {} cursor with
  | error fault => rfl
  | ok read => rfl

end Parse

/-- What a document says about itself in front of all nodes. -/
def ParsedDocument.heading (document : ParsedDocument) : Option String × String × String :=
  (document.declaration, document.version, document.encoding)

namespace Parse

theorem heading_assemble (first second : ParserOptions) (opening : Opening)
    (leaves others : List Leaf) (root other : Tree) :
    (assemble first opening leaves root).heading =
      (assemble second opening others other).heading := by
  cases opening with
  | declaration content => rfl
  | node leaf => rfl
  | nothing => rfl

theorem map_bind_congr (pass : α → γ) (view : β → δ) {first second : Except ParsingFault α}
    {next other : α → Except ParsingFault β} (same : first.map pass = second.map pass)
    (alike : ∀ value another, pass value = pass another →
      (next value).map view = (other another).map view) :
    (first >>= next).map view = (second >>= other).map view := by
  cases first with
  | error fault =>
      rw [map_eq_error_iff.1 same.symm]
      rfl
  | ok value =>
      rcases map_eq_ok_iff.1 same.symm with ⟨another, rfl, equal⟩
      exact alike value another equal.symm

/-- The heading of a document, and the fault if there is one, do not depend on the options. -/
theorem document_heading (first second : ParserOptions) (text : List Char) :
    (document first text).map ParsedDocument.heading =
      (document second text).map ParsedDocument.heading := by
  refine map_bind_congr id _ rfl fun opened _ same => ?_
  cases same
  refine map_bind_congr Prod.snd _ (readPrologue_place first second _) fun read other same => ?_
  refine map_bind_congr id _ (by rw [same]) fun _ _ _ => ?_
  refine map_bind_congr Prod.snd _ ?_ fun root another closed => ?_
  · rw [same]
    exact readElement_place first second _
  refine map_bind_congr id _ (by rw [closed]) fun _ _ _ => ?_
  exact congrArg Except.ok (heading_assemble first second _ _ _ _ _)

end Parse

end XmlGrove
