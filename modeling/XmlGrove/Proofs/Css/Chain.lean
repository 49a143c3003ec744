import XmlGrove.Css.Matching

/-!
# Chains of compounds

What selectors consist of, as far as they are supported: compounds that are chained by combinators.
A selector whose combinators nest to the left is such a chain, or it holds a construct that chains
do without.
-/

namespace XmlGrove.Css

/-! ## Chains -/

/-- What a compound asks for besides the name of a node. -/
inductive Condition where
  | hash (id : String)
  | className (name : String)
  | present (name : String)
  | equals (name value : String)
  | includes (name value : String)

/-- A type, or any one if there is no name or it is `*`, along with conditions. -/
inductive Compound where
  | type (name : Option String)
  | narrowed (base : Compound) (condition : Condition)

inductive Combinator where
  | descendant
  | child

/-- Compounds that are joined by combinators, the last one outermost. -/
inductive Chain where
  | single (compound : Compound)
  | joined (left : Chain) (combinator : Combinator) (right : Compound)

def Condition.narrow (base : Selector) : Condition → Selector
  | .hash id => .hash base id
  | .className name => .className base name
  | .present name => .attribute base none name .exists
  | .equals name value => .attribute base none name (.operator "=" value none)
  | .includes name value => .attribute base none name (.operator "~=" value none)

def Compound.selector : Compound → Selector
  | .type name => .element none name
  | .narrowed base condition => condition.narrow base.selector

def Combinator.symbol : Combinator → Char
  | .descendant => ' '
  | .child => '>'

/-- The selector that a chain is read from. -/
def Chain.selector : Chain → Selector
  | .single compound => compound.selector
  | .joined left combinator right => .combined left.selector combinator.symbol right.selector

/-- The compounds of a chain, in the order in which they are written. -/
def Chain.compounds : Chain → List Compound
  | .single compound => [compound]
  | .joined left _ right => left.compounds ++ [right]

/-- The combinators of a chain, in the order in which they are written. -/
def Chain.combinators : Chain → List Combinator
  | .single _ => []
  | .joined left combinator _ => left.combinators ++ [combinator]

theorem Chain.length_compounds (chain : Chain) :
    chain.compounds.length = chain.combinators.length + 1 := by
  induction chain with
  | single compound => rfl
  | joined left combinator right induction => simp [compounds, combinators, induction]

/-! ## Other constructs -/

/-- A construct that chains do without, other than a flag. -/
inductive IsForeign : Selector → Prop
  | elementSpace (space : String) (name : Option String) : IsForeign (.element (some space) name)
  | attributeSpace (base : Selector) (space name : String) (comparison : Comparison) :
      IsForeign (.attribute base (some space) name comparison)
  | operator (base : Selector) (space : Option String) (name value : String) (flag : Option String)
      {symbol : String} (notEquals : symbol ≠ "=") (notIncludes : symbol ≠ "~=") :
      IsForeign (.attribute base space name (.operator symbol value flag))
  | combinator (left right : Selector) {combinator : Char} (notDescendant : combinator ≠ ' ')
      (notChild : combinator ≠ '>') : IsForeign (.combined left combinator right)
  | pseudo (base : Selector) (name : String) : IsForeign (.pseudo base name)
  | function (base : Selector) (name : String) (arguments : List String) :
      IsForeign (.function base name arguments)
  | negation (base argument : Selector) : IsForeign (.negation base argument)
  | matching (base : Selector) (arguments : List Selector) : IsForeign (.matching base arguments)
  | unweighted (base : Selector) (arguments : List Selector) :
      IsForeign (.unweighted base arguments)
  | relation (base : Selector) (arguments : List Relative) : IsForeign (.relation base arguments)

/-- A test of an attribute that says whether the case counts. -/
inductive IsFlagged : Selector → Prop
  | test (base : Selector) (space : Option String) (name symbol value flag : String) :
      IsFlagged (.attribute base space name (.operator symbol value (some flag)))

/-- A selector is of some kind, or a part of it is. -/
inductive Selector.Holds (kind : Selector → Prop) : Selector → Prop
  | here {selector : Selector} (found : kind selector) : Selector.Holds kind selector
  | hash {base : Selector} (id : String) (found : Selector.Holds kind base) :
      Selector.Holds kind (.hash base id)
  | className {base : Selector} (name : String) (found : Selector.Holds kind base) :
      Selector.Holds kind (.className base name)
  | test {base : Selector} (space : Option String) (name : String) (comparison : Comparison)
      (found : Selector.Holds kind base) :
      Selector.Holds kind (.attribute base space name comparison)
  | left {left : Selector} (combinator : Char) (right : Selector)
      (found : Selector.Holds kind left) : Selector.Holds kind (.combined left combinator right)
  | right (left : Selector) (combinator : Char) {right : Selector}
      (found : Selector.Holds kind right) : Selector.Holds kind (.combined left combinator right)

/-- A selector holds a construct of some kind, or it is about a pseudo-element. -/
def Member.Departs (kind : Selector → Prop) (member : Member) : Prop :=
  member.isPseudoElement = true ∨ member.selector.Holds kind

/-! ## Nesting

A reader of selectors has something to narrow down or to combine before it reads on, so that
combined selectors are nested to the left. -/

/-- A type with what narrows it down, or another construct than a combined selector. -/
def Selector.isUncombined : Selector → Bool
  | .hash base _ | .className base _ | .attribute base .. => base.isUncombined
  | .combined .. => false
  | _ => true

def Selector.isLeftNested : Selector → Bool
  | .combined left _ right => left.isLeftNested && right.isUncombined
  | other => other.isUncombined

theorem Selector.alternatives_of_isUncombined : (selector : Selector) →
    selector.isUncombined = true → selector.Holds IsForeign ∨ selector.Holds IsFlagged ∨
      ∃ compound : Compound, selector = compound.selector
  | .element none name, _ => .inr (.inr ⟨.type name, rfl⟩)
  | .element (some space) name, _ => .inl (.here (.elementSpace space name))
  | .hash base id, uncombined => by
      rcases base.alternatives_of_isUncombined uncombined with foreign | flagged | ⟨compound, rfl⟩
      · exact .inl (.hash id foreign)
      · exact .inr (.inl (.hash id flagged))
      · exact .inr (.inr ⟨.narrowed compound (.hash id), rfl⟩)
  | .className base name, uncombined => by
      rcases base.alternatives_of_isUncombined uncombined with foreign | flagged | ⟨compound, rfl⟩
      · exact .inl (.className name foreign)
      · exact .inr (.inl (.className name flagged))
      · exact .inr (.inr ⟨.narrowed compound (.className name), rfl⟩)
  | .attribute base (some space) name comparison, _ =>
      .inl (.here (.attributeSpace base space name comparison))
  | .attribute base none name comparison, uncombined => by
      rcases base.alternatives_of_isUncombined uncombined with foreign | flagged | ⟨compound, rfl⟩
      · exact .inl (.test none name comparison foreign)
      · exact .inr (.inl (.test none name comparison flagged))
      · match comparison with
        | .exists => exact .inr (.inr ⟨.narrowed compound (.present name), rfl⟩)
        | .operator symbol value (some flag) =>
            exact .inr (.inl (.here (.test _ none name symbol value flag)))
        | .operator symbol value none =>
            by_cases equals : symbol = "="
            · subst equals
              exact .inr (.inr ⟨.narrowed compound (.equals name value), rfl⟩)
            · by_cases includes : symbol = "~="
              · subst includes
                exact .inr (.inr ⟨.narrowed compound (.includes name value), rfl⟩)
              · exact .inl (.here (.operator _ none name value none equals includes))
  | .pseudo base name, _ => .inl (.here (.pseudo base name))
  | .function base name arguments, _ => .inl (.here (.function base name arguments))
  | .negation base argument, _ => .inl (.here (.negation base argument))
  | .matching base arguments, _ => .inl (.here (.matching base arguments))
  | .unweighted base arguments, _ => .inl (.here (.unweighted base arguments))
  | .relation base arguments, _ => .inl (.here (.relation base arguments))

theorem Selector.alternatives_of_isLeftNested {selector : Selector}
    (nested : selector.isLeftNested = true) :
    selector.Holds IsForeign ∨ selector.Holds IsFlagged ∨
      ∃ chain : Chain, selector = chain.selector := by
  induction selector using Selector.isLeftNested.induct with
  | case1 left combinator right induction =>
      rw [isLeftNested, Bool.and_eq_true] at nested
      rcases induction nested.1 with foreign | flagged | ⟨chain, rfl⟩
      · exact .inl (.left combinator right foreign)
      · exact .inr (.inl (.left combinator right flagged))
      · rcases right.alternatives_of_isUncombined nested.2 with foreign | flagged | ⟨last, rfl⟩
        · exact .inl (.right _ combinator foreign)
        · exact .inr (.inl (.right _ combinator flagged))
        · by_cases descendant : combinator = ' '
          · subst descendant
            exact .inr (.inr ⟨.joined chain .descendant last, rfl⟩)
          · by_cases child : combinator = '>'
            · subst child
              exact .inr (.inr ⟨.joined chain .child last, rfl⟩)
            · exact .inl (.here (.combinator _ _ descendant child))
  | case2 other single =>
      rw [isLeftNested.eq_2 _ single] at nested
      rcases other.alternatives_of_isUncombined nested with foreign | flagged | ⟨compound, equal⟩
      · exact .inl foreign
      · exact .inr (.inl flagged)
      · exact .inr (.inr ⟨.single compound, equal⟩)

/-- A member of a group is a chain and nothing else, or it holds something else. -/
theorem Member.departs_or_chain {member : Member} (nested : member.selector.isLeftNested = true) :
    member.Departs IsForeign ∨ member.selector.Holds IsFlagged ∨
      ∃ chain : Chain, member = ⟨chain.selector, false⟩ := by
  rcases member with ⟨selector, isPseudoElement⟩
  cases isPseudoElement with
  | true => exact .inl (.inl rfl)
  | false =>
      rcases Selector.alternatives_of_isLeftNested nested with foreign | flagged | ⟨chain, rfl⟩
      · exact .inl (.inr foreign)
      · exact .inr (.inl flagged)
      · exact .inr (.inr ⟨chain, rfl⟩)

/-! ## Supported selectors -/

def Comparison.unsupported? : Comparison → Option String
  | .exists | .operator "=" .. | .operator "~=" .. => none
  | .operator symbol .. => some s!"The attribute operator `{symbol}`"

theorem Selector.unsupported?_attribute (base : Selector) (space : Option String) (name : String)
    (comparison : Comparison) : (Selector.attribute base space name comparison).unsupported? =
      if space.isSome then some namespacesFeature
      else base.unsupported?.or comparison.unsupported? :=
  rfl

theorem Comparison.unsupported?_operator {symbol : String} (value : String) (flag : Option String)
    (notEquals : symbol ≠ "=") (notIncludes : symbol ≠ "~=") :
    (Comparison.operator symbol value flag).unsupported?.isSome = true := by
  rw [unsupported?]
  · rfl
  · exact notEquals
  · exact notIncludes

theorem unsupported?_of_holds {selector : Selector} (found : selector.Holds IsForeign) :
    selector.unsupported?.isSome = true := by
  induction found with
  | here foreign =>
      cases foreign with
      | operator base space name value flag notEquals notIncludes =>
          rw [Selector.unsupported?_attribute]
          split
          · rfl
          · simp [Comparison.unsupported?_operator value flag notEquals notIncludes]
      | combinator left right notDescendant notChild =>
          simp [Selector.unsupported?, notDescendant, notChild]
      | _ => simp [Selector.unsupported?]
  | hash id found induction => simpa [Selector.unsupported?] using induction
  | className name found induction => simpa [Selector.unsupported?] using induction
  | test space name comparison found induction =>
      rw [Selector.unsupported?_attribute]
      split
      · rfl
      · simp [induction]
  | left combinator right found induction => simp [Selector.unsupported?, induction]
  | right left combinator found induction => simp [Selector.unsupported?, induction]

theorem holds_of_unsupported? : ∀ {selector : Selector},
    selector.unsupported?.isSome = true → selector.Holds IsForeign
  | .element (some space) name, _ => .here (.elementSpace space name)
  | .hash base id, found => .hash id (holds_of_unsupported? found)
  | .className base name, found => .className name (holds_of_unsupported? found)
  | .attribute base (some space) name comparison, _ =>
      .here (.attributeSpace base space name comparison)
  | .attribute base none name comparison, found => by
      rw [Selector.unsupported?_attribute, if_neg (by simp), Option.isSome_or, Bool.or_eq_true]
        at found
      rcases found with inner | outer
      · exact .test none name comparison (holds_of_unsupported? inner)
      · rcases comparison with _ | ⟨symbol, value, flag⟩
        · cases outer
        · apply Selector.Holds.here
          apply IsForeign.operator
          · intro equal
            subst equal
            cases outer
          · intro equal
            subst equal
            cases outer
  | .combined left combinator right, found => by
      simp [Selector.unsupported?] at found
      rcases found with inner | inner | outer
      · exact .left combinator right (holds_of_unsupported? inner)
      · exact .right left combinator (holds_of_unsupported? inner)
      · exact .here (.combinator left right outer.1 outer.2)
  | .pseudo base name, _ => .here (.pseudo base name)
  | .function base name arguments, _ => .here (.function base name arguments)
  | .negation base argument, _ => .here (.negation base argument)
  | .matching base arguments, _ => .here (.matching base arguments)
  | .unweighted base arguments, _ => .here (.unweighted base arguments)
  | .relation base arguments, _ => .here (.relation base arguments)

/-- A member of a group is refused exactly if something in it is foreign, wherever it stands. -/
theorem Member.isSome_unsupported?_iff (member : Member) :
    member.unsupported?.isSome = true ↔ member.Departs IsForeign := by
  rcases member with ⟨selector, isPseudoElement⟩
  cases isPseudoElement with
  | true => exact iff_of_true rfl (.inl rfl)
  | false =>
      constructor
      · intro found
        exact .inr (holds_of_unsupported? found)
      · intro departs
        rcases departs with impossible | found
        · cases impossible
        · exact unsupported?_of_holds found

theorem Compound.unsupported?_selector (compound : Compound) :
    compound.selector.unsupported? = none := by
  induction compound with
  | type name => rfl
  | narrowed base condition induction =>
      rw [Compound.selector]
      cases condition with
      | hash id => exact induction
      | className name => exact induction
      | present name | equals name value | includes name value =>
          rw [Condition.narrow, Selector.unsupported?_attribute, induction]
          rfl

theorem Chain.unsupported?_selector (chain : Chain) : chain.selector.unsupported? = none := by
  induction chain with
  | single compound => exact compound.unsupported?_selector
  | joined left combinator right induction =>
      rw [Chain.selector, Selector.unsupported?, induction, right.unsupported?_selector]
      cases combinator <;> rfl

/-! ## Flags -/

def Comparison.withoutFlag : Comparison → Comparison
  | .exists => .exists
  | .operator symbol value _ => .operator symbol value none

/-- A selector without the flags of its own comparisons; those in arguments are kept. -/
def Selector.withoutFlags : Selector → Selector
  | .hash base id => .hash base.withoutFlags id
  | .className base name => .className base.withoutFlags name
  | .attribute base space name comparison =>
    .attribute base.withoutFlags space name comparison.withoutFlag
  | .combined left combinator right =>
    .combined left.withoutFlags combinator right.withoutFlags
  | other => other

def Member.withoutFlags (member : Member) : Member :=
  { member with selector := member.selector.withoutFlags }

theorem Comparison.unsupported?_withoutFlag (comparison : Comparison) :
    comparison.withoutFlag.unsupported? = comparison.unsupported? := by
  rcases comparison with _ | ⟨symbol, value, flag⟩
  · rfl
  · rw [withoutFlag]
    unfold unsupported?
    split <;> simp_all

theorem Selector.unsupported?_withoutFlags : ∀ selector : Selector,
    selector.withoutFlags.unsupported? = selector.unsupported?
  | .hash base _ | .className base _ => base.unsupported?_withoutFlags
  | .attribute base space name comparison => by
      rw [withoutFlags, unsupported?_attribute, unsupported?_attribute,
        base.unsupported?_withoutFlags, comparison.unsupported?_withoutFlag]
  | .combined left combinator right => by
      rw [withoutFlags, unsupported?, unsupported?, left.unsupported?_withoutFlags,
        right.unsupported?_withoutFlags]
  | .element .. | .pseudo .. | .function .. | .negation .. | .matching .. | .unweighted ..
  | .relation .. => rfl

end XmlGrove.Css
