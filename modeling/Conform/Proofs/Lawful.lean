import Conform.Dsl.Tree
import Conform.Proofs.Ensuring

/-! # Lawful checks — bounds and choices that suit their type

    A clause SUITS a measure when it bounds something the measure can be: counts are
    whole and not negative, a range has a bound and its ends are in order, and only
    a number is compared for equality.  A literal suits a type when it has the JSON
    type of its values.  A node's checks are LAWFUL when its clause suits the measure
    of its base type and its choices, two or more, suit that type.

    Whatever text is read as a clause or as choices, what comes out is lawful
    (`suits_of_clauseOf`, `suits_of_choicesOf`), and a node stays lawful when it is
    constrained (`lawful_of_constrain`). -/

namespace Conform

/-! ## What suits -/

namespace Measure

/-- The numbers that may bound a measure: whole and not negative for a count, any
    number otherwise. -/
def Admits : Measure → Binary64 → Prop
  | .value, bound => bound.isNan = false
  | _, bound => bound.isIntegral = true ∧ Binary64.lt bound .zero = false

variable {measure : Measure} {bound : Binary64}

/-- A bound of a count is a whole number that is not negative. -/
theorem admits_count (h : measure ≠ .value) :
    measure.Admits bound ↔ bound.isIntegral = true ∧ Binary64.lt bound .zero = false := by
  cases measure with
  | value => exact absurd rfl h
  | length => exact Iff.rfl
  | items => exact Iff.rfl
  | properties => exact Iff.rfl

/-- No bound is anything but a number. -/
theorem Admits.isNan (h : measure.Admits bound) : bound.isNan = false := by
  by_cases hv : measure = .value
  · subst hv
    exact h
  · rw [admits_count hv] at h
    cases bound with
    | nan => exact nomatch h.1
    | infinite negative => rfl
    | finite x => rfl

end Measure

/-- The clause suits the measure. -/
def Clause.Suits (measure : Measure) : Clause → Prop
  | .range least most =>
      (least.isSome ∨ most.isSome) ∧ (∀ bound ∈ least, measure.Admits bound)
        ∧ (∀ bound ∈ most, measure.Admits bound)
        ∧ ∀ low ∈ least, ∀ high ∈ most, Binary64.le low high = true
  | .above bound => measure.Admits bound
  | .atLeast bound => measure.Admits bound
  | .below bound =>
      measure.Admits bound ∧ (measure ≠ .value → Binary64.lt .zero bound = true)
  | .atMost bound => measure.Admits bound
  | .equalTo bound => measure = .value ∧ measure.Admits bound
  | .exactly count => measure ≠ .value ∧ count ≤ Binary64.mostUnsigned64

/-- The literal suits the type. -/
def Literal.Suits : BaseType → Literal → Prop
  | .primitive .string, .string _ => True
  | .primitive (.format _), .string _ => True
  | .primitive .number, .number value => value.isNan = false
  | .primitive .integer, .number value => value.isIntegral = true
  | .primitive .boolean, .boolean _ => True
  | _, _ => False

/-- The clause and the choices among the facets suit the type. -/
structure Facets.Lawful (base : BaseType) (facets : Facets) : Prop where
  clause : ∀ clause ∈ facets.clause, ∃ measure, base.measure? = some measure ∧ clause.Suits measure
  choices : ∀ literal ∈ facets.choices, literal.Suits base
  several : facets.choices = [] ∨ 2 ≤ facets.choices.length

/-- Without clause and choices there is nothing to suit. -/
theorem Facets.lawful_of_bare {base : BaseType} {facets : Facets} (hclause : facets.clause = none)
    (hchoices : facets.choices = []) : facets.Lawful base where
  clause := by
    rw [hclause]
    intro clause hmem
    exact nomatch hmem
  choices := by
    rw [hchoices]
    intro literal hmem
    exact nomatch hmem
  several := Or.inl hchoices

/-! ## Order of doubles -/

namespace Binary64

/-- Of two numbers one is at most the other. -/
theorem le_of_not_lt {x y : Binary64} (hx : x.isNan = false) (hy : y.isNan = false)
    (h : lt y x = false) : le x y = true := by
  cases x with
  | nan => exact nomatch hx
  | infinite a =>
      cases y with
      | nan => exact nomatch hy
      | infinite b => cases a <;> cases b <;> first | rfl | exact nomatch h
      | finite y =>
          cases a with
          | true => rfl
          | false => exact nomatch h
  | finite x =>
      cases y with
      | nan => exact nomatch hy
      | infinite b =>
          cases b with
          | true => exact nomatch h
          | false => rfl
      | finite y =>
          simp only [lt, decide_eq_false_iff_not] at h
          simp only [le, lt, eq, Bool.or_eq_true, decide_eq_true_eq]
          omega

/-- What is not negative and not zero is above zero. -/
theorem zero_lt_of {x : Binary64} (hx : x.isNan = false) (hlt : lt x zero = false)
    (heq : eq x zero = false) : lt zero x = true := by
  have hle := le_of_not_lt (x := zero) (y := x) rfl hx hlt
  unfold le at hle
  rcases Bool.or_eq_true _ _ ▸ hle with h | h
  · exact h
  · cases x with
    | nan => exact nomatch hx
    | infinite a => exact nomatch h
    | finite x =>
        simp only [eq, zero, decide_eq_true_eq, decide_eq_false_iff_not] at h heq
        exact absurd h.symm heq

/-- Rounding a quotient gives a number. -/
theorem isNan_ofScaled (negative : Bool) (num den : Nat) : (ofScaled negative num den).isNan = false := by
  have hall : ∀ significand shift, (if h : Canonical significand shift
      then finite ⟨negative, significand, shift, h⟩ else infinite negative).isNan = false := by
    intro significand shift
    split <;> rfl
  exact hall _ _

/-- A decimal number is a number. -/
theorem isNan_ofDecimal (negative : Bool) (digits : Nat) (exponent : Int) :
    (ofDecimal negative digits exponent).isNan = false := by
  unfold ofDecimal
  by_cases hzero : digits = 0
  · rw [if_pos hzero]
    rfl
  rw [if_neg hzero]
  by_cases hsign : 0 ≤ exponent
  · rw [if_pos hsign]
    by_cases hfar : 400 ≤ exponent
    · rw [if_pos hfar]
      rfl
    · rw [if_neg hfar]
      exact isNan_ofScaled _ _ _
  · rw [if_neg hsign]
    show (if digits.log2 + 1200 ≤ 3 * exponent.natAbs then _ else _ : Binary64).isNan = false
    split
    · rfl
    · exact isNan_ofScaled _ _ _

/-- A conversion to 64 unsigned bits ends in their range. -/
theorem toUnsigned64_le (x : Binary64) : x.toUnsigned64 ≤ mostUnsigned64 := by
  cases x with
  | nan => exact Nat.zero_le _
  | infinite negative =>
      cases negative with
      | true => exact Nat.zero_le _
      | false => exact Nat.le_refl _
  | finite x =>
      show (clamp 0 (mostUnsigned64 : Int) x.truncated).toNat ≤ mostUnsigned64
      unfold clamp
      split
      · exact Nat.zero_le _
      · split
        · exact Nat.le_refl _
        · omega

end Binary64

namespace Dsl

open Conform.Text (Chars pieces trim)

/-! ## Numerals and clauses -/

/-- The double of a numeral is a number. -/
theorem isNan_of_toBinary64? {numeral : Numeral} {value : Binary64}
    (h : numeral.toBinary64? = some value) : value.isNan = false := by
  unfold Numeral.toBinary64? at h
  obtain ⟨-, hvalue⟩ := Option.ite_none_right_eq_some.1 h
  obtain rfl := Option.some.inj hvalue
  exact Binary64.isNan_ofDecimal _ _ _

/-- A numeral that is taken for a bound may be one. -/
theorem admits_of_bound {measure : Measure} {numeral : Numeral} {bound : Binary64}
    (h : numeral.bound measure = .ok bound) : measure.Admits bound := by
  unfold Numeral.bound at h
  cases hv : numeral.toBinary64? with
  | none =>
      rw [hv] at h
      exact nomatch h
  | some value =>
      rw [hv] at h
      by_cases hbad : measure ≠ .value ∧ (Binary64.lt value .zero || !value.isIntegral) = true
      · simp only [if_pos hbad] at h
        exact nomatch h
      simp only [if_neg hbad, Except.ok.injEq] at h
      subst h
      by_cases hm : measure = .value
      · subst hm
        exact isNan_of_toBinary64? hv
      · rw [Measure.admits_count hm]
        have hgood := not_and.1 hbad hm
        rw [Bool.or_eq_true, Bool.not_eq_true', not_or] at hgood
        exact ⟨Bool.not_eq_false _ ▸ hgood.2, Bool.not_eq_true _ ▸ hgood.1⟩

/-- What is read as a bound can bound what is measured. -/
theorem admits_of_boundOf {measure : Measure} {text : Chars} {bound : Binary64}
    (h : boundOf measure text = .ok bound) : measure.Admits bound := by
  unfold boundOf at h
  cases hn : numeral? text with
  | none =>
      rw [hn] at h
      exact nomatch h
  | some numeral =>
      rw [hn] at h
      exact admits_of_bound h

/-- What is read as the end of a range can bound what is measured. -/
theorem admits_of_endBound {measure : Measure} {numeral : Option Numeral} {bound : Option Binary64}
    (h : endBound measure numeral = .ok bound) : ∀ b ∈ bound, measure.Admits b := by
  intro b hb
  obtain rfl := Option.mem_def.1 hb
  cases numeral with
  | none => exact nomatch h
  | some numeral =>
      obtain ⟨value, hv, hok⟩ := exists_of_bind_eq_ok h
      obtain rfl : value = b := Option.some.inj (Except.ok.inj hok)
      exact admits_of_bound hv

/-- The ends of a range are in order. -/
theorem suits_of_rangeOf {measure : Measure} {text : Chars} {least most : Option Binary64}
    {clause : Clause} (hleast : ∀ b ∈ least, measure.Admits b) (hmost : ∀ b ∈ most, measure.Admits b)
    (h : rangeOf text least most = .ok clause) : clause.Suits measure := by
  cases least with
  | none =>
      cases most with
      | none => exact nomatch h
      | some high =>
          obtain rfl := Except.ok.inj h
          exact ⟨Or.inr rfl, hleast, hmost, (fun _ hlow => nomatch hlow)⟩
  | some low =>
      cases most with
      | none =>
          obtain rfl := Except.ok.inj h
          exact ⟨Or.inl rfl, hleast, hmost, fun _ _ _ hhigh => nomatch hhigh⟩
      | some high =>
          by_cases hlt : Binary64.lt high low = true
          · simp only [rangeOf, if_pos hlt] at h
            exact nomatch h
          simp only [rangeOf, if_neg hlt, Except.ok.injEq] at h
          subst h
          refine ⟨Or.inl rfl, hleast, hmost, ?_⟩
          rintro _ ⟨⟩ _ ⟨⟩
          exact Binary64.le_of_not_lt (hleast low rfl).isNan (hmost high rfl).isNan
            (Bool.not_eq_true _ ▸ hlt)

/-- An operator with a bound suits, unless it asks for a count below zero. -/
theorem suits_of_comparison {measure : Measure} {comparison : Comparison} {bound : Binary64}
    (hbound : measure.Admits bound)
    (hzero : ¬(comparison = .below ∧ measure ≠ .value ∧ Binary64.eq bound .zero = true)) :
    (comparison.clause measure bound).Suits measure := by
  cases comparison with
  | atLeast => exact hbound
  | atMost => exact hbound
  | above => exact hbound
  | below =>
      refine ⟨hbound, ?_⟩
      intro hm
      have heq := not_and.1 (not_and.1 hzero rfl) hm
      exact Binary64.zero_lt_of hbound.isNan ((Measure.admits_count hm).1 hbound).2
        (Bool.not_eq_true _ ▸ heq)
  | equal =>
      show (if measure = .value then _ else _ : Clause).Suits measure
      by_cases hm : measure = .value
      · rw [if_pos hm]
        exact ⟨hm, hbound⟩
      · rw [if_neg hm]
        exact ⟨hm, Binary64.toUnsigned64_le bound⟩

/-- **A CLAUSE THAT IS READ SUITS ITS MEASURE**, whatever the text. -/
theorem suits_of_clauseOf {measure : Measure} {source : Chars} {clause : Clause}
    (h : clauseOf measure source = .ok clause) : clause.Suits measure := by
  unfold clauseOf at h
  by_cases hempty : (trim source).isEmpty = true
  · simp only [if_pos hempty] at h
    exact nomatch h
  simp only [if_neg hempty] at h
  -- an operator is looked for first, then two ends, then a number that is the most
  cases hc : readComparison? (trim source) with
  | some read =>
      obtain ⟨comparison, rest⟩ := read
      rw [hc] at h
      obtain ⟨bound, hbound, h⟩ := exists_of_bind_eq_ok h
      by_cases hzero : comparison = .below ∧ measure ≠ .value ∧ Binary64.eq bound .zero = true
      · rw [if_pos hzero] at h
        exact nomatch h
      rw [if_neg hzero] at h
      obtain rfl := Except.ok.inj h
      exact suits_of_comparison (admits_of_boundOf hbound) hzero
  | none =>
      rw [hc] at h
      cases he : ends? (trim source) with
      | some found =>
          obtain ⟨least, most⟩ := found
          rw [he] at h
          obtain ⟨low, hlow, h⟩ := exists_of_bind_eq_ok h
          obtain ⟨high, hhigh, h⟩ := exists_of_bind_eq_ok h
          exact suits_of_rangeOf (admits_of_endBound hlow) (admits_of_endBound hhigh) h
      | none =>
          rw [he] at h
          cases hn : numeral? (trim source) with
          | none =>
              rw [hn] at h
              exact nomatch h
          | some numeral =>
              rw [hn] at h
              obtain ⟨most, hmost, h⟩ := exists_of_bind_eq_ok h
              obtain rfl := Except.ok.inj h
              refine ⟨Or.inr rfl, (fun _ hb => nomatch hb), ?_, (fun _ hb => nomatch hb)⟩
              rintro _ ⟨⟩
              exact admits_of_bound hmost

/-! ## Choices -/

/-- Choices of one type stand at this type, or strings at a format. -/
theorem base_of_ofBase? {base : BaseType} {type : ChoiceType}
    (h : ChoiceType.ofBase? base = some type) :
    base = .primitive type.primitive ∨ type = .string ∧ ∃ format, base = .primitive (.format format) := by
  cases base with
  | object => exact nomatch h
  | array => exact nomatch h
  | primitive p =>
      cases p with
      | null => exact nomatch h
      | any => exact nomatch h
      | format format => exact Or.inr ⟨(Option.some.inj h).symm, format, rfl⟩
      | string =>
          obtain rfl := Option.some.inj h
          exact Or.inl rfl
      | number =>
          obtain rfl := Option.some.inj h
          exact Or.inl rfl
      | integer =>
          obtain rfl := Option.some.inj h
          exact Or.inl rfl
      | boolean =>
          obtain rfl := Option.some.inj h
          exact Or.inl rfl

/-- A member that is taken for a literal of a type is one. -/
theorem suits_of_choiceOf {type : ChoiceType} {member : Chars} {literal : Literal}
    (h : choiceOf type member = .ok literal) : literal.Suits (.primitive type.primitive) := by
  -- a text stands for itself, and the other types refuse a member they cannot read
  cases type with
  | string =>
      obtain rfl := Except.ok.inj h
      trivial
  | boolean =>
      simp only [choiceOf] at h
      cases hb : booleanMember? member with
      | none =>
          rw [hb] at h
          exact nomatch h
      | some value =>
          rw [hb] at h
          obtain rfl := Except.ok.inj h
          trivial
  | number =>
      simp only [choiceOf] at h
      cases hv : (numeral? member).bind Numeral.toBinary64? with
      | none =>
          rw [hv] at h
          exact nomatch h
      | some value =>
          rw [hv] at h
          obtain rfl := Except.ok.inj h
          obtain ⟨numeral, -, hn⟩ := Option.bind_eq_some_iff.1 hv
          exact isNan_of_toBinary64? hn
  | integer =>
      simp only [choiceOf] at h
      cases hv : (numeral? member).bind Numeral.toBinary64? with
      | none =>
          rw [hv] at h
          exact nomatch h
      | some value =>
          simp only [hv] at h
          by_cases hi : value.isIntegral = true
          · rw [if_pos hi] at h
            obtain rfl := Except.ok.inj h
            exact hi
          · rw [if_neg hi] at h
            exact nomatch h

/-- What suits the type of choices of a base type suits the base type. -/
theorem suits_of_ofBase? {base : BaseType} {type : ChoiceType} {literal : Literal}
    (hbase : ChoiceType.ofBase? base = some type) (h : literal.Suits (.primitive type.primitive)) :
    literal.Suits base := by
  rcases base_of_ofBase? hbase with rfl | ⟨rfl, format, rfl⟩
  · exact h
  · cases literal with
    | string text => trivial
    | number value => exact nomatch h
    | boolean value => exact nomatch h

/-- Each member gives one literal. -/
theorem suits_of_choicesFrom {base : BaseType} {type : ChoiceType}
    (hbase : ChoiceType.ofBase? base = some type) {members : List Chars} {literals : List Literal}
    (h : choicesFrom type members = .ok literals) :
    literals.length = members.length ∧ ∀ literal ∈ literals, literal.Suits base := by
  induction members generalizing literals with
  | nil =>
      obtain rfl := Except.ok.inj h
      exact ⟨rfl, fun _ hmem => nomatch hmem⟩
  | cons member rest ih =>
      obtain ⟨first, hfirst, h⟩ := exists_of_bind_eq_ok h
      obtain ⟨more, hmore, h⟩ := exists_of_bind_eq_ok h
      obtain rfl := Except.ok.inj h
      obtain ⟨hlength, hall⟩ := ih hmore
      refine ⟨congrArg (· + 1) hlength, ?_⟩
      intro literal hmem
      rcases List.mem_cons.1 hmem with rfl | hmem
      · exact suits_of_ofBase? hbase (suits_of_choiceOf hfirst)
      · exact hall literal hmem

/-- The members that a body lists, without the blanks around them. -/
def listed (body : Chars) : List Chars := (pieces '|' body).map trim

/-- The choices of a list are of one type: the one that was asked for, if one was. -/
theorem choicesFrom_of_choicesOf {hint : Option ChoiceType} {body : Chars} {type : ChoiceType}
    {literals : List Literal} (h : choicesOf hint body = .ok (type, literals)) :
    (∀ asked ∈ hint, type = asked)
      ∧ 2 ≤ (listed body).length ∧ choicesFrom type (listed body) = .ok literals := by
  unfold choicesOf at h
  by_cases hfew : ((pieces '|' body).map trim).length < 2
  · simp only [if_pos hfew] at h
    exact nomatch h
  simp only [if_neg hfew] at h
  cases hf : memberFault? body ((pieces '|' body).map trim) with
  | some fault =>
      rw [hf] at h
      exact nomatch h
  | none =>
      rw [hf] at h
      obtain ⟨found, hfound, h⟩ := exists_of_bind_eq_ok h
      have hpair := Except.ok.inj h
      obtain rfl : found = literals := congrArg Prod.snd hpair
      have htype : hint.getD (commonType ((pieces '|' body).map trim)) = type :=
        congrArg Prod.fst hpair
      rw [htype] at hfound
      refine ⟨?_, Nat.le_of_not_lt hfew, hfound⟩
      rintro asked hasked
      rw [Option.mem_def.1 hasked] at htype
      exact htype.symm

/-- **CHOICES THAT ARE READ SUIT THEIR TYPE**, and there are two at least. -/
theorem suits_of_choicesOf {hint : Option ChoiceType} {body : Chars} {base : BaseType}
    {type : ChoiceType} {literals : List Literal} (hbase : ChoiceType.ofBase? base = some type)
    (h : choicesOf hint body = .ok (type, literals)) :
    2 ≤ literals.length ∧ ∀ literal ∈ literals, literal.Suits base := by
  obtain ⟨-, hlength, hfrom⟩ := choicesFrom_of_choicesOf h
  obtain ⟨heq, hall⟩ := suits_of_choicesFrom hbase hfrom
  exact ⟨heq ▸ hlength, hall⟩

theorem ofBase?_primitive (type : ChoiceType) :
    ChoiceType.ofBase? (.primitive type.primitive) = some type := by
  cases type <;> rfl

/-! ## Nodes -/

/-- What constraining a node comes to: choices of its type, or a clause on its
    measure. -/
theorem constrain_eq_ok {name body rest : Chars} {node constrained : Node}
    (h : constrain name body rest node = .ok constrained) :
    (∃ type choices, ChoiceType.ofBase? node.base = some type
        ∧ choicesOf (some type) rest = .ok (type, choices)
        ∧ constrained = node.mapFacets fun facets => { facets with choices := choices })
      ∨ ∃ measure clause, node.base.measure? = some measure
        ∧ clauseOf measure rest = .ok clause
        ∧ constrained = node.mapFacets fun facets => { facets with clause := some clause } := by
  unfold constrain at h
  -- a bar makes the rest a list of choices, and anything else is a clause
  by_cases hbar : rest.any (· == '|') = true
  · rw [if_pos hbar] at h
    cases ht : ChoiceType.ofBase? node.base with
    | none =>
        rw [ht] at h
        exact nomatch h
    | some type =>
        rw [ht] at h
        obtain ⟨⟨found, choices⟩, hchoices, hnode⟩ := exists_of_bind_eq_ok h
        obtain rfl : found = type := (choicesFrom_of_choicesOf hchoices).1 type rfl
        exact Or.inl ⟨found, choices, rfl, hchoices, (Except.ok.inj hnode).symm⟩
  · rw [if_neg hbar] at h
    cases hm : node.base.measure? with
    | none =>
        rw [hm] at h
        exact nomatch h
    | some measure =>
        rw [hm] at h
        obtain ⟨clause, hclause, h⟩ := exists_of_bind_eq_ok h
        exact Or.inr ⟨measure, clause, rfl, hclause, (Except.ok.inj h).symm⟩

/-- **A NODE STAYS LAWFUL** when it is constrained. -/
theorem lawful_of_constrain {name body rest : Chars} {node constrained : Node}
    (hnode : node.facets.Lawful node.base) (h : constrain name body rest node = .ok constrained) :
    constrained.facets.Lawful constrained.base := by
  rcases constrain_eq_ok h with ⟨type, choices, htype, hchoices, rfl⟩ | ⟨measure, clause, hm, hclause, rfl⟩
  · obtain ⟨hlength, hall⟩ := suits_of_choicesOf htype hchoices
    rw [Node.facets_mapFacets, Node.base_mapFacets]
    exact ⟨hnode.clause, hall, Or.inr hlength⟩
  · rw [Node.facets_mapFacets, Node.base_mapFacets]
    refine ⟨?_, hnode.choices, hnode.several⟩
    rintro _ ⟨⟩
    exact ⟨measure, hm, suits_of_clauseOf hclause⟩

/-- The clause of an array suits its items. -/
theorem suits_of_arrayClause {text : Option Chars} {clause : Option Clause}
    (h : arrayClause text = .ok clause) : ∀ c ∈ clause, c.Suits .items := by
  intro c hc
  obtain rfl := Option.mem_def.1 hc
  cases text with
  | none => exact nomatch h
  | some text =>
      obtain ⟨read, hread, h⟩ := exists_of_bind_eq_ok h
      obtain rfl : read = c := Option.some.inj (Except.ok.inj h)
      exact suits_of_clauseOf hread

end Dsl

end Conform
