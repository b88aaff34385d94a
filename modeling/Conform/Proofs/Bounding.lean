import Conform.Proofs.Clean
import Conform.Proofs.Integers
import Conform.Proofs.Joining
import Conform.Proofs.Reading

/-! # Bounding — a type with a clause, from its text to what it accepts

    A built-in type with a clause is read as the clause is (`compiled_bounded_iff`): the
    text compiles exactly if its numerals bound the measure and their order is right, and
    then to the type with the clause that is meant.  Such a tree accepts a value of its
    type exactly if the measure of the value keeps the clause (`check_bounded_iff`).

    What a clause says does not depend on what it bounds: its form writes the same relation
    of counts, of integers, and of what these are rounded to (`ClauseForm.Holds`).  Where
    doubles compare as such numbers do, the clause is kept exactly if the relation holds
    (`ClauseForm.check_written`). -/

namespace Conform

namespace Dsl

open Conform.Text

/-! ## Forms of clauses -/

/-- The relation that the operator writes, for numbers of any kind. -/
def Comparison.Holds {α : Type} [LT α] [LE α] : Comparison → α → α → Prop
  | .atLeast, x, bound => bound ≤ x
  | .atMost, x, bound => x ≤ bound
  | .above, x, bound => bound < x
  | .below, x, bound => x < bound
  | .equal, x, bound => x = bound

instance {α : Type} [LinearOrder α] (comparison : Comparison) (x bound : α) :
    Decidable (comparison.Holds x bound) :=
  match comparison with
  | .atLeast => inferInstanceAs (Decidable (bound ≤ x))
  | .atMost => inferInstanceAs (Decidable (x ≤ bound))
  | .above => inferInstanceAs (Decidable (bound < x))
  | .below => inferInstanceAs (Decidable (x < bound))
  | .equal => inferInstanceAs (Decidable (x = bound))

/-- A way of writing a clause, with bounds of any kind. -/
inductive ClauseForm (α : Type) where
  | compared (comparison : Comparison) (bound : α)
  | between (least most : α)
  | onward (least : α)
  | upward (most : α)
  | greatest (most : α)

namespace ClauseForm

variable {α β : Type}

/-- The same way of writing with other bounds. -/
def map (f : α → β) : ClauseForm α → ClauseForm β
  | .compared comparison bound => .compared comparison (f bound)
  | .between least most => .between (f least) (f most)
  | .onward least => .onward (f least)
  | .upward most => .upward (f most)
  | .greatest most => .greatest (f most)

/-- The bounds, in the order in which they are written. -/
def bounds : ClauseForm α → List α
  | .compared _ bound => [bound]
  | .between least most => [least, most]
  | .onward least => [least]
  | .upward most => [most]
  | .greatest most => [most]

/-- The relation that is written. -/
def Holds [LT α] [LE α] (x : α) : ClauseForm α → Prop
  | .compared comparison bound => comparison.Holds x bound
  | .between least most => least ≤ x ∧ x ≤ most
  | .onward least => least ≤ x
  | .upward most => x ≤ most
  | .greatest most => x ≤ most

instance [LinearOrder α] (x : α) (form : ClauseForm α) : Decidable (form.Holds x) :=
  match form with
  | .compared comparison bound => inferInstanceAs (Decidable (comparison.Holds x bound))
  | .between least most => inferInstanceAs (Decidable (least ≤ x ∧ x ≤ most))
  | .onward least => inferInstanceAs (Decidable (least ≤ x))
  | .upward most => inferInstanceAs (Decidable (x ≤ most))
  | .greatest most => inferInstanceAs (Decidable (x ≤ most))

/-- The clause that is written with numerals as bounds. -/
def written : ClauseForm Numeral → WrittenClause
  | .compared comparison bound => .compared comparison bound
  | .between least most => .between least most
  | .onward least => .onward least
  | .upward most => .upward most
  | .greatest most => .greatest most

end ClauseForm

/-- Two doubles compare as two numbers of another kind do. -/
structure ComparesAs {β : Type} [LT β] (measured bound : Binary64) (x n : β) : Prop where
  measured_number : measured.isNan = false
  bound_number : bound.isNan = false
  below : Binary64.lt measured bound = true ↔ x < n
  above : Binary64.lt bound measured = true ↔ n < x

section

variable {α β : Type} [LinearOrder β] {measured bound : Binary64} {x n : β}

/-- What is measured is not below the bound exactly if the number is not. -/
theorem ComparesAs.not_below (h : ComparesAs measured bound x n) :
    Binary64.lt measured bound = false ↔ n ≤ x := by
  rw [← Bool.not_eq_true, h.below, not_lt]

/-- What is measured is not above the bound exactly if the number is not. -/
theorem ComparesAs.not_above (h : ComparesAs measured bound x n) :
    Binary64.lt bound measured = false ↔ x ≤ n := by
  rw [← Bool.not_eq_true, h.above, not_lt]

/-- What is measured equals the bound exactly if the numbers are equal. -/
theorem ComparesAs.eq (h : ComparesAs measured bound x n) :
    Binary64.eq measured bound = true ↔ x = n := by
  rw [Binary64.eq_eq_true_iff h.measured_number h.bound_number, h.not_below, h.not_above, and_comm,
    le_antisymm_iff]

/-- An operator is kept by doubles that compare as two numbers do exactly if the numbers
    are in its relation. -/
theorem ComparesAs.check_clause (h : ComparesAs measured bound x n) {measure : Measure}
    (hexact : measure ≠ .value → ComparesAs measured (.ofNat bound.toUnsigned64) x n)
    (comparison : Comparison) :
    (comparison.clause measure bound).check measured = none ↔ comparison.Holds x n := by
  have hbreach {broken : Bool} {breach : Breach} :
      (if broken = true then some breach else none) = none ↔ broken = false := by
    cases broken with
    | false => exact ⟨fun _ => rfl, fun _ => rfl⟩
    | true => exact ⟨nofun, nofun⟩
  have hkept {kept : Bool} {breach : Breach} :
      (if kept = true then none else some breach) = none ↔ kept = true := by
    cases kept with
    | false => exact ⟨nofun, nofun⟩
    | true => exact ⟨fun _ => rfl, fun _ => rfl⟩
  cases comparison with
  | atLeast => exact hbreach.trans h.not_below
  | atMost => exact hbreach.trans h.not_above
  | above =>
      refine hbreach.trans ?_
      rw [← Binary64.lt_eq_true_iff h.bound_number h.measured_number]
      exact h.above
  | below =>
      refine hbreach.trans ?_
      rw [← Binary64.lt_eq_true_iff h.measured_number h.bound_number]
      exact h.below
  | equal =>
      by_cases hmeasure : measure = .value
      · rw [Comparison.clause, if_pos hmeasure]
        exact hkept.trans h.eq
      · rw [Comparison.clause, if_neg hmeasure]
        exact hkept.trans (hexact hmeasure).eq

/-- **A CLAUSE IS KEPT AS IT IS WRITTEN** where the measured value and the bounds compare as
    the numbers that they stand for. -/
theorem ClauseForm.check_written {form : ClauseForm α} {numeral : α → Numeral} {value : α → β}
    {measure : Measure}
    (hbounds : ∀ bound ∈ form.bounds, ComparesAs measured (numeral bound).value x (value bound))
    (hexact : measure ≠ .value → ∀ bound ∈ form.bounds,
      ComparesAs measured (.ofNat (numeral bound).value.toUnsigned64) x (value bound)) :
    ((form.map numeral).written.clause measure).check measured = none
      ↔ (form.map value).Holds x := by
  have hend {kept : Binary64 → Prop} {limit : Binary64} :
      (∀ other ∈ some limit, kept other) ↔ kept limit := by
    simp only [Option.mem_def, Option.some.injEq, forall_eq']
  cases form with
  | compared comparison bound =>
      have hclause : (map numeral (.compared comparison bound)).written.clause measure
          = comparison.clause measure (numeral bound).value := by
        cases comparison <;> rfl
      rw [hclause]
      exact (hbounds bound List.mem_cons_self).check_clause
        (fun hmeasure => hexact hmeasure bound List.mem_cons_self) comparison
  | between least most =>
      have hleast := hbounds least List.mem_cons_self
      have hmost := hbounds most (List.mem_cons_of_mem _ List.mem_cons_self)
      refine Export.check_range_eq_none.trans (and_congr ?_ ?_)
      · exact hend.trans hleast.not_below
      · exact hend.trans hmost.not_above
  | onward least =>
      refine Export.check_range_eq_none.trans ((and_iff_left nofun).trans ?_)
      exact hend.trans (hbounds least List.mem_cons_self).not_below
  | upward most =>
      refine Export.check_range_eq_none.trans ((and_iff_right nofun).trans ?_)
      exact hend.trans (hbounds most List.mem_cons_self).not_above
  | greatest most =>
      refine Export.check_range_eq_none.trans ((and_iff_right nofun).trans ?_)
      exact hend.trans (hbounds most List.mem_cons_self).not_above

end

/-! ## Clauses that are read -/

section

variable {measure : Measure} {numeral : Numeral}

/-- A plain numeral that is taken for a bound is one. -/
theorem Numeral.bounds_of_bound (hplain : numeral.IsPlain) {bound : Binary64}
    (h : numeral.bound measure = .ok bound) : numeral.Bounds measure := by
  refine ⟨hplain, fun hmeasure => ?_⟩
  unfold Numeral.bound at h
  rw [toBinary64?_of_isPlain hplain] at h
  dsimp only at h
  split at h
  · exact nomatch h
  · next hno =>
      rw [not_and, Bool.or_eq_true, not_or, Bool.not_eq_true, Bool.not_eq_true', Bool.not_eq_false] at hno
      exact hno hmeasure

/-- Digits without a fraction are rounded as the whole number that they write. -/
theorem Numeral.value_whole (negative : Bool) (digits : Chars) :
    Numeral.value ⟨negative, digits, none⟩ = .ofQuotient negative (digitsValue digits) 1 := by
  have hdigits : digits ++ (none : Option Chars).getD [] = digits := List.append_nil digits
  unfold Numeral.value
  rw [hdigits]
  show Binary64.ofDecimal negative (digitsValue digits) 0 = _
  rw [Binary64.ofDecimal]
  by_cases hzero : digitsValue digits = 0
  · rw [if_pos hzero, hzero]
    cases negative <;> decide +kernel
  · rw [if_neg hzero, if_pos (Int.le_refl 0), if_neg (by decide)]
    exact congrArg (Binary64.ofQuotient negative · 1) (Nat.mul_one _)

theorem Numeral.isNan_value (numeral : Numeral) : numeral.value.isNan = false :=
  Binary64.isNan_ofDecimal _ _ _

end

namespace WrittenClause

variable {measure : Measure} {written : WrittenClause}

/-- An end that is accepted as a bound can bound what is measured. -/
theorem bounds_of_endBound {numeral : Numeral} (hplain : numeral.IsPlain) {bound : Option Binary64}
    (h : endBound measure (some numeral) = .ok bound) : numeral.Bounds measure := by
  cases hbound : numeral.bound measure with
  | error fault =>
      rw [endBound, hbound] at h
      exact nomatch h
  | ok value => exact Numeral.bounds_of_bound hplain hbound

/-- A clause that is read is well formed for the measure. -/
theorem suits_of_clauseOf (hplain : written.IsPlain) {clause : Clause}
    (h : clauseOf measure written.text = .ok clause) : written.Suits measure := by
  cases written with
  | compared comparison bound =>
      rw [clauseOf_compared hplain] at h
      obtain ⟨value, hbound, hrest⟩ := exists_of_bind_eq_ok h
      have hbounds := Numeral.bounds_of_bound hplain hbound
      obtain rfl := Except.ok.inj (hbound.symm.trans (Numeral.bound_eq hbounds))
      -- below zero would leave no count, and such a clause is refused
      refine ⟨hbounds, fun hbelow hmeasure => Bool.eq_false_iff.2 fun hzero => ?_⟩
      rw [if_pos ⟨hbelow, hmeasure, hzero⟩] at hrest
      cases hrest
  | between least most =>
      rw [clauseOf_between hplain.1 hplain.2] at h
      obtain ⟨low, hlow, hrest⟩ := exists_of_bind_eq_ok h
      obtain ⟨high, hhigh, hrange⟩ := exists_of_bind_eq_ok hrest
      have hleast := bounds_of_endBound hplain.1 hlow
      have hmost := bounds_of_endBound hplain.2 hhigh
      obtain rfl := Except.ok.inj (hlow.symm.trans (endBound_some hleast))
      obtain rfl := Except.ok.inj (hhigh.symm.trans (endBound_some hmost))
      refine ⟨hleast, hmost, ?_⟩
      by_cases horder : Binary64.lt most.value least.value = true
      · rw [rangeOf, if_pos horder] at hrange
        cases hrange
      · exact Binary64.le_of_not_lt least.isNan_value most.isNan_value (Bool.eq_false_iff.2 horder)
  | onward least =>
      rw [clauseOf_onward hplain] at h
      obtain ⟨low, hlow, -⟩ := exists_of_bind_eq_ok h
      exact bounds_of_endBound hplain hlow
  | upward most =>
      rw [clauseOf_upward hplain] at h
      obtain ⟨high, hhigh, -⟩ := exists_of_bind_eq_ok h
      exact bounds_of_endBound hplain hhigh
  | greatest most =>
      rw [clauseOf_greatest hplain.1 hplain.2] at h
      obtain ⟨value, hbound, -⟩ := exists_of_bind_eq_ok h
      exact ⟨Numeral.bounds_of_bound hplain.1 hbound, hplain.2⟩

end WrittenClause

/-! ## Types with a clause -/

/-- The text of a type with a clause. -/
def TypeName.boundedText (name : TypeName) (written : WrittenClause) : String :=
  name.text ++ ":" ++ String.ofList written.text

section

variable {name : TypeName} {measure : Measure} {written : WrittenClause}

theorem facets_nodeOf (base : BaseType) (facets : Facets) : (nodeOf base facets).facets = facets :=
  Node.facets_mapFacets _ _

/-- A type with a clause is the name of the type, a colon and the clause. -/
theorem TypeName.toList_boundedText (name : TypeName) (written : WrittenClause) :
    (name.boundedText written).toList = name.text.toList ++ ':' :: written.text := by
  unfold boundedText
  rw [String.toList_append, String.toList_append, List.append_assoc]
  exact congrArg (fun text => name.text.toList ++ ':' :: text) String.toList_ofList

theorem TypeName.text_eq_arrayLead (h : name.base = .array) : name.text.toList = arrayLead := by
  have hall : ∀ entry ∈ BaseType.builtin, entry.2 = .array → entry.1.toList = arrayLead := by decide
  exact hall _ name.builtin h

/-- **A TYPE WITH A CLAUSE IS READ AS THE CLAUSE IS.** -/
theorem node_ofText_boundedText (hmeasure : name.base.measure? = some measure)
    (hplain : written.IsPlain) (path : String) :
    (Outline.ofText (name.boundedText written).toList).node path
      = settle path ((clauseOf measure written.text).map fun clause =>
          nodeOf name.base { clause := some clause }) := by
  rw [name.toList_boundedText]
  have hblank : Unblank (name.text.toList ++ ':' :: written.text) :=
    name.unblank_text.append (.cons (by decide) (written.unblank_text hplain))
  obtain ⟨hlength, hbody⟩ := bodyOf_unmarked hblank (.append (.cons (written.endsUnmarked_text hplain)))
  -- an array is read by its keyword, and what follows might be the bracket of its items
  by_cases hbase : name.base = .array
  · obtain rfl : measure = .items := by
      rw [hbase] at hmeasure
      exact (Option.some.inj hmeasure).symm
    obtain ⟨hsize, hform⟩ := formOf_arrayLead
      (arrayForm?_colon (WrittenClause.openBracket?_text hplain))
    rw [Outline.ofText_of_bodyOf hbody]
    dsimp only
    rw [name.text_eq_arrayLead hbase, hform, Form.outline_widen, hbase]
    show (settle path (some <$> clauseOf .items written.text) >>= _) = _
    cases clauseOf .items written.text with
    | error fault => rfl
    | ok clause => rfl
  · have hform := name.formOf_append hbase (written.unblank_text hplain) (written.text_ne_nil hplain)
    rw [Outline.ofText_of_bodyOf hbody]
    dsimp only
    rw [hform, Form.outline, Outline.node, name.resolve_text, pure_bind,
      constrain_of_isPlain hmeasure hplain]
    cases clauseOf measure written.text with
    | error fault => rfl
    | ok clause =>
        show (pure ((nodeOf name.base { clause := some clause }).withRequired false) : Naming Node) = _
        rw [Node.withRequired, mapFacets_nodeOf]
        rfl

end

end Dsl

namespace Compiler

open Dsl

/-- **A TYPE WITH A CLAUSE COMPILES** exactly if the clause is well formed for the measure,
    and to what is meant. -/
theorem compiled_bounded_iff {name : TypeName} {measure : Measure} {written : WrittenClause}
    (hmeasure : name.base.measure? = some measure) (hplain : written.IsPlain) {node : Node} :
    compiled (.text (name.boundedText written)) = .ok node
      ↔ written.Suits measure
        ∧ node = nodeOf name.base { clause := some (written.clause measure) } := by
  rw [compiled_text_iff]
  constructor
  · intro hdenotes
    have hread := hdenotes "" ⟨{}, false, false⟩
    rw [Dsl.read, node_ofText_boundedText hmeasure hplain] at hread
    cases hclause : clauseOf measure written.text with
    | error fault =>
        rw [hclause] at hread
        cases congrArg Prod.fst hread
    | ok clause =>
        have hsuits := WrittenClause.suits_of_clauseOf hplain hclause
        obtain rfl := Except.ok.inj (hclause.symm.trans (WrittenClause.clauseOf_text hsuits))
        rw [hclause] at hread
        exact ⟨hsuits, (Except.ok.inj (congrArg Prod.fst hread)).symm⟩
  · rintro ⟨hsuits, rfl⟩ path names
    rw [Dsl.read, node_ofText_boundedText hmeasure hplain, WrittenClause.clauseOf_text hsuits]
    rfl

end Compiler

/-! ## What is accepted -/

section

variable {base : BaseType} {facets : Facets} {value : Json}

/-- A type without items and fields finds what its own checks find. -/
theorem Rules.hasErrors_findings_nodeOf (rules : Rules) (hcustoms : facets.customs = [])
    (hvalue : value.isNull = false) :
    hasErrors (rules.findings (Dsl.nodeOf base facets) (.root value)) = false
      ↔ base.fits value = true ∧ facets.KeptBy base value := by
  have hpresent : (Dsl.nodeOf base facets).present? (.root value) = some value :=
    Node.present?_of_isNull_eq_false rfl hvalue
  have hempty (parts : Json → List Slot) (hparts : ∀ inner, parts inner = []) :
      hasErrors (rules.siteFindings (Dsl.nodeOf base facets)
          (rules.valueFindings (Dsl.nodeOf base facets) .root parts) (.root value)) = false
        ↔ base.fits value = true ∧ facets.KeptBy base value := by
    have hobjections : hasErrors (rules.allCustomFindings (Dsl.nodeOf base facets) .root value) = false :=
      rules.hasErrors_allCustomFindings_of_nil ((Dsl.facets_nodeOf _ _).symm ▸ hcustoms) .root value
    rw [siteFindings_of_present hpresent, hasErrors_valueFindings_eq_false_iff, hparts,
      Node.ownFaults_eq_nil_iff, Dsl.base_nodeOf, Dsl.facets_nodeOf]
    exact ⟨And.left, fun h => ⟨h, rfl, hobjections⟩⟩
  cases base with
  | primitive type => exact hempty (fun _ => []) fun _ => rfl
  | array => exact hempty (fun _ => []) fun _ => rfl
  | object =>
      refine hempty _ fun inner => ?_
      show [] ++ rules.unknownFindings [] _ _ = []
      rw [List.nil_append, unknownFindings, List.isEmpty_nil, Bool.or_true]
      rfl

/-- **A TYPE ACCEPTS** the values that fit it and keep its facets. -/
theorem Schema.check_nodeOf_iff {schema : Schema} (hnode : schema.node = Dsl.nodeOf base facets)
    (hcustoms : facets.customs = []) (hvalue : value.isNull = false) :
    (schema.check value).value = true ↔ base.fits value = true ∧ facets.KeptBy base value := by
  have himmediate : (Dsl.nodeOf base facets).firstSuspended? .root = none := by
    have hsuspended : (Dsl.nodeOf base facets).isSuspended = false := by
      rw [Node.isSuspended, Dsl.facets_nodeOf, hcustoms]
      rfl
    cases base with
    | primitive type => exact if_neg (Bool.eq_false_iff.1 hsuspended)
    | array => exact if_neg (Bool.eq_false_iff.1 hsuspended)
    | object => exact if_neg (Bool.eq_false_iff.1 hsuspended)
  rw [Schema.value_check_eq_true_iff, hnode, schema.rules.hasErrors_findings_nodeOf hcustoms hvalue]
  exact and_iff_right himmediate

/-- **A TYPE WITH A CLAUSE ACCEPTS** the values of the type whose measure keeps the clause. -/
theorem Schema.check_bounded_iff {schema : Schema} {clause : Clause} {measure : Measure}
    {measured : Binary64}
    (hnode : schema.node = Dsl.nodeOf base { clause := some clause }) (hvalue : value.isNull = false)
    (hformat : OwnFault.ofFormat? base value = none) (hmeasure : base.measure? = some measure)
    (hmeasured : measure.of? value = some measured) :
    (schema.check value).value = true ↔ base.fits value = true ∧ clause.check measured = none := by
  have hclause : OwnFault.ofClause? base (some clause) value = none ↔ clause.check measured = none := by
    unfold OwnFault.ofClause?
    simp only [hmeasure, hmeasured, Option.bind_eq_bind, Option.bind_some]
    cases clause.check measured with
    | none => exact ⟨fun _ => rfl, fun _ => rfl⟩
    | some breach => exact ⟨nofun, nofun⟩
  rw [Schema.check_nodeOf_iff hnode rfl hvalue, and_congr_right_iff]
  intro _
  refine Iff.trans ⟨Facets.KeptBy.clause, fun h => ?_⟩ hclause
  refine ⟨hformat, rfl, h, ?_⟩
  cases value <;> rfl

/-- **CHOICES ACCEPT** the values of their type that one of them stands for. -/
theorem Schema.check_choices_iff {schema : Schema} {required : Bool} {choices : List Literal}
    (hne : choices ≠ [])
    (hnode : schema.node = Dsl.nodeOf base { required := required, choices := choices })
    (hvalue : value.isNull = false)
    (hformat : OwnFault.ofFormat? base value = none) :
    (schema.check value).value = true
      ↔ base.fits value = true ∧ ∃ literal ∈ choices, literal.accepts value = true := by
  rw [Schema.check_nodeOf_iff hnode rfl hvalue, and_congr_right_iff]
  intro _
  have hchoices : OwnFault.ofChoices? choices value = none
      ↔ ∃ literal ∈ choices, literal.accepts value = true := by
    unfold OwnFault.ofChoices?
    rw [← List.any_eq_true, List.isEmpty_eq_false_iff.2 hne, Bool.false_or]
    cases choices.any fun literal => literal.accepts value with
    | false => exact ⟨nofun, nofun⟩
    | true => exact ⟨fun _ => rfl, fun _ => rfl⟩
  refine Iff.trans ⟨Facets.KeptBy.choices, fun h => ?_⟩ hchoices
  refine ⟨hformat, h, rfl, ?_⟩
  cases value <;> rfl

end

end Conform
