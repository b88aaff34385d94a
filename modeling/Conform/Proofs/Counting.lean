import Conform.Proofs.Bounding

/-! # Counting — clauses on strings, arrays and objects count exactly

    The bounds of a clause are written in decimal digits, as many as one likes, and are
    rounded to doubles; so is the count that they bound, and of an exact count the bound is
    cut to 64 bits first.  None of this is seen by a count of less than 53 bits: rounding
    keeps such counts and moves no number past them, in either direction (`comparesAs_count`
    and `comparesAs_exactly`).  So a clause accepts exactly the counts that it says
    (`ClauseForm.check_count`), and it compiles unless its bounds are out of order or too
    large for doubles. -/

namespace Conform

open Binary64 (unit nearest lt le eq)

/-! ## Natural numbers as they are written -/

namespace Binary64

theorem ofNat_zero : ofNat 0 = zero := by decide +kernel

/-- No natural is rounded below zero, and none but zero to zero. -/
theorem ofNat_not_below_zero (n : Nat) : lt (ofNat n) zero = false := by
  rw [← ofNat_zero, ← Bool.not_eq_true, ofNat_lt_iff (by decide)]
  exact Nat.not_lt_zero n

theorem ofNat_ne_zero {n : Nat} (h : n ≠ 0) : eq (ofNat n) zero = false := by
  have hlt : lt zero (ofNat n) = true := by
    rw [← ofNat_zero, lt_ofNat_iff (by decide)]
    exact Nat.pos_of_ne_zero h
  refine Bool.eq_false_iff.2 fun heq => ?_
  exact nomatch hlt.symm.trans (lt_eq_false_of_eq heq).2

theorem ofNat_le_ofNat {n m : Nat} (h : n ≤ m) : le (ofNat n) (ofNat m) = true :=
  le_of_stands (stands_ofNat n) (stands_ofNat m) (nearest_mono (Nat.mul_le_mul_right unit h))

/-- Below `2 ^ 1023` a natural is rounded to a finite whole number. -/
theorem isIntegral_ofNat {n : Nat} (h : n < 2 ^ 1023) : (ofNat n).isIntegral = true := by
  have hnearest : nearest (n * unit) < beyond := by
    -- nothing below a number on the grid is rounded past it
    have hgrid : OnGrid (2 ^ 1023 * unit) := by
      rw [unit_eq, show 2 ^ 1023 * 2 ^ unitShift = 1 * 2 ^ (1023 + unitShift) by
        rw [Nat.one_mul, Nat.pow_add]]
      exact onGrid_mul_pow (by decide) _
    have hle := nearest_le hgrid (Nat.mul_le_mul_right unit (Nat.le_of_lt h))
    refine Nat.lt_of_le_of_lt hle ?_
    unfold beyond
    rw [unit_eq, ← Nat.pow_add, ← Nat.pow_add]
    exact Nat.pow_lt_pow_right (by decide) (by decide)
  rcases ofScaled_one false (n * unit) with ⟨x, hx, -⟩ | ⟨-, hlarge⟩
  · rw [show ofNat n = .finite x from hx]
    exact isIntegral_of_whole hx
  · exact absurd hlarge (Nat.not_le_of_lt hnearest)

end Binary64

namespace Dsl

open Conform.Text

/-- A natural number as it is written, in ASCII digits. -/
structure WrittenCount where
  digits : Chars
  digits_ne_nil : digits ≠ []
  isDigit_digits : ∀ c ∈ digits, isDigit c = true

namespace WrittenCount

/-- The number that is written. -/
def value (count : WrittenCount) : Nat := digitsValue count.digits

/-- The digits as a numeral. -/
def numeral (count : WrittenCount) : Numeral := ⟨false, count.digits, none⟩

variable (count : WrittenCount)

theorem isPlain_numeral : count.numeral.IsPlain :=
  ⟨count.digits_ne_nil, count.isDigit_digits, nofun, nofun⟩

theorem value_numeral : count.numeral.value = .ofNat count.value :=
  Numeral.value_whole false count.digits

theorem bounds_numeral {measure : Measure} (h : count.value < 2 ^ 1023) :
    count.numeral.Bounds measure := by
  refine ⟨count.isPlain_numeral, fun _ => ?_⟩
  rw [count.value_numeral]
  exact ⟨Binary64.ofNat_not_below_zero _, Binary64.isIntegral_ofNat h⟩

end WrittenCount

namespace ClauseForm

/-- Whether the bounds are in order: a range is not empty, and no count is below zero. -/
def InOrder : ClauseForm Nat → Prop
  | .between least most => least ≤ most
  | .compared .below bound => bound ≠ 0
  | _ => True

variable {form : ClauseForm WrittenCount}

theorem isPlain_written (form : ClauseForm WrittenCount) :
    (form.map WrittenCount.numeral).written.IsPlain := by
  cases form with
  | compared comparison bound => exact bound.isPlain_numeral
  | between least most => exact ⟨least.isPlain_numeral, most.isPlain_numeral⟩
  | onward least => exact least.isPlain_numeral
  | upward most => exact most.isPlain_numeral
  | greatest most => exact ⟨most.isPlain_numeral, rfl⟩

/-- **A CLAUSE OF NATURALS IS WELL FORMED** if they are in order and not too large. -/
theorem suits_written (horder : (form.map WrittenCount.value).InOrder)
    (hsmall : ∀ bound ∈ form.bounds, bound.value < 2 ^ 1023) (measure : Measure) :
    (form.map WrittenCount.numeral).written.Suits measure := by
  have hbounds : ∀ bound ∈ form.bounds, bound.numeral.Bounds measure :=
    fun bound hmem => bound.bounds_numeral (hsmall bound hmem)
  cases form with
  | compared comparison bound =>
      refine ⟨hbounds bound List.mem_cons_self, ?_⟩
      rintro rfl -
      rw [bound.value_numeral]
      exact Binary64.ofNat_ne_zero horder
  | between least most =>
      refine ⟨hbounds least List.mem_cons_self, hbounds most (List.mem_cons_of_mem _ List.mem_cons_self), ?_⟩
      rw [least.value_numeral, most.value_numeral]
      exact Binary64.ofNat_le_ofNat horder
  | onward least => exact hbounds least List.mem_cons_self
  | upward most => exact hbounds most List.mem_cons_self
  | greatest most => exact ⟨hbounds most List.mem_cons_self, rfl⟩

end ClauseForm

/-! ## Counts and bounds -/

section

variable {count : Nat}

/-- A count of 53 bits compares with any bound as a double does. -/
theorem comparesAs_count (h : count < 2 ^ 53) (n : Nat) :
    ComparesAs (.ofNat count) (.ofNat n) count n :=
  ⟨Binary64.isNan_ofNat count, Binary64.isNan_ofNat n, Binary64.lt_ofNat_iff h, Binary64.ofNat_lt_iff h⟩

/-- A bound that is cut to 64 bits is the bound, or both are past the count. -/
theorem comparesAs_exactly (h : count < 2 ^ 53) (n : Nat) :
    ComparesAs (.ofNat count) (.ofNat (Binary64.ofNat n).toUnsigned64) count n := by
  rcases Binary64.toUnsigned64_ofNat n with hsame | ⟨hlarge, hcut⟩
  · rw [hsame]
    exact comparesAs_count h n
  · -- the bound has changed, but on its own side of every count
    obtain ⟨hmeasured, hbound, hbelow, habove⟩ := comparesAs_count h (Binary64.ofNat n).toUnsigned64
    refine ⟨hmeasured, hbound, hbelow.trans ?_, habove.trans ?_⟩
    · omega
    · omega

/-- **A CLAUSE OF NATURALS COUNTS EXACTLY**, whatever the measure. -/
theorem ClauseForm.check_count (form : ClauseForm WrittenCount) (h : count < 2 ^ 53) (measure : Measure) :
    ((form.map WrittenCount.numeral).written.clause measure).check (.ofNat count) = none
      ↔ (form.map WrittenCount.value).Holds count := by
  refine ClauseForm.check_written ?_ ?_
  · intro bound _
    rw [bound.value_numeral]
    exact comparesAs_count h bound.value
  · intro _ bound _
    rw [bound.value_numeral]
    exact comparesAs_exactly h bound.value

end

/-- Whether the type is that of strings, of arrays or of objects. -/
def TypeName.IsCounted (name : TypeName) : Prop :=
  name.base = .primitive .string ∨ name.base = .array ∨ name.base = .object

end Dsl

/-! ## Values that are counted -/

/-- How many code points, items or members the value has. -/
def Json.count? : Json → Option Nat
  | .string text => some text.length
  | .array items => some items.length
  | .object members => some members.length
  | _ => none

section

variable {name : Dsl.TypeName} {value : Json} {count : Nat}

theorem Json.isNull_of_count? (h : value.count? = some count) : value.isNull = false := by
  cases value with
  | null => exact nomatch h
  | _ => rfl

/-- The measure of a counted type is the count. -/
theorem Dsl.TypeName.IsCounted.exists_measure (h : name.IsCounted) :
    ∃ measure, name.base.measure? = some measure
      ∧ ∀ value count, name.base.fits value = true → value.count? = some count →
          measure.of? value = some (.ofNat count) ∧ OwnFault.ofFormat? name.base value = none := by
  rcases h with hbase | hbase | hbase
  all_goals
    rw [hbase]
    refine ⟨_, rfl, fun value count hfits hcount => ?_⟩
    -- of the values that have a count only those of the type fit
    cases value <;>
      simp_all [BaseType.fits, Primitive.fits, Measure.of?, Json.count?, OwnFault.ofFormat?]

/-- **LENGTH CLAUSES COUNT EXACTLY**, however large their bounds are written.  If the text
    compiles, a count of less than 53 bits is accepted exactly if it is in the relation
    that is written, in the naturals; and the text compiles if the bounds are in order and
    below `2 ^ 1023`. -/
theorem Schema.clauses_count_exactly (hname : name.IsCounted) (form : Dsl.ClauseForm Dsl.WrittenCount) :
    (∀ (schema : Schema) (value : Json) (count : Nat),
        Compiler.compiled (.text (name.boundedText (form.map Dsl.WrittenCount.numeral).written))
            = .ok schema.node →
          name.base.fits value = true → value.count? = some count → count < 2 ^ 53 →
            ((schema.check value).value = true ↔ (form.map Dsl.WrittenCount.value).Holds count))
      ∧ ((form.map Dsl.WrittenCount.value).InOrder → (∀ bound ∈ form.bounds, bound.value < 2 ^ 1023) →
          ∃ node, Compiler.compiled
            (.text (name.boundedText (form.map Dsl.WrittenCount.numeral).written)) = .ok node) := by
  obtain ⟨measure, hmeasure, hcounts⟩ := hname.exists_measure
  constructor
  · intro schema value count hcompiled hfits hcount hsmall
    obtain ⟨-, hnode⟩ := (Compiler.compiled_bounded_iff hmeasure form.isPlain_written).1 hcompiled
    obtain ⟨hmeasured, hformat⟩ := hcounts value count hfits hcount
    rw [Schema.check_bounded_iff hnode (Json.isNull_of_count? hcount) hformat hmeasure hmeasured,
      form.check_count hsmall]
    exact and_iff_right hfits
  · intro horder hsmall
    have hsuits := Dsl.ClauseForm.suits_written horder hsmall measure
    exact ⟨_, (Compiler.compiled_bounded_iff hmeasure form.isPlain_written).2 ⟨hsuits, rfl⟩⟩

/-- Past 64 bits the upper end of a range is still an upper end. -/
theorem Schema.clauses_count_exactly_string :
    ∃ schema : Schema, Compiler.compiled (.text "string:3-18446744073709551617") = .ok schema.node
      ∧ (schema.check (.string "abc")).value = true ∧ ¬(schema.check (.string "ab")).value = true := by
  have hname : Dsl.TypeName.IsCounted ⟨"string", .primitive .string, by decide⟩ := .inl rfl
  obtain ⟨haccepts, hcompiles⟩ := Schema.clauses_count_exactly hname
    (.between ⟨['3'], by decide, List.all_eq_true.1 (by decide)⟩
      ⟨"18446744073709551617".toList, by decide, List.all_eq_true.1 (by decide)⟩)
  have htext : Dsl.TypeName.boundedText ⟨"string", .primitive .string, by decide⟩
      (.between ⟨false, ['3'], none⟩ ⟨false, "18446744073709551617".toList, none⟩)
      = "string:3-18446744073709551617" := by decide
  have horder : Text.digitsValue ['3'] ≤ Text.digitsValue "18446744073709551617".toList := by decide
  obtain ⟨node, hnode⟩ := hcompiles horder <| by
    refine List.forall_mem_cons.2 ⟨?_, List.forall_mem_singleton.2 ?_⟩
    · decide +kernel
    · decide +kernel
  refine ⟨⟨node, {}, none⟩, htext ▸ hnode, ?_, ?_⟩
  · exact (haccepts ⟨node, {}, none⟩ _ 3 hnode rfl rfl (by decide)).2 (by decide)
  · intro hcheck
    exact absurd ((haccepts ⟨node, {}, none⟩ _ 2 hnode rfl rfl (by decide)).1 hcheck) (by decide)

end

end Conform
