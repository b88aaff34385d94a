import Conform.Proofs.Numerals
import Conform.Proofs.Rounding
import Conform.Schema.Clause
import Conform.Schema.Literal

/-! # Magnitudes — numbers too large for a double

    A quotient is rounded to an infinity exactly if it is at least half way from the
    largest double to the next step of the same size (`isFinite_ofScaled_iff`).  So the
    value of a numeral is finite exactly if the number that is written is below
    `2 ^ 1024 - 2 ^ 970`, however many digits write it (`Numeral.isFinite_value_iff`).

    A finite number stays finite when it is raised or lowered by one, and it is written
    as a number. -/

namespace Conform

namespace Binary64

/-- The number is neither an infinity nor not a number. -/
def IsFinite (x : Binary64) : Prop := ∃ y, x = .finite y

theorem isFinite_finite (x : Finite) : IsFinite (.finite x) := ⟨x, rfl⟩

theorem not_isFinite_infinite (negative : Bool) : ¬IsFinite (.infinite negative) := nofun

/-! ## Rounding at the top -/

section

variable {num den : Nat}

/-- A quotient below an even number is rounded up to it from half way on. -/
theorem roundHalfEven_eq_succ_iff {odd : Nat} (hodd : odd % 2 = 1) (hbound : num < (odd + 1) * den) :
    roundHalfEven num den = odd + 1 ↔ (2 * odd + 1) * den ≤ 2 * num := by
  have hsplit := Nat.div_add_mod num den
  have hden : 0 < den := Nat.pos_of_ne_zero fun hzero => by
    rw [hzero, Nat.mul_zero] at hbound
    exact Nat.not_lt_zero _ hbound
  have hrest := Nat.mod_lt num hden
  have hquotient : num / den ≤ odd := Nat.le_of_lt_succ ((Nat.div_lt_iff_lt_mul hden).2 hbound)
  unfold roundHalfEven
  dsimp only
  rcases Nat.lt_or_eq_of_le hquotient with hless | heq
  · -- one step below the odd number, nothing reaches the even one
    have hfar : (num / den + 1) * den ≤ odd * den := Nat.mul_le_mul_right den hless
    rw [Nat.add_mul, Nat.one_mul, Nat.mul_comm] at hfar
    rw [Nat.add_mul, Nat.mul_assoc, Nat.one_mul]
    constructor
    · intro h
      split_ifs at h
      · omega
      · omega
      · omega
    · intro h
      omega
  -- an odd quotient: from the half on it is rounded away, since a tie goes to the even number
  · rw [heq] at hsplit ⊢
    rw [Nat.mul_comm] at hsplit
    rw [Nat.add_mul, Nat.mul_assoc, Nat.one_mul]
    split_ifs with hlow hhigh
    · constructor
      · intro h
        omega
      · intro h
        omega
    · exact ⟨fun _ => by omega, fun _ => rfl⟩
    · exact ⟨fun _ => by omega, fun _ => by omega⟩

/-- A double that is put together is finite exactly if its last place is none beyond the
    last one. -/
theorem isFinite_ofParts_iff (negative : Bool) {significand shift : Nat} (hsignificand : significand < 2 ^ 53)
    (hnormal : 2 ^ 52 ≤ significand ∨ shift = 0) :
    (ofParts negative significand shift).IsFinite ↔ shift ≤ lastShift := by
  unfold ofParts
  constructor
  · intro h
    split_ifs at h with hcanonical
    · exact hcanonical.2.2
    · exact absurd h (not_isFinite_infinite negative)
  · intro hshift
    rw [dif_pos ⟨hsignificand, hnormal, hshift⟩]
    exact isFinite_finite _

/-- A quotient is rounded to 53 bits. -/
theorem ofScaled_eq_ofParts (negative : Bool) (num den : Nat) :
    ofScaled negative num den
      = if roundHalfEven num (den * 2 ^ shiftOf (num / den)) = 2 ^ 53 then
          ofParts negative (2 ^ 52) (shiftOf (num / den) + 1)
        else
          ofParts negative (roundHalfEven num (den * 2 ^ shiftOf (num / den))) (shiftOf (num / den)) := by
  have hshift : (if num / den < Nat.pow 2 53 then 0 else (num / den).log2 - 52) = shiftOf (num / den) := rfl
  simp only [ofScaled, hshift]
  by_cases hfull : roundHalfEven num (den * 2 ^ shiftOf (num / den)) = 2 ^ 53
  · rw [if_pos hfull]
    simp only [Nat.pow_eq, hfull]
    rfl
  · rw [if_neg hfull]
    simp only [Nat.pow_eq, if_neg hfull]
    rfl

/-- A quotient below `2 ^ 53` is rounded without a shift. -/
theorem isFinite_ofScaled_of_small (negative : Bool) (hden : 0 < den) (hsmall : num / den < 2 ^ 53) :
    (ofScaled negative num den).IsFinite := by
  have hshift : shiftOf (num / den) = 0 := if_pos hsmall
  have hnum : num < 2 ^ 53 * den := (Nat.div_lt_iff_lt_mul hden).1 hsmall
  have hceil : roundHalfEven num (den * 2 ^ 0) ≤ 2 ^ 53 := by
    rw [Nat.pow_zero, Nat.mul_one]
    exact roundHalfEven_le (Nat.le_of_lt hnum)
  rw [ofScaled_eq_ofParts, hshift]
  split_ifs with hfull
  · exact (isFinite_ofParts_iff negative (by decide) (.inl (Nat.le_refl _))).2 (by decide)
  · refine (isFinite_ofParts_iff negative (Nat.lt_of_le_of_ne hceil hfull) (.inr rfl)).2 ?_
    exact Nat.zero_le _

/-- A larger shift makes for steps that are twice as large or more. -/
theorem two_mul_step_le (den : Nat) {shift other : Nat} (h : shift < other) :
    2 * (den * 2 ^ shift) ≤ den * 2 ^ other := by
  rw [Nat.mul_left_comm, ← Nat.pow_succ']
  exact Nat.mul_le_mul_left den (Nat.pow_le_pow_right (by decide) h)

/-- Below the last shift there is room, past it there is none, and at it the carry decides. -/
theorem shift_has_room_iff {shift : Nat} (hleast : 2 ^ 52 * (den * 2 ^ shift) ≤ num)
    (hmost : num < 2 ^ 53 * (den * 2 ^ shift)) :
    (if roundHalfEven num (den * 2 ^ shift) = 2 ^ 53 then shift < lastShift else shift ≤ lastShift)
      ↔ 2 * num < (2 ^ 54 - 1) * (den * 2 ^ lastShift) := by
  -- below the last step there is always room and above it never; on it, unless rounding goes up
  rcases Nat.lt_trichotomy shift lastShift with hless | rfl | hmore
  · have hdouble := two_mul_step_le den hless
    refine iff_of_true ?_ ?_
    · split_ifs
      · exact hless
      · exact Nat.le_of_lt hless
    · generalize den * 2 ^ shift = step at hdouble hmost
      generalize den * 2 ^ lastShift = top at hdouble
      omega
  · generalize den * 2 ^ lastShift = top at hmost ⊢
    have hodd : (2 ^ 53 - 1) % 2 = 1 := by decide
    have htop : roundHalfEven num top = 2 ^ 53 ↔ (2 ^ 54 - 1) * top ≤ 2 * num :=
      roundHalfEven_eq_succ_iff hodd hmost
    by_cases hfull : roundHalfEven num top = 2 ^ 53
    · rw [if_pos hfull]
      exact iff_of_false (Nat.lt_irrefl _) (Nat.not_lt.2 (htop.1 hfull))
    · rw [if_neg hfull]
      exact iff_of_true (Nat.le_refl _) (Nat.not_le.1 (mt htop.2 hfull))
  · have hdouble := two_mul_step_le den hmore
    refine iff_of_false ?_ ?_
    · split_ifs
      · exact Nat.not_lt.2 (Nat.le_of_lt hmore)
      · exact Nat.not_le.2 hmore
    · generalize den * 2 ^ shift = step at hdouble hleast
      generalize den * 2 ^ lastShift = top at hdouble
      omega

/-- **A QUOTIENT IS FINITE BELOW HALF A STEP PAST THE LARGEST DOUBLE.** -/
theorem isFinite_ofScaled_iff (negative : Bool) (hden : 0 < den) :
    (ofScaled negative num den).IsFinite ↔ 2 * num < (2 ^ 54 - 1) * (den * 2 ^ lastShift) := by
  by_cases hsmall : num / den < 2 ^ 53
  · refine iff_of_true (isFinite_ofScaled_of_small negative hden hsmall) ?_
    have hnum : num < 2 ^ 53 * den := (Nat.div_lt_iff_lt_mul hden).1 hsmall
    have hdouble := two_mul_step_le den (show 0 < lastShift by decide)
    rw [Nat.pow_zero, Nat.mul_one] at hdouble
    generalize den * 2 ^ lastShift = top at hdouble
    omega
  · obtain ⟨hlow, hhigh⟩ := shiftOf_bounds hsmall
    rw [ofScaled_eq_ofParts]
    generalize shiftOf (num / den) = shift at hlow hhigh ⊢
    have hleast : 2 ^ 52 * (den * 2 ^ shift) ≤ num := by
      have hmul := (Nat.le_div_iff_mul_le hden).1 hlow
      rwa [Nat.mul_assoc, Nat.mul_comm (2 ^ shift)] at hmul
    have hmost : num < 2 ^ 53 * (den * 2 ^ shift) := by
      have hmul := (Nat.div_lt_iff_lt_mul hden).1 hhigh
      rwa [Nat.mul_assoc, Nat.mul_comm (2 ^ shift)] at hmul
    have hfloor := le_roundHalfEven (Nat.mul_pos hden (Nat.two_pow_pos shift)) hleast
    have hceil := roundHalfEven_le (Nat.le_of_lt hmost)
    rw [← shift_has_room_iff hleast hmost]
    split_ifs with hfull
    · exact isFinite_ofParts_iff negative (by decide) (.inl (Nat.le_refl _))
    · exact isFinite_ofParts_iff negative (Nat.lt_of_le_of_ne hceil hfull) (.inl hfloor)

end

/-! ## Steps -/

/-- A number of steps of at most one past the largest double is not beyond the doubles. -/
theorem isFinite_ofSteps {steps : Int} (h : steps.natAbs ≤ largest + unit) : (ofSteps steps).IsFinite := by
  have hunit : 2 * unit < 2 ^ lastShift := by decide +kernel
  refine (isFinite_ofScaled_iff _ Nat.one_pos).2 ?_
  unfold largest at h
  generalize 2 ^ lastShift = top at h hunit
  generalize unit = one at h hunit
  omega

/-- The size of a double in steps is its magnitude. -/
theorem natAbs_scaled (x : Finite) : x.scaled.natAbs = x.magnitude := by
  unfold Finite.scaled
  split_ifs
  · rw [Int.natAbs_neg, Int.natAbs_natCast]
  · rw [Int.natAbs_natCast]

/-- A finite number raised by one is finite. -/
theorem IsFinite.increment {x : Binary64} (h : x.IsFinite) : x.increment.IsFinite := by
  obtain ⟨x, rfl⟩ := h
  have hlargest := magnitude_le x
  have habs := natAbs_scaled x
  refine isFinite_ofSteps ?_
  generalize unit = one
  omega

/-- A finite number lowered by one is finite. -/
theorem IsFinite.decrement {x : Binary64} (h : x.IsFinite) : x.decrement.IsFinite := by
  obtain ⟨x, rfl⟩ := h
  have hlargest := magnitude_le x
  have habs := natAbs_scaled x
  refine isFinite_ofSteps ?_
  generalize unit = one
  omega

/-- Keeping a bound from falling below zero leaves it finite. -/
theorem IsFinite.atLeastZero {x : Binary64} (h : x.IsFinite) : x.atLeastZero.IsFinite := by
  obtain ⟨x, rfl⟩ := h
  show (if x.scaled ≤ 0 then zero else finite x).IsFinite
  split_ifs
  · exact isFinite_finite _
  · exact isFinite_finite x

/-- A whole number is finite. -/
theorem isFinite_of_isIntegral {x : Binary64} (h : x.isIntegral = true) : x.IsFinite := by
  cases x with
  | nan => exact nomatch h
  | infinite negative => exact nomatch h
  | finite x => exact isFinite_finite x

end Binary64

/-! ## Numbers in JSON -/

namespace Json

/-- The value is a number. -/
def IsNumber : Json → Prop
  | .integer _ => True
  | .float _ => True
  | _ => False

/-- **A FINITE NUMBER IS WRITTEN AS A NUMBER**, and no other is. -/
theorem isNumber_ofNumber_iff {x : Binary64} : (ofNumber x).IsNumber ↔ x.IsFinite := by
  cases x with
  | nan => exact ⟨False.elim, nofun⟩
  | infinite negative => exact ⟨False.elim, nofun⟩
  | finite x =>
      refine iff_of_true ?_ (Binary64.isFinite_finite x)
      unfold ofNumber
      cases (Binary64.finite x).toSigned64? with
      | none => exact trivial
      | some n => exact trivial

end Json

/-! ## Literals and clauses -/

namespace Literal

/-- The literal is a text or a boolean, or its number is finite. -/
def IsFinite : Literal → Prop
  | .number x => x.IsFinite
  | _ => True

/-- A finite literal is written as what it is, and not as null. -/
theorem IsFinite.toJson_ne_null {literal : Literal} (h : literal.IsFinite) : literal.toJson ≠ .null := by
  cases literal with
  | string text => exact nofun
  | boolean truth => exact nofun
  | number x =>
      intro hnull
      have hnumber : (Literal.number x).toJson.IsNumber := Json.isNumber_ofNumber_iff.2 h
      rw [hnull] at hnumber
      exact hnumber

end Literal

namespace Clause

/-- The bounds of a clause. -/
def bounds : Clause → List Binary64
  | .range least most => least.toList ++ most.toList
  | .above bound => [bound]
  | .atLeast bound => [bound]
  | .below bound => [bound]
  | .atMost bound => [bound]
  | .equalTo bound => [bound]
  | .exactly count => [.ofNat count]

/-- Every bound of the clause is finite. -/
def IsFinite (clause : Clause) : Prop := ∀ bound ∈ clause.bounds, bound.IsFinite

end Clause

/-! ## Numerals -/

namespace Dsl.Numeral

open Conform.Text

/-- The digits after the point. -/
def places (numeral : Numeral) : Nat := (numeral.fraction.getD []).length

/-- The number that all the digits write, without the point. -/
def digits (numeral : Numeral) : Nat := digitsValue (numeral.whole ++ numeral.fraction.getD [])

/-- The number that is written is `2 ^ 1024 - 2 ^ 970` at least, half a step past the
    largest double. -/
def IsTooLarge (numeral : Numeral) : Prop := (2 ^ 1024 - 2 ^ 970) * 10 ^ numeral.places ≤ numeral.digits

instance (numeral : Numeral) : Decidable numeral.IsTooLarge := Nat.decLe _ _

/-- The smallest number that is too large, in the steps of doubles. -/
theorem twice_tooLarge : 2 * ((2 ^ 1024 - 2 ^ 970) * Binary64.unit) = (2 ^ 54 - 1) * 2 ^ Binary64.lastShift := by
  decide +kernel

/-- **A QUOTIENT IS FINITE EXACTLY BELOW THE MIDPOINT** between the largest double and the next
    power of two. -/
theorem isFinite_ofQuotient_iff (negative : Bool) {num den : Nat} (hden : 0 < den) :
    (Binary64.ofQuotient negative num den).IsFinite ↔ num < (2 ^ 1024 - 2 ^ 970) * den := by
  have htwice := twice_tooLarge
  rw [Binary64.ofQuotient, Binary64.isFinite_ofScaled_iff negative hden, Nat.mul_left_comm _ den,
    ← htwice]
  generalize 2 ^ 1024 - 2 ^ 970 = large
  have hunit := Binary64.unit_pos
  generalize Binary64.unit = one at hunit
  have hleft : 2 * (num * one) = num * (2 * one) := by ring
  have hright : den * (2 * (large * one)) = large * den * (2 * one) := by ring
  rw [hleft, hright]
  exact Nat.mul_lt_mul_right (Nat.mul_pos Nat.two_pos hunit)

/-- **THE VALUE OF A NUMERAL IS FINITE** exactly if the numeral is not too large. -/
theorem isFinite_value_iff (numeral : Numeral) : numeral.value.IsFinite ↔ ¬numeral.IsTooLarge := by
  unfold IsTooLarge
  rw [Nat.not_le]
  show (Binary64.ofDecimal numeral.negative numeral.digits (-(numeral.places : Int))).IsFinite ↔ _
  have hlarge : 0 < (2 ^ 1024 - 2 ^ 970 : Nat) := by decide +kernel
  generalize numeral.digits = digits
  generalize numeral.places = places
  have hpower : 0 < 10 ^ places := Nat.pow_pos (by decide)
  unfold Binary64.ofDecimal
  by_cases hzero : digits = 0
  · rw [if_pos hzero, hzero]
    exact iff_of_true (Binary64.isFinite_finite _) (Nat.mul_pos hlarge hpower)
  · rw [if_neg hzero]
    -- the reader takes whole numerals apart from the others, and cuts the tiny ones to zero
    by_cases hwhole : places = 0
    · subst hwhole
      rw [if_pos (by decide), if_neg (by decide)]
      have hsame : digits * Nat.pow 10 (-((0 : Nat) : Int)).toNat = digits := Nat.mul_one digits
      rw [hsame, isFinite_ofQuotient_iff _ Nat.one_pos, Nat.pow_zero]
    · rw [if_neg (by omega)]
      dsimp only
      rw [Int.natAbs_neg, Int.natAbs_natCast]
      by_cases htiny : digits.log2 + 1200 ≤ 3 * places
      · rw [if_pos htiny]
        refine iff_of_true (Binary64.isFinite_finite _) ?_
        have hdigits : digits < 2 ^ (3 * places) :=
          Nat.lt_of_lt_of_le Nat.lt_log2_self (Nat.pow_le_pow_right Nat.two_pos (by omega))
        rw [Nat.pow_mul] at hdigits
        calc digits < 8 ^ places := hdigits
          _ ≤ 10 ^ places := Nat.pow_le_pow_left (by decide) places
          _ ≤ _ := Nat.le_mul_of_pos_left _ hlarge
      · rw [if_neg htiny]
        exact isFinite_ofQuotient_iff numeral.negative hpower

end Dsl.Numeral

end Conform
