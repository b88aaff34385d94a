import Conform.Proofs.Magnitudes
import Conform.Proofs.Shortest

/-! # Covered values — what is rounded to a double

    A quotient is rounded to a double that covers it (`covers_of_ofScaled`).  No value is
    covered by two doubles, so whatever a double covers is rounded to it
    (`ofScaled_eq_of_covers`).  A decimal is rounded as the quotient that it is, unless it is
    so large or so small that the answer is plain, and then the answer is no other one
    (`ofDecimal_eq_of_covers`).

    With the shortest decimals, which are covered by the doubles that they are for, this
    closes the circle from a double to its digits and back. -/

namespace Conform

open Binary64.Finite

namespace Binary64

/-! ## Quotients -/

/-- A quotient is half a unit at most from what it is rounded to, and less than that where
    this is odd. -/
theorem roundHalfEven_within (num : Nat) {den : Nat} (hden : 0 < den) :
    2 * (roundHalfEven num den * den) ≤ 2 * num + den
      ∧ 2 * num ≤ 2 * (roundHalfEven num den * den) + den
      ∧ (roundHalfEven num den % 2 = 1 → 2 * (roundHalfEven num den * den) < 2 * num + den
        ∧ 2 * num < 2 * (roundHalfEven num den * den) + den) := by
  have hsplit := Nat.div_add_mod num den
  have hrest := Nat.mod_lt num hden
  rw [Nat.mul_comm] at hsplit
  unfold roundHalfEven
  dsimp only
  generalize num / den = quotient at hsplit ⊢
  generalize num % den = rest at hsplit hrest ⊢
  have hnext : (quotient + 1) * den = quotient * den + den := Nat.succ_mul quotient den
  split_ifs with hlow hhigh
  · omega
  · omega
  · -- in the middle the even one of the two is taken
    rcases Nat.mod_two_eq_zero_or_one quotient with heven | hodd
    · rw [heven, Nat.add_zero]
      omega
    · rw [hodd]
      omega

section

variable {x y : Finite} {num den : Nat}

/-- What a double covers of the quotients is said by naturals. -/
theorem covers_quotient_iff (hden : 0 < den) :
    x.Covers (4 * num / den)
      ↔ if x.significand % 2 = 0 then x.lowEnd * den ≤ 4 * num ∧ 4 * num ≤ x.highEnd * den
        else x.lowEnd * den < 4 * num ∧ 4 * num < x.highEnd * den := by
  have hcast : (0 : ℚ) < den := Nat.cast_pos.2 hden
  have hle : ∀ ends : Nat, (ends : ℚ) ≤ 4 * num / den ↔ ends * den ≤ 4 * num := fun ends => by
    rw [le_div_iff₀ hcast]
    exact_mod_cast Iff.rfl
  have hge : ∀ ends : Nat, (4 * num / den : ℚ) ≤ ends ↔ 4 * num ≤ ends * den := fun ends => by
    rw [div_le_iff₀ hcast]
    exact_mod_cast Iff.rfl
  unfold Covers
  by_cases heven : x.significand % 2 = 0
  · rw [if_pos heven, if_pos heven, hle, hge]
  · rw [if_neg heven, if_neg heven, ← not_le, ← not_le, hle, hge, Nat.not_le, Nat.not_le]

/-- The parts of a double are those that it was made of. -/
theorem eq_of_ofParts {negative : Bool} {significand shift : Nat}
    (h : ofParts negative significand shift = .finite y) :
    y.negative = negative ∧ y.significand = significand ∧ y.shift = shift := by
  unfold ofParts at h
  split_ifs at h
  obtain rfl := Binary64.finite.inj h
  exact ⟨rfl, rfl, rfl⟩

/-- The upper midpoint is half a step above. -/
theorem highEnd_mul (x : Finite) (den : Nat) :
    x.highEnd * den = 4 * (x.significand * (den * 2 ^ x.shift)) + 2 * (den * 2 ^ x.shift) := by
  rw [highEnd_eq]
  unfold magnitude
  rw [Nat.pow_eq]
  ring

/-- The lower midpoint of a double that has no shorter steps below it. -/
theorem lowEnd_mul (hregular : ¬(x.significand = 2 ^ 52 ∧ x.shift ≠ 0)) (den : Nat) :
    x.lowEnd * den = 4 * (x.significand * (den * 2 ^ x.shift)) - 2 * (den * 2 ^ x.shift) := by
  unfold lowEnd center magnitude
  have hregular : ¬(x.significand = Nat.pow 2 52 ∧ x.shift ≠ 0) := hregular
  rw [if_neg hregular, Nat.pow_eq, Nat.sub_mul]
  congr 1 <;> ring

/-- The lower midpoint of a double that has steps half as large below it. -/
theorem lowEnd_mul_of_first (hfirst : x.significand = 2 ^ 52 ∧ x.shift ≠ 0) (den : Nat) :
    x.lowEnd * den = 4 * (x.significand * (den * 2 ^ x.shift)) - den * 2 ^ x.shift := by
  unfold lowEnd center magnitude
  have hfirst : x.significand = Nat.pow 2 52 ∧ x.shift ≠ 0 := hfirst
  rw [if_pos hfirst, Nat.pow_eq, Nat.sub_mul]
  congr 1 <;> ring

/-- **A QUOTIENT IS ROUNDED TO A DOUBLE THAT COVERS IT.** -/
theorem covers_of_ofScaled {negative : Bool} (hden : 0 < den)
    (h : ofScaled negative num den = .finite y) :
    y.negative = negative ∧ y.Covers (4 * num / den) := by
  have hlarge : shiftOf (num / den) ≠ 0 → 2 ^ 52 * (den * 2 ^ shiftOf (num / den)) ≤ num := by
    intro hshift
    have hbig : ¬num / den < 2 ^ 53 := fun hsmall => hshift (if_pos hsmall)
    have hmul := (Nat.le_div_iff_mul_le hden).1 (shiftOf_bounds hbig).1
    rwa [Nat.mul_assoc, Nat.mul_comm (2 ^ shiftOf (num / den)) den] at hmul
  rw [ofScaled_eq_ofParts] at h
  generalize shiftOf (num / den) = shift at h hlarge
  have hstep : 0 < den * 2 ^ shift := Nat.mul_pos hden (Nat.two_pow_pos shift)
  obtain ⟨hlow, hhigh, hstrict⟩ := roundHalfEven_within num hstep
  rw [covers_quotient_iff hden]
  split_ifs at h with hfull
  · -- all bits were carried over, and the steps below are half as large
    obtain ⟨hnegative, hsignificand, hshift⟩ := eq_of_ofParts h
    have hdouble : den * 2 ^ y.shift = 2 * (den * 2 ^ shift) := by
      rw [hshift, Nat.pow_succ]
      ring
    have hfirst : y.significand = 2 ^ 52 ∧ y.shift ≠ 0 := ⟨hsignificand, by omega⟩
    refine ⟨hnegative, ?_⟩
    have heven : y.significand % 2 = 0 := by
      rw [hsignificand]
      rfl
    rw [if_pos heven, lowEnd_mul_of_first hfirst, highEnd_mul, hdouble, hsignificand]
    rw [hfull] at hlow hhigh
    generalize den * 2 ^ shift = step at hlow hhigh
    omega
  · obtain ⟨hnegative, hsignificand, rfl⟩ := eq_of_ofParts h
    refine ⟨hnegative, ?_⟩
    rw [← hsignificand] at hlow hhigh hstrict
    rw [highEnd_mul]
    -- below a power of two the steps are half as large, unless they are the smallest ones
    by_cases hfirst : y.significand = 2 ^ 52 ∧ y.shift ≠ 0
    · have hreached := hlarge hfirst.2
      have heven : y.significand % 2 = 0 := by
        rw [hfirst.1]
        rfl
      rw [if_pos heven, lowEnd_mul_of_first hfirst, hfirst.1]
      rw [hfirst.1] at hhigh
      generalize den * 2 ^ y.shift = step at hhigh hreached
      omega
    · rw [lowEnd_mul hfirst]
      split_ifs with heven
      · omega
      · have hodd : y.significand % 2 = 1 := by omega
        have hone : 1 * (den * 2 ^ y.shift) ≤ y.significand * (den * 2 ^ y.shift) :=
          Nat.mul_le_mul_right _ (by omega)
        obtain ⟨hlow, hhigh⟩ := hstrict hodd
        omega

/-- What a double covers is not beyond the largest double. -/
theorem lt_of_covers (hden : 0 < den) (h : x.Covers (4 * num / den)) :
    2 * num < (2 ^ 54 - 1) * (den * 2 ^ lastShift) := by
  obtain ⟨hbits, -, hshift⟩ := x.canonical
  have hstep : den * 2 ^ x.shift ≤ den * 2 ^ lastShift :=
    Nat.mul_le_mul_left den (Nat.pow_le_pow_right (by decide) hshift)
  have hpos : 0 < den * 2 ^ x.shift := Nat.mul_pos hden (Nat.two_pow_pos _)
  have hbits : x.significand ≤ 2 ^ 53 - 1 := Nat.le_pred_of_lt hbits
  rw [covers_quotient_iff hden, highEnd_mul] at h
  generalize den * 2 ^ x.shift = step at h hstep hpos
  generalize den * 2 ^ lastShift = top at hstep ⊢
  rcases Nat.lt_or_eq_of_le hbits with hless | hlast
  · -- a significand below the last one leaves a whole step
    have hmul : x.significand * step ≤ (2 ^ 53 - 2) * step := Nat.mul_le_mul_right _ (by omega)
    have hle : 4 * num ≤ 4 * (x.significand * step) + 2 * step := by
      split_ifs at h
      · exact h.2
      · exact Nat.le_of_lt h.2
    omega
  · rw [hlast, if_neg (by decide)] at h
    omega

/-- **WHAT A DOUBLE COVERS IS ROUNDED TO IT.** -/
theorem ofScaled_eq_of_covers (hden : 0 < den) (h : x.Covers (4 * num / den)) :
    ofScaled x.negative num den = .finite x := by
  obtain ⟨y, hy⟩ := (isFinite_ofScaled_iff x.negative hden).2 (lt_of_covers hden h)
  obtain ⟨hnegative, hcovers⟩ := covers_of_ofScaled hden hy
  rw [hy, ext_magnitude hnegative (magnitude_eq_of_covers hcovers h)]

end

/-! ## Decimals -/

section

variable {x : Finite} {value : ℚ}

/-- What is no more than half the smallest double is covered by zero alone. -/
theorem eq_zero_of_covers (h : x.Covers value) (hpos : 0 ≤ value) (hsmall : value ≤ 2) :
    x = Finite.zero x.negative := by
  have hzero : (Finite.zero x.negative).Covers value := by
    have hends : ((Finite.zero x.negative).lowEnd : ℚ) = 0
        ∧ ((Finite.zero x.negative).highEnd : ℚ) = 2 := by
      constructor
      · exact_mod_cast (rfl : (Finite.zero x.negative).lowEnd = 0)
      · exact_mod_cast (rfl : (Finite.zero x.negative).highEnd = 2)
    have heven : (Finite.zero x.negative).significand % 2 = 0 := rfl
    unfold Covers
    rw [if_pos heven, hends.1, hends.2]
    exact ⟨hpos, hsmall⟩
  exact ext_magnitude rfl (magnitude_eq_of_covers h hzero)

/-- What a double covers is below `2 ^ 1024`. -/
theorem lt_of_covers_value (h : x.Covers value) : value < 2 ^ 55 * 2 ^ lastShift := by
  obtain ⟨hbits, -, hshift⟩ := x.canonical
  have hbits : x.significand < 2 ^ 53 := hbits
  have hpow : 2 ^ x.shift ≤ 2 ^ lastShift := Nat.pow_le_pow_right (by decide) hshift
  have hstep := Nat.two_pow_pos x.shift
  have hmul : (x.significand + 1) * 2 ^ x.shift ≤ 2 ^ 53 * 2 ^ x.shift := Nat.mul_le_mul_right _ hbits
  have hend : x.highEnd < 2 ^ 55 * 2 ^ lastShift := by
    have hmagnitude : x.magnitude = x.significand * 2 ^ x.shift := rfl
    rw [highEnd_eq, hmagnitude]
    rw [Nat.succ_mul] at hmul
    generalize 2 ^ lastShift = top at hpow ⊢
    generalize x.significand * 2 ^ x.shift = magnitude at hmul ⊢
    omega
  have hcast : (x.highEnd : ℚ) < 2 ^ 55 * 2 ^ lastShift := by exact_mod_cast hend
  exact lt_of_le_of_lt h.between.2 hcast

end

section

variable {x : Finite} {d : Decimal}

theorem four_unit_eq_pow : (4 * unit : ℚ) = 2 ^ (2 + unitShift) := by
  rw [unit_eq, pow_add, Nat.cast_pow, Nat.cast_ofNat]
  norm_num

/-- A decimal whose digits are zero is covered by zero alone. -/
theorem eq_zero_of_covers_zero (hdigits : d.digits = 0) (h : x.Covers (d.value * (4 * unit))) :
    x = Finite.zero x.negative := by
  have hvalue : d.value * (4 * unit) = 0 := by
    rw [Decimal.value, hdigits, Nat.cast_zero, zero_mul, zero_mul]
  rw [hvalue] at h
  exact eq_zero_of_covers h (le_refl 0) (by norm_num)

/-- A decimal that is not zero and has 400 zeros behind it is beyond all doubles. -/
theorem not_covers_of_large (hdigits : d.digits ≠ 0) (hexponent : 400 ≤ d.exponent) :
    ¬x.Covers (d.value * (4 * unit)) := by
  intro h
  obtain ⟨places, hplaces⟩ := Int.eq_ofNat_of_zero_le (le_trans (by decide) hexponent)
  obtain ⟨bits, hbits⟩ : ∃ bits, bits = 1024 := ⟨_, rfl⟩
  have hpow : 2 ^ bits ≤ 10 ^ places := two_pow_le (by omega)
  have hmul : 1 * 2 ^ bits ≤ d.digits * 10 ^ places :=
    Nat.mul_le_mul (Nat.pos_of_ne_zero hdigits) hpow
  have hvalue : (2 : ℚ) ^ bits ≤ d.value := by
    rw [Decimal.value, hplaces, zpow_natCast]
    rw [Nat.one_mul] at hmul
    exact_mod_cast hmul
  refine absurd (lt_of_covers_value h) (not_lt.2 ?_)
  calc (2 : ℚ) ^ 55 * 2 ^ lastShift = 2 ^ (55 + lastShift) := (pow_add 2 55 lastShift).symm
    _ ≤ 2 ^ (bits + (2 + unitShift)) := by
      refine pow_le_pow_right₀ (by norm_num) ?_
      rw [hbits]
      decide
    _ = 2 ^ bits * (4 * unit) := by rw [pow_add, four_unit_eq_pow]
    _ ≤ d.value * (4 * unit) :=
      mul_le_mul_of_nonneg_right hvalue (mul_nonneg (by norm_num) (Nat.cast_nonneg unit))

/-- A decimal that has many more places behind the point than digits is covered by zero
    alone. -/
theorem eq_zero_of_covers_small {places : Nat} (hexponent : d.exponent = -(places : Int))
    (hsmall : d.digits.log2 + 1200 ≤ 3 * places) (h : x.Covers (d.value * (4 * unit))) :
    x = Finite.zero x.negative := by
  have hdigits : d.digits * 2 ^ (2 + unitShift) ≤ 10 ^ places := by
    calc d.digits * 2 ^ (2 + unitShift) ≤ 2 ^ (d.digits.log2 + 1) * 2 ^ (2 + unitShift) :=
          Nat.mul_le_mul_right _ (Nat.le_of_lt Nat.lt_log2_self)
      _ = 2 ^ (d.digits.log2 + 1 + (2 + unitShift)) := (Nat.pow_add 2 _ _).symm
      _ ≤ 2 ^ (3 * places) := by
        refine Nat.pow_le_pow_right (by decide) ?_
        unfold unitShift
        omega
      _ = 8 ^ places := Nat.pow_mul 2 3 places
      _ ≤ 10 ^ places := Nat.pow_le_pow_left (by decide) places
  have hten : (0 : ℚ) < 10 ^ places := by positivity
  have hvalue : d.value * (4 * unit) = (d.digits * 2 ^ (2 + unitShift) : Nat) / 10 ^ places := by
    rw [four_unit_eq_pow, Decimal.value, hexponent, zpow_neg, zpow_natCast]
    push_cast
    field_simp
  refine eq_zero_of_covers h ?_ ?_
  · rw [hvalue]
    exact div_nonneg (Nat.cast_nonneg _) hten.le
  · have hcast : ((d.digits * 2 ^ (2 + unitShift) : Nat) : ℚ) ≤ 10 ^ places := by exact_mod_cast hdigits
    rw [hvalue, div_le_iff₀ hten]
    linarith

/-- **A DECIMAL IS ROUNDED TO THE DOUBLE THAT COVERS IT.** -/
theorem ofDecimal_eq_of_covers (h : x.Covers (d.value * (4 * unit))) :
    ofDecimal x.negative d.digits d.exponent = .finite x := by
  unfold ofDecimal
  by_cases hdigits : d.digits = 0
  · rw [if_pos hdigits, ← eq_zero_of_covers_zero hdigits h]
  rw [if_neg hdigits]
  by_cases hexponent : 0 ≤ d.exponent
  · rw [if_pos hexponent, if_neg fun hlarge => not_covers_of_large hdigits hlarge h]
    obtain ⟨places, hplaces⟩ := Int.eq_ofNat_of_zero_le hexponent
    refine ofScaled_eq_of_covers Nat.one_pos ?_
    have hvalue : (4 * (d.digits * Nat.pow 10 d.exponent.toNat * unit : Nat) / (1 : Nat) : ℚ)
        = d.value * (4 * unit) := by
      rw [Decimal.value, hplaces, Int.toNat_natCast, zpow_natCast, Nat.pow_eq]
      push_cast
      ring
    rwa [hvalue]
  · obtain ⟨places, hplaces⟩ := Int.exists_eq_neg_ofNat (Int.not_le.1 hexponent).le
    rw [if_neg hexponent, hplaces, Int.natAbs_neg, Int.natAbs_natCast]
    dsimp only
    -- numerals as small as this are cut to zero before any division
    by_cases hsmall : d.digits.log2 + 1200 ≤ 3 * places
    · rw [if_pos hsmall, ← eq_zero_of_covers_small hplaces hsmall h]
    · rw [if_neg hsmall]
      refine ofScaled_eq_of_covers (Nat.pow_pos (by decide)) ?_
      have hvalue : (4 * (d.digits * unit : Nat) / (Nat.pow 10 places : Nat) : ℚ)
          = d.value * (4 * unit) := by
        rw [Decimal.value, hplaces, zpow_neg, zpow_natCast, Nat.pow_eq]
        push_cast
        ring
      rwa [hvalue]

end

end Binary64

end Conform
