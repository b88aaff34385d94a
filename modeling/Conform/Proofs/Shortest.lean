import Conform.Decimal.Shortest
import Conform.Proofs.Rounding
import Mathlib.Algebra.Order.Field.Power
import Mathlib.Algebra.Order.Field.Rat
import Mathlib.Tactic.FieldSimp
import Mathlib.Tactic.Linarith
import Mathlib.Tactic.NormNum
import Mathlib.Tactic.Positivity

/-! # Shortest decimals read back

    A double COVERS the values between the midpoints to its neighbours, the midpoints
    included when its significand is even.  No value is covered by two doubles
    (`magnitude_eq_of_covers`).

    A grid of decimals that is fine enough has a point that the double covers, and the
    seventeenth place after the leading one is always fine enough.  So the search for the
    shortest decimal ends, and what it finds is covered by the double that it is for
    (`covers_shortest`). -/

namespace Conform

namespace Decimal

/-- The number that the decimal is. -/
def value (d : Decimal) : ℚ := d.digits * 10 ^ d.exponent

/-- Zeros that are moved into the exponent do not change the number. -/
theorem value_stripZeros (places digits : Nat) (exponent : Int) :
    (stripZeros places digits exponent).value = digits * 10 ^ exponent := by
  induction places generalizing digits exponent with
  | zero => rfl
  | succ places ih =>
      rw [stripZeros]
      by_cases hzero : digits ≠ 0 ∧ digits % 10 = 0
      · rw [if_pos hzero, ih]
        obtain ⟨tenth, rfl⟩ := Nat.dvd_of_mod_eq_zero hzero.2
        rw [Nat.mul_div_cancel_left tenth (by decide), zpow_add_one₀ (by norm_num)]
        push_cast
        ring
      · rw [if_neg hzero]
        rfl

end Decimal

namespace Binary64.Finite

/-! ## What a double covers -/

/-- The double covers the value, which is given in quarter steps. -/
def Covers (x : Finite) (value : ℚ) : Prop :=
  if x.significand % 2 = 0 then (x.lowEnd : ℚ) ≤ value ∧ value ≤ x.highEnd
  else (x.lowEnd : ℚ) < value ∧ value < x.highEnd

section

variable {x y : Finite} {value : ℚ}

/-- What a double covers is between its ends. -/
theorem Covers.between (h : x.Covers value) : (x.lowEnd : ℚ) ≤ value ∧ value ≤ x.highEnd := by
  unfold Covers at h
  split at h
  · exact h
  · exact ⟨h.1.le, h.2.le⟩

/-- What is strictly between the ends is covered. -/
theorem covers_of_between (hlow : (x.lowEnd : ℚ) < value) (hhigh : value < x.highEnd) : x.Covers value := by
  unfold Covers
  split
  · exact ⟨hlow.le, hhigh.le⟩
  · exact ⟨hlow, hhigh⟩

/-- An odd double does not cover its ends. -/
theorem Covers.strictly (h : x.Covers value) (hodd : x.significand % 2 = 1) :
    (x.lowEnd : ℚ) < value ∧ value < x.highEnd := by
  unfold Covers at h
  rwa [if_neg (by omega)] at h

theorem highEnd_eq (x : Finite) : x.highEnd = 4 * x.magnitude + 2 * 2 ^ x.shift := rfl

/-- The lower midpoint is half a step below, and a quarter of one where the steps below
    are half as large. -/
theorem lowEnd_cases (h : 0 < x.significand) :
    (x.significand = 2 ^ 52 ∧ x.shift ≠ 0 ∧ x.lowEnd + 2 ^ x.shift = 4 * x.magnitude)
      ∨ (¬(x.significand = 2 ^ 52 ∧ x.shift ≠ 0) ∧ x.lowEnd + 2 * 2 ^ x.shift = 4 * x.magnitude) := by
  have hstep : 2 ^ x.shift ≤ x.magnitude := Nat.le_mul_of_pos_left _ h
  unfold lowEnd
  by_cases hfirst : x.significand = Nat.pow 2 52 ∧ x.shift ≠ 0
  · refine Or.inl ⟨hfirst.1, hfirst.2, ?_⟩
    rw [if_pos hfirst]
    show 4 * x.magnitude - 2 ^ x.shift + 2 ^ x.shift = _
    omega
  · refine Or.inr ⟨hfirst, ?_⟩
    rw [if_neg hfirst]
    show 4 * x.magnitude - 2 * 2 ^ x.shift + 2 * 2 ^ x.shift = _
    omega

theorem significand_pos (h : 0 < x.magnitude) : 0 < x.significand :=
  Nat.pos_of_mul_pos_right h

/-- A double that is at least as large has no smaller shift. -/
theorem shift_le_of_le (h : x.magnitude ≤ y.magnitude) : x.shift ≤ y.shift := by
  refine Nat.le_of_not_lt fun hlt => ?_
  have hlarge : 2 ^ 52 ≤ x.significand := x.canonical.2.1.resolve_right (by omega)
  have hpow : 2 ^ (y.shift + 1) ≤ 2 ^ x.shift := Nat.pow_le_pow_right (by decide) hlt
  have hy : y.magnitude < 2 ^ 53 * 2 ^ y.shift :=
    Nat.mul_lt_mul_of_pos_right y.canonical.1 (Nat.two_pow_pos _)
  have hx : 2 ^ 52 * 2 ^ x.shift ≤ x.magnitude := Nat.mul_le_mul_right _ hlarge
  rw [Nat.pow_succ] at hpow
  omega

/-- A double is its sign and its distance from zero. -/
theorem ext_magnitude (hnegative : x.negative = y.negative) (h : x.magnitude = y.magnitude) : x = y := by
  have hshift := Nat.le_antisymm (shift_le_of_le h.le) (shift_le_of_le h.ge)
  have hsignificand : x.significand = y.significand := by
    have hmul : x.significand * 2 ^ x.shift = y.significand * 2 ^ y.shift := h
    rw [hshift] at hmul
    exact Nat.eq_of_mul_eq_mul_right (Nat.two_pow_pos _) hmul
  obtain ⟨negative, significand, shift, canonical⟩ := x
  obtain rfl : negative = y.negative := hnegative
  obtain rfl : significand = y.significand := hsignificand
  obtain rfl : shift = y.shift := hshift
  rfl

/-- **MIDPOINTS ARE IN ORDER**: what a double covers ends before what a larger one covers
    begins, and where the ends meet one of the two is odd. -/
theorem highEnd_le_lowEnd (h : x.magnitude < y.magnitude) :
    x.highEnd ≤ y.lowEnd
      ∧ (x.highEnd = y.lowEnd → x.significand % 2 = 1 ∨ y.significand % 2 = 1) := by
  have hpos : 0 < y.significand := significand_pos (Nat.zero_lt_of_lt h)
  have hstep := Nat.two_pow_pos x.shift
  have hx : x.magnitude = x.significand * 2 ^ x.shift := rfl
  have hy : y.magnitude = y.significand * 2 ^ y.shift := rfl
  have hlow := lowEnd_cases hpos
  rw [highEnd_eq]
  rcases Nat.eq_or_lt_of_le (shift_le_of_le h.le) with heq | hlt
  · -- with one shift, the significands are a step or more apart
    rw [← heq] at hy hlow
    rw [hx, hy] at h
    obtain ⟨more, hmore⟩ := Nat.exists_eq_add_of_lt (Nat.lt_of_mul_lt_mul_right h)
    rw [hmore, Nat.add_mul, Nat.add_mul, Nat.one_mul, ← hx] at hy
    refine ⟨by omega, fun hmeet => ?_⟩
    have hzero : more * 2 ^ x.shift = 0 := by omega
    obtain rfl : more = 0 := (Nat.mul_eq_zero.1 hzero).resolve_right (by omega)
    omega
  · -- with a larger shift, the larger double has all its bits
    have hlarge : 2 ^ 52 ≤ y.significand := y.canonical.2.1.resolve_right (by omega)
    obtain ⟨extra, hextra⟩ := Nat.exists_eq_add_of_le hlarge
    have hdouble : 2 * 2 ^ x.shift ≤ 2 ^ y.shift := by
      have hpow : 2 ^ (x.shift + 1) ≤ 2 ^ y.shift := Nat.pow_le_pow_right (by decide) hlt
      rw [Nat.pow_succ] at hpow
      omega
    have hfull : (x.significand + 1) * 2 ^ x.shift ≤ 2 ^ 53 * 2 ^ x.shift :=
      Nat.mul_le_mul_right _ x.canonical.1
    rw [Nat.add_mul, Nat.one_mul, ← hx] at hfull
    rw [hextra, Nat.add_mul] at hy
    generalize 2 ^ x.shift = step at hstep hx hdouble hfull ⊢
    generalize 2 ^ y.shift = above at hy hdouble hlow
    -- only the first double of its size has a nearer neighbour below
    rcases hlow with ⟨hfirst, -, hlow⟩ | ⟨hfirst, hlow⟩
    · have hrest := Nat.zero_le (extra * above)
      refine ⟨by linarith, fun hmeet => Or.inl ?_⟩
      have hlast : (x.significand + 1) * step = 2 ^ 53 * step := by
        rw [Nat.add_mul, Nat.one_mul, ← hx]
        exact Nat.le_antisymm hfull (by linarith)
      have hbits := Nat.eq_of_mul_eq_mul_right hstep hlast
      clear * - hbits
      omega
    · have hone : 1 ≤ extra := Nat.pos_of_ne_zero fun hzero =>
        hfirst ⟨by rw [hextra, hzero, Nat.add_zero], Nat.ne_zero_of_lt hlt⟩
      have hnext : 1 * above ≤ extra * above := Nat.mul_le_mul_right _ hone
      have hless : 4 * x.magnitude + 2 * step < y.lowEnd := by linarith
      exact ⟨hless.le, fun hmeet => absurd hmeet (Nat.ne_of_lt hless)⟩

/-- What a smaller double covers is not covered by a larger one. -/
theorem not_covers_of_lt (h : x.magnitude < y.magnitude) (hx : x.Covers value) : ¬y.Covers value := by
  intro hy
  obtain ⟨hle, hmeet⟩ := highEnd_le_lowEnd h
  have hends : (x.highEnd : ℚ) ≤ y.lowEnd := Nat.cast_le.2 hle
  have hvalue := hx.between
  have hother := hy.between
  have heq : x.highEnd = y.lowEnd := by
    have hcast : (x.highEnd : ℚ) = y.lowEnd := by linarith
    exact Nat.cast_injective hcast
  rcases hmeet heq with hodd | hodd
  · have hstrict := hx.strictly hodd
    linarith
  · have hstrict := hy.strictly hodd
    linarith

/-- **NO VALUE IS COVERED BY TWO DOUBLES.** -/
theorem magnitude_eq_of_covers (hx : x.Covers value) (hy : y.Covers value) : x.magnitude = y.magnitude := by
  rcases Nat.lt_trichotomy x.magnitude y.magnitude with hlt | heq | hlt
  · exact absurd hy (not_covers_of_lt hlt hx)
  · exact heq
  · exact absurd hx (not_covers_of_lt hlt hy)

/-- A double covers what it is. -/
theorem covers_center (x : Finite) : x.Covers (4 * x.magnitude) := by
  have hhigh : 4 * x.magnitude < x.highEnd := by
    have hstep := Nat.two_pow_pos x.shift
    rw [highEnd_eq]
    omega
  have hhigh : (4 * x.magnitude : ℚ) < x.highEnd := by exact_mod_cast hhigh
  rcases Nat.eq_zero_or_pos x.significand with hzero | hpos
  · have heven : x.significand % 2 = 0 := by rw [hzero]
    have hmagnitude : x.magnitude = 0 := by
      unfold magnitude
      rw [hzero, Nat.zero_mul]
    have hlow : x.lowEnd = 0 := by
      unfold lowEnd center
      rw [hmagnitude]
      split <;> exact Nat.zero_sub _
    unfold Covers
    rw [if_pos heven, hlow]
    exact ⟨by positivity, hhigh.le⟩
  · refine covers_of_between ?_ hhigh
    have hlow : x.lowEnd < 4 * x.magnitude := by
      have hstep := Nat.two_pow_pos x.shift
      have hcases := lowEnd_cases hpos
      omega
    exact_mod_cast hlow

end

/-! ## Grids -/

/-- The distance of two points of the grid of the multiples of `10 ^ place`, in quarter
    steps. -/
def spacing (place : Int) : ℚ := 10 ^ place * (4 * unit)

theorem spacing_pos (place : Int) : 0 < spacing place := by
  have hunit : (0 : ℚ) < unit := Nat.cast_pos.2 unit_pos
  unfold spacing
  positivity

/-- Going some places down divides the spacing by a power of ten. -/
theorem spacing_sub (place : Int) (n : Nat) : spacing (place - n) * 10 ^ n = spacing place := by
  unfold spacing
  rw [zpow_sub₀ (by norm_num), zpow_natCast]
  generalize (4 * unit : ℚ) = one
  field_simp

/-- The step of a grid is its spacing, scaled to a whole number. -/
theorem grid_step (place : Int) :
    0 < (grid place).scale ∧ ((grid place).step : ℚ) = spacing place * (grid place).scale := by
  unfold grid spacing
  by_cases hplace : 0 ≤ place
  · rw [if_pos hplace]
    refine ⟨Nat.one_pos, ?_⟩
    obtain ⟨n, rfl⟩ := Int.eq_ofNat_of_zero_le hplace
    simp only [Int.toNat_natCast, Nat.pow_eq]
    push_cast
    rw [zpow_natCast]
    ring
  · rw [if_neg hplace]
    obtain ⟨n, rfl⟩ := Int.eq_negSucc_of_lt_zero (Int.not_le.1 hplace)
    have hpow : (0 : ℚ) < 10 ^ (n + 1) := by positivity
    refine ⟨Nat.pow_pos (by decide), ?_⟩
    simp only [Int.natAbs_negSucc, Nat.pow_eq]
    push_cast
    rw [zpow_negSucc]
    generalize (4 * unit : ℚ) = one
    field_simp

section

variable {x : Finite} {place : Int} {count : Nat}

/-- **WHAT READS BACK IS WHAT THE DOUBLE COVERS.** -/
theorem readsBack_iff : x.readsBack (grid place) count = true ↔ x.Covers (count * spacing place) := by
  obtain ⟨hscale, hstep⟩ := grid_step place
  have hscale : (0 : ℚ) < (grid place).scale := Nat.cast_pos.2 hscale
  have hpoint : ((count * (grid place).step : Nat) : ℚ) = count * spacing place * (grid place).scale := by
    push_cast
    rw [hstep]
    ring
  have hle : ∀ ends : Nat, ends * (grid place).scale ≤ count * (grid place).step
      ↔ (ends : ℚ) ≤ count * spacing place := fun ends => by
    rw [← Nat.cast_le (α := ℚ), hpoint, Nat.cast_mul]
    exact mul_le_mul_iff_left₀ hscale
  have hge : ∀ ends : Nat, count * (grid place).step ≤ ends * (grid place).scale
      ↔ count * spacing place ≤ (ends : ℚ) := fun ends => by
    rw [← Nat.cast_le (α := ℚ), hpoint, Nat.cast_mul]
    exact mul_le_mul_iff_left₀ hscale
  unfold readsBack Covers
  by_cases heven : x.significand % 2 = 0
  · simp only [if_pos heven, Bool.and_eq_true, Nat.ble_eq]
    exact and_congr (hle _) (hge _)
  · simp only [if_neg heven, Bool.and_eq_true, Nat.blt_eq]
    rw [← Nat.not_le, ← Nat.not_le, hle, hge, not_le, not_le]

/-- A double reaches a place exactly if its value is not below the spacing there. -/
theorem reaches_iff : x.reaches place = true ↔ spacing place ≤ x.center := by
  obtain ⟨hscale, hstep⟩ := grid_step place
  have hscale : (0 : ℚ) < (grid place).scale := Nat.cast_pos.2 hscale
  show Nat.ble _ _ = true ↔ _
  rw [Nat.ble_eq, ← Nat.cast_le (α := ℚ), hstep, Nat.cast_mul]
  exact mul_le_mul_iff_left₀ hscale

/-- How many units of a grid are below the double. -/
def below (x : Finite) (g : Grid) : Nat := x.center * g.scale / g.step

/-- What is found on a grid reads back; if nothing is found, then neither of the points
    next to the double reads back. -/
theorem nearestOn?_cases (tie : Decimal.Tie) (x : Finite) (g : Grid) :
    (∃ count, x.nearestOn? tie g = some count ∧ x.readsBack g count = true)
      ∨ x.nearestOn? tie g = none ∧ x.readsBack g (x.below g) = false
        ∧ x.readsBack g (x.below g + 1) = false := by
  unfold nearestOn? below
  dsimp only
  generalize x.center * g.scale / g.step = below
  cases hbelow : x.readsBack g below with
  | false =>
      cases habove : x.readsBack g (below + 1) with
      | false => exact Or.inr ⟨rfl, rfl, rfl⟩
      | true => exact Or.inl ⟨below + 1, rfl, habove⟩
  | true =>
      cases habove : x.readsBack g (below + 1) with
      | false => exact Or.inl ⟨below, rfl, hbelow⟩
      | true =>
          -- both read back, and one of them is taken
          dsimp only
          by_cases hlow : 2 * (x.center * g.scale - below * g.step) < g.step
          · rw [if_pos hlow]
            exact Or.inl ⟨below, rfl, hbelow⟩
          rw [if_neg hlow]
          by_cases hhigh : g.step < 2 * (x.center * g.scale - below * g.step)
          · rw [if_pos hhigh]
            exact Or.inl ⟨below + 1, rfl, habove⟩
          rw [if_neg hhigh]
          cases tie with
          | away => exact Or.inl ⟨below + 1, rfl, habove⟩
          | toEven =>
              refine Or.inl ⟨below + below % 2, rfl, ?_⟩
              rcases Nat.mod_two_eq_zero_or_one below with heven | hodd
              · rw [heven]
                exact hbelow
              · rw [hodd]
                exact habove

/-- The double lies between two points of the grid. -/
theorem center_between (x : Finite) (place : Int) :
    (x.below (grid place) : ℚ) * spacing place ≤ x.center
      ∧ (x.center : ℚ)
        < ((x.below (grid place) + 1 : Nat) : ℚ) * spacing place := by
  obtain ⟨hscale, hstep⟩ := grid_step place
  have hscale' : (0 : ℚ) < (grid place).scale := Nat.cast_pos.2 hscale
  have hpos : 0 < (grid place).step := by
    have hcast : (0 : ℚ) < (grid place).step := by
      rw [hstep]
      exact mul_pos (spacing_pos place) hscale'
    exact Nat.cast_pos.1 hcast
  have hlow : ((x.below (grid place) * (grid place).step : Nat) : ℚ)
      ≤ (x.center * (grid place).scale : Nat) := Nat.cast_le.2 (Nat.div_mul_le_self _ _)
  have hhigh : ((x.center * (grid place).scale : Nat) : ℚ)
      < ((x.below (grid place) + 1) * (grid place).step : Nat) :=
    Nat.cast_lt.2 (Nat.lt_mul_of_div_lt (Nat.lt_succ_self _) hpos)
  rw [Nat.cast_mul, Nat.cast_mul, hstep, ← mul_assoc] at hlow hhigh
  exact ⟨le_of_mul_le_mul_right hlow hscale', lt_of_mul_lt_mul_right hhigh hscale'.le⟩

end

/-! ## The search -/

/-- **A GRID THAT IS FINE ENOUGH HAS A POINT THAT IS COVERED**: sixteen places below the
    double are more than its 53 bits can tell apart. -/
theorem covers_of_fine {x : Finite} (hpos : 0 < x.significand) {place : Int}
    (hfine : spacing place * 10 ^ 16 ≤ x.center) :
    x.Covers (x.below (grid place) * spacing place)
      ∨ x.Covers ((x.below (grid place) + 1 : Nat) * spacing place) := by
  obtain ⟨hbelow, habove⟩ := center_between x place
  have hstep : (0 : ℚ) < 2 ^ x.shift := by positivity
  have hcenter : (x.center : ℚ) = 4 * (x.significand * 2 ^ x.shift) := by
    show ((4 * (x.significand * 2 ^ x.shift) : Nat) : ℚ) = _
    push_cast
    rfl
  have hhigh : (x.highEnd : ℚ) = x.center + 2 * 2 ^ x.shift := by
    show ((x.center + 2 * 2 ^ x.shift : Nat) : ℚ) = _
    push_cast
    rfl
  rw [Nat.cast_succ, add_mul, one_mul] at habove ⊢
  generalize spacing place = distance at *
  rcases lowEnd_cases hpos with ⟨hfirst, -, hlow⟩ | ⟨-, hlow⟩
  · -- the lower half is shorter, but the grid is twice as fine
    have hlow : (x.lowEnd : ℚ) + 2 ^ x.shift = x.center := by exact_mod_cast hlow
    rw [hfirst] at hcenter
    push_cast at hcenter
    generalize (2 : ℚ) ^ x.shift = step at *
    by_cases hnear : x.center - x.below (grid place) * distance < step
    · exact Or.inl (covers_of_between (by linarith) (by linarith))
    · exact Or.inr (covers_of_between (by linarith) (by linarith))
  -- both halves are equal here, and of two points of the grid the nearer one is covered
  · have hlow : (x.lowEnd : ℚ) + 2 * 2 ^ x.shift = x.center := by exact_mod_cast hlow
    have hbits : (x.significand : ℚ) * 2 ^ x.shift ≤ 2 ^ 53 * 2 ^ x.shift := by
      have hlt : (x.significand : ℚ) ≤ 2 ^ 53 := by exact_mod_cast x.canonical.1.le
      exact mul_le_mul_of_nonneg_right hlt hstep.le
    generalize (2 : ℚ) ^ x.shift = step at *
    by_cases hnear : x.center - x.below (grid place) * distance < 2 * step
    · exact Or.inl (covers_of_between (by linarith) (by linarith))
    · exact Or.inr (covers_of_between (by linarith) (by linarith))

/-- Enough bits for some decimal places. -/
theorem ten_pow_le {places bits : Nat} (h : 196 * places ≤ 59 * bits) : 10 ^ places ≤ 2 ^ bits := by
  refine (Nat.pow_le_pow_iff_left (by decide : 59 ≠ 0)).1 ?_
  calc (10 ^ places) ^ 59 = (10 ^ 59) ^ places := Nat.pow_right_comm 10 places 59
    _ ≤ (2 ^ 196) ^ places := Nat.pow_le_pow_left (by norm_num) places
    _ = 2 ^ (196 * places) := (Nat.pow_mul 2 196 places).symm
    _ ≤ 2 ^ (bits * 59) := Nat.pow_le_pow_right (by decide) (by omega)
    _ = (2 ^ bits) ^ 59 := Nat.pow_mul 2 bits 59

/-- Enough decimal places for some bits. -/
theorem two_pow_le {places bits : Nat} (h : 28 * bits ≤ 93 * places) : 2 ^ bits ≤ 10 ^ places := by
  refine (Nat.pow_le_pow_iff_left (by decide : 28 ≠ 0)).1 ?_
  calc (2 ^ bits) ^ 28 = 2 ^ (bits * 28) := (Nat.pow_mul 2 bits 28).symm
    _ ≤ 2 ^ (93 * places) := Nat.pow_le_pow_right (by decide) (by omega)
    _ = (2 ^ 93) ^ places := Nat.pow_mul 2 93 places
    _ ≤ (10 ^ 28) ^ places := Nat.pow_le_pow_left (by norm_num) places
    _ = (10 ^ places) ^ 28 := Nat.pow_right_comm 10 28 places

/-- The logarithm of two lies between `59 / 196` and `28 / 93`. -/
theorem ten_zpow_le {place bits : Int} (hfloor : 196 * place ≤ 59 * bits) (hceil : 93 * place ≤ 28 * bits) :
    (10 : ℚ) ^ place ≤ 2 ^ bits := by
  rcases le_total 0 place with hplace | hplace
  · obtain ⟨places, rfl⟩ := Int.eq_ofNat_of_zero_le hplace
    obtain ⟨bits, rfl⟩ := Int.eq_ofNat_of_zero_le (by omega : 0 ≤ bits)
    have hpow : 10 ^ places ≤ 2 ^ bits := ten_pow_le (by omega)
    rw [zpow_natCast, zpow_natCast]
    exact_mod_cast hpow
  · rcases le_total 0 bits with hbits | hbits
    · calc (10 : ℚ) ^ place ≤ 1 := zpow_le_one_of_nonpos₀ (by norm_num) hplace
        _ ≤ 2 ^ bits := one_le_zpow₀ (by norm_num) hbits
    · obtain ⟨places, rfl⟩ := Int.exists_eq_neg_ofNat hplace
      obtain ⟨bits, rfl⟩ := Int.exists_eq_neg_ofNat hbits
      have hpow : 2 ^ bits ≤ 10 ^ places := two_pow_le (by omega)
      rw [zpow_neg, zpow_neg, zpow_natCast, zpow_natCast]
      refine inv_anti₀ (by positivity) ?_
      exact_mod_cast hpow

theorem four_unit_eq : (4 * unit : ℚ) = 2 ^ (1076 : Int) := by
  have hshift : (1076 : Int) = ((2 + unitShift : Nat) : Int) := rfl
  rw [unit_eq, hshift, zpow_natCast, pow_add, Nat.cast_pow, Nat.cast_ofNat]
  norm_num

/-- What is guessed for the place of the leading digit is too high by one at most. -/
theorem spacing_leadingPlace_le {x : Finite} (hpos : 0 < x.significand) :
    spacing x.leadingPlace ≤ x.center := by
  have hstep := Nat.two_pow_pos x.shift
  have hmagnitude : x.magnitude ≠ 0 := Nat.ne_of_gt (Nat.mul_pos hpos hstep)
  have hcenter : x.center ≠ 0 := Nat.mul_ne_zero (by decide) hmagnitude
  have hlow : ((2 ^ x.center.log2 : Nat) : ℚ) ≤ x.center := Nat.cast_le.2 (Nat.log2_self_le hcenter)
  have hlog : x.center.log2 < 2100 := by
    obtain ⟨hsignificand, -, hshift⟩ := x.canonical
    have hbits : 4 * x.magnitude < 2 ^ 55 * 2 ^ x.shift := by
      have hless : x.magnitude < 2 ^ 53 * 2 ^ x.shift := Nat.mul_lt_mul_of_pos_right hsignificand hstep
      omega
    rw [← Nat.pow_add] at hbits
    exact Nat.lt_of_lt_of_le ((Nat.log2_lt hcenter).2 hbits) (by omega)
  unfold leadingPlace
  dsimp only
  generalize x.center.log2 = log at hlow hlog
  obtain ⟨guess, hguess⟩ : ∃ guess, guess = ((log : Int) - 1076) * 30103 / 100000 := ⟨_, rfl⟩
  rw [← hguess]
  -- the guess from the logarithm is one off at most, and the two tests around it settle which
  by_cases hnext : x.reaches (guess + 1) = true
  · rw [if_pos hnext]
    exact reaches_iff.1 hnext
  rw [if_neg hnext]
  by_cases hreaches : x.reaches guess = true
  · rw [if_pos hreaches]
    exact reaches_iff.1 hreaches
  rw [if_neg hreaches]
  -- neither place is reached: the one below the guess is, by the estimate of log 2 alone
  refine le_trans ?_ hlow
  have hten : (10 : ℚ) ^ (guess - 1) ≤ 2 ^ ((log : Int) - 1076) := ten_zpow_le (by omega) (by omega)
  calc spacing (guess - 1) ≤ 2 ^ ((log : Int) - 1076) * (4 * unit) :=
        mul_le_mul_of_nonneg_right hten (mul_nonneg (by norm_num) (Nat.cast_nonneg unit))
    _ = 2 ^ ((log : Int) - 1076) * 2 ^ (1076 : Int) := by rw [four_unit_eq]
    _ = ((2 ^ log : Nat) : ℚ) := by
      rw [← zpow_add₀ (by norm_num), sub_add_cancel, zpow_natCast, Nat.cast_pow, Nat.cast_ofNat]

/-- **SEVENTEEN DIGITS ARE ENOUGH**: on the last grid there is a number that reads back. -/
theorem nearestOn?_leadingPlace (tie : Decimal.Tie) {x : Finite} (hpos : 0 < x.significand) :
    (x.nearestOn? tie (grid (x.leadingPlace - 16))).isSome = true := by
  have hfine : spacing (x.leadingPlace - (16 : Nat)) * 10 ^ 16 ≤ x.center := by
    rw [spacing_sub]
    exact spacing_leadingPlace_le hpos
  rcases nearestOn?_cases tie x (grid (x.leadingPlace - 16)) with ⟨count, hcount, -⟩ | ⟨-, hbelow, habove⟩
  · rw [hcount]
    rfl
  · rcases covers_of_fine hpos hfine with hcovers | hcovers
    · exact absurd (readsBack_iff.2 hcovers) (Bool.eq_false_iff.1 hbelow)
    · exact absurd (readsBack_iff.2 hcovers) (Bool.eq_false_iff.1 habove)

/-- **THE SHORTEST DECIMAL IS COVERED** by the double that it is for. -/
theorem covers_shortest (tie : Decimal.Tie) {x : Finite} (hpos : 0 < x.significand) :
    x.Covers ((x.shortest tie).value * (4 * unit)) := by
  have hzero : x.isZero ≠ true := fun h => Nat.ne_of_gt hpos (eq_of_beq h)
  have hsearch : ((List.range 17).findSome? fun (n : Nat) =>
      (x.nearestOn? tie (grid (x.leadingPlace - (n : Int)))).map fun digits =>
        Decimal.stripZeros 17 digits (x.leadingPlace - (n : Int))).isSome = true := by
    rw [List.findSome?_isSome_iff]
    refine ⟨16, by decide, ?_⟩
    rw [Option.isSome_map]
    exact nearestOn?_leadingPlace tie hpos
  obtain ⟨d, hd⟩ := Option.isSome_iff_exists.1 hsearch
  have hshortest : x.shortest tie = d := by
    unfold shortest
    rw [if_neg hzero]
    simp only [hd]
    rfl
  obtain ⟨n, -, hn⟩ := List.exists_of_findSome?_eq_some hd
  obtain ⟨digits, hdigits, rfl⟩ := Option.map_eq_some_iff.1 hn
  rcases nearestOn?_cases tie x (grid (x.leadingPlace - (n : Int))) with ⟨count, hcount, hreads⟩ | ⟨hnone, -⟩
  · obtain rfl : digits = count := Option.some.inj (hdigits.symm.trans hcount)
    rw [hshortest, Decimal.value_stripZeros, mul_assoc]
    exact readsBack_iff.1 hreads
  · rw [hnone] at hdigits
    exact nomatch hdigits

end Binary64.Finite

end Conform
