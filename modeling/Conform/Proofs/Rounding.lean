import Conform.Json
import Mathlib.Algebra.Order.Ring.Nat
import Mathlib.Tactic.Ring

/-! # Rounding — what lies between two doubles stays between them

    Magnitudes are counted in steps of `2 ^ -1074`.  Those that a double can have lie
    ON THE GRID: at most 53 bits, shifted.  Rounding moves a magnitude to the grid and
    never past a magnitude that lies there (`nearest_le`, `le_nearest`); so magnitudes
    on the grid stay where they are, and whole numbers stay whole.

    From that it follows what becomes of a bound when it is raised or lowered by one,
    and of a double that is written as an integer. -/

namespace Conform.Binary64

/-! ## Quotients -/

section

variable {num den bound : Nat}

/-- A quotient is rounded up by one at most, and only if there is a rest. -/
theorem roundHalfEven_cases (num den : Nat) :
    roundHalfEven num den = num / den
      ∨ roundHalfEven num den = num / den + 1 ∧ 0 < num % den := by
  unfold roundHalfEven
  by_cases hlow : 2 * (num % den) < den
  · exact Or.inl (if_pos hlow)
  simp only [if_neg hlow]
  by_cases hhigh : den < 2 * (num % den)
  · exact Or.inr ⟨if_pos hhigh, by omega⟩
  rw [if_neg hhigh]
  by_cases hzero : den = 0
  · subst hzero
    exact Or.inl (by simp)
  · rcases Nat.mod_two_eq_zero_or_one (num / den) with heven | hodd
    · exact Or.inl (by omega)
    · exact Or.inr ⟨by omega, by omega⟩

/-- Rounding does not exceed a whole number that is not exceeded. -/
theorem roundHalfEven_le (h : num ≤ bound * den) : roundHalfEven num den ≤ bound := by
  have hdiv := Nat.div_add_mod num den
  have hquotient : num / den ≤ bound := Nat.div_le_of_le_mul (Nat.mul_comm bound den ▸ h)
  rcases roundHalfEven_cases num den with heq | ⟨heq, hrest⟩
  · rw [heq]
    exact hquotient
  · -- with a rest, the bound is not reached by the quotient
    rw [heq]
    refine Nat.lt_of_le_of_ne hquotient ?_
    rintro rfl
    rw [Nat.mul_comm] at h
    omega

/-- Rounding does not fall below a whole number that is reached. -/
theorem le_roundHalfEven (hden : 0 < den) (h : bound * den ≤ num) : bound ≤ roundHalfEven num den := by
  have hquotient : bound ≤ num / den := (Nat.le_div_iff_mul_le hden).2 h
  rcases roundHalfEven_cases num den with heq | ⟨heq, -⟩
  · rw [heq]
    exact hquotient
  · rw [heq]
    exact Nat.le_succ_of_le hquotient

end

/-! ## The grid -/

/-- The magnitudes that a double can have, if it can be that large. -/
def OnGrid (m : Nat) : Prop := ∃ significand shift, significand < 2 ^ 53 ∧ m = significand * 2 ^ shift

/-- The shift that leaves 53 bits of a magnitude. -/
def shiftOf (m : Nat) : Nat := if m < 2 ^ 53 then 0 else m.log2 - 52

/-- The magnitude of 53 bits that is nearest. -/
def nearest (m : Nat) : Nat := roundHalfEven m (2 ^ shiftOf m) * 2 ^ shiftOf m

/-- A number of at most 53 bits is on the grid, and so are its doubles. -/
theorem onGrid_mul_pow {k : Nat} (h : k ≤ 2 ^ 53) (shift : Nat) : OnGrid (k * 2 ^ shift) := by
  rcases Nat.lt_or_eq_of_le h with hlt | rfl
  · exact ⟨k, shift, hlt, rfl⟩
  · refine ⟨1, 53 + shift, by decide, ?_⟩
    rw [Nat.pow_add, Nat.one_mul]

theorem onGrid_magnitude (x : Finite) : OnGrid x.magnitude :=
  ⟨x.significand, x.shift, x.canonical.1, rfl⟩

/-- A magnitude of more than 53 bits lies between two powers of two. -/
theorem shiftOf_bounds {m : Nat} (h : ¬m < 2 ^ 53) :
    2 ^ 52 * 2 ^ shiftOf m ≤ m ∧ m < 2 ^ 53 * 2 ^ shiftOf m := by
  have hne : m ≠ 0 := by
    rintro rfl
    exact h (by decide)
  have hlog : 53 ≤ m.log2 := (Nat.le_log2 hne).2 (Nat.le_of_not_lt h)
  unfold shiftOf
  rw [if_neg h, ← Nat.pow_add, ← Nat.pow_add]
  refine ⟨?_, ?_⟩
  · rw [show 52 + (m.log2 - 52) = m.log2 by omega]
    exact Nat.log2_self_le hne
  · rw [show 53 + (m.log2 - 52) = m.log2 + 1 by omega]
    exact Nat.lt_log2_self

/-- A number of at most 53 bits is its own nearest one. -/
theorem nearest_of_lt {m : Nat} (h : m < 2 ^ 53) : nearest m = m := by
  have hshift : shiftOf m = 0 := if_pos h
  unfold nearest
  rw [hshift, Nat.pow_zero, Nat.mul_one]
  refine Nat.le_antisymm (roundHalfEven_le ?_) (le_roundHalfEven Nat.one_pos ?_)
  · rw [Nat.mul_one]
  · rw [Nat.mul_one]

/-- A magnitude on the grid that is large enough is a multiple of the steps there. -/
theorem dvd_of_onGrid {g shift : Nat} (hg : OnGrid g) (hlarge : 2 ^ 52 * 2 ^ shift ≤ g) :
    2 ^ shift ∣ g := by
  obtain ⟨significand, own, hsignificand, rfl⟩ := hg
  have hshift : shift ≤ own := by
    refine Nat.le_of_not_lt ?_
    intro hlt
    have hpow : 2 ^ (own + 1) ≤ 2 ^ shift := Nat.pow_le_pow_right (by decide) hlt
    have hless : significand * 2 ^ own < 2 ^ 53 * 2 ^ own :=
      Nat.mul_lt_mul_of_pos_right hsignificand (Nat.two_pow_pos own)
    rw [Nat.pow_succ] at hpow
    omega
  exact Nat.dvd_mul_left_of_dvd (Nat.pow_dvd_pow 2 hshift) significand

/-- **ROUNDING UP STOPS AT THE GRID.** -/
theorem nearest_le {m g : Nat} (hg : OnGrid g) (h : m ≤ g) : nearest m ≤ g := by
  by_cases hsmall : m < 2 ^ 53
  · rw [nearest_of_lt hsmall]
    exact h
  obtain ⟨hlow, hhigh⟩ := shiftOf_bounds hsmall
  have hpos := Nat.two_pow_pos (shiftOf m)
  unfold nearest
  -- a magnitude of the grid is above all of 53 bits there, or a multiple of the steps
  by_cases hfar : 2 ^ 53 * 2 ^ shiftOf m ≤ g
  · exact Nat.le_trans (Nat.mul_le_mul_right _ (roundHalfEven_le (Nat.le_of_lt hhigh))) hfar
  · obtain ⟨q, rfl⟩ := dvd_of_onGrid hg (Nat.le_trans hlow h)
    rw [Nat.mul_comm (2 ^ shiftOf m) q] at h ⊢
    exact Nat.mul_le_mul_right _ (roundHalfEven_le h)

/-- **ROUNDING DOWN STOPS AT THE GRID.** -/
theorem le_nearest {m g : Nat} (hg : OnGrid g) (h : g ≤ m) : g ≤ nearest m := by
  by_cases hsmall : m < 2 ^ 53
  · rw [nearest_of_lt hsmall]
    exact h
  obtain ⟨hlow, -⟩ := shiftOf_bounds hsmall
  have hpos := Nat.two_pow_pos (shiftOf m)
  unfold nearest
  by_cases hnear : 2 ^ 52 * 2 ^ shiftOf m ≤ g
  · obtain ⟨q, rfl⟩ := dvd_of_onGrid hg hnear
    rw [Nat.mul_comm (2 ^ shiftOf m) q] at h ⊢
    exact Nat.mul_le_mul_right _ (le_roundHalfEven hpos h)
  · exact Nat.le_trans (Nat.le_of_not_le hnear) (Nat.mul_le_mul_right _ (le_roundHalfEven hpos hlow))

/-- The nearest number is on the grid. -/
theorem onGrid_nearest (m : Nat) : OnGrid (nearest m) := by
  by_cases hsmall : m < 2 ^ 53
  · rw [nearest_of_lt hsmall]
    exact ⟨m, 0, hsmall, (Nat.mul_one m).symm⟩
  · exact onGrid_mul_pow (roundHalfEven_le (Nat.le_of_lt (shiftOf_bounds hsmall).2)) _

/-- What lies on the grid stays where it is. -/
theorem nearest_of_onGrid {m : Nat} (h : OnGrid m) : nearest m = m :=
  Nat.le_antisymm (nearest_le h (Nat.le_refl m)) (le_nearest h (Nat.le_refl m))

/-- Multiples of a power of two stay multiples of it. -/
theorem pow_dvd_nearest {m shift : Nat} (h : 2 ^ shift ∣ m) : 2 ^ shift ∣ nearest m := by
  by_cases hsmall : m < 2 ^ 53
  · rw [nearest_of_lt hsmall]
    exact h
  by_cases hshift : shift ≤ shiftOf m
  · exact Nat.dvd_mul_left_of_dvd (Nat.pow_dvd_pow 2 hshift) _
  · -- the steps of the grid divide the magnitude, so it lies there
    obtain ⟨-, hhigh⟩ := shiftOf_bounds hsmall
    have hdvd := Nat.dvd_trans (Nat.pow_dvd_pow 2 (Nat.le_of_not_le hshift)) h
    generalize shiftOf m = own at hdvd hhigh
    have hgrid : OnGrid m := by
      obtain ⟨q, rfl⟩ := hdvd
      rw [Nat.mul_comm] at hhigh ⊢
      exact ⟨q, own, Nat.lt_of_mul_lt_mul_right hhigh, rfl⟩
    rw [nearest_of_onGrid hgrid]
    exact h

/-! ## Doubles -/

/-- The largest shift of a double. -/
def lastShift : Nat := 2045

/-- The least shift that no double has. -/
def topShift : Nat := 2046

/-- The first magnitude on the grid that no double has. -/
def beyond : Nat := 2 ^ 52 * 2 ^ topShift

/-- A double of a significand and a shift, if they are those of one. -/
def ofParts (negative : Bool) (significand shift : Nat) : Binary64 :=
  if h : Canonical significand shift then .finite ⟨negative, significand, shift, h⟩
  else .infinite negative

/-- Parts are put together to a double, or to infinity if it is too large. -/
theorem ofParts_cases (negative : Bool) {significand shift : Nat} (hsignificand : significand < 2 ^ 53)
    (hnormal : 2 ^ 52 ≤ significand ∨ shift = 0) :
    (∃ x : Finite, ofParts negative significand shift = .finite x ∧ x.negative = negative
        ∧ x.magnitude = significand * 2 ^ shift)
      ∨ ofParts negative significand shift = .infinite negative
        ∧ beyond ≤ significand * 2 ^ shift := by
  unfold ofParts
  by_cases hshift : shift ≤ 2045
  · refine Or.inl ⟨⟨negative, significand, shift, hsignificand, hnormal, hshift⟩, ?_, rfl, rfl⟩
    exact dif_pos _
  · refine Or.inr ⟨dif_neg fun h => hshift h.2.2, ?_⟩
    have hlarge : 2 ^ 52 ≤ significand := hnormal.resolve_right (by omega)
    have htop : topShift ≤ shift := by
      unfold topShift
      omega
    exact Nat.mul_le_mul hlarge (Nat.pow_le_pow_right (by decide) htop)

/-- Rounding may carry over into one more bit, which moves the last place. -/
theorem ofScaled_eq (negative : Bool) (m : Nat) :
    ofScaled negative m 1
      = if roundHalfEven m (2 ^ shiftOf m) = 2 ^ 53 then ofParts negative (2 ^ 52) (shiftOf m + 1)
        else ofParts negative (roundHalfEven m (2 ^ shiftOf m)) (shiftOf m) := by
  have hshift : (if m < Nat.pow 2 53 then 0 else m.log2 - 52) = shiftOf m := rfl
  simp only [ofScaled, Nat.div_one, Nat.one_mul, hshift]
  by_cases hfull : roundHalfEven m (2 ^ shiftOf m) = 2 ^ 53
  · rw [if_pos hfull]
    simp only [Nat.pow_eq, hfull]
    rfl
  · rw [if_neg hfull]
    simp only [Nat.pow_eq, if_neg hfull]
    rfl

/-- **A MAGNITUDE BECOMES THE NEAREST ON THE GRID**, or an infinity if that is beyond
    the largest double. -/
theorem ofScaled_one (negative : Bool) (m : Nat) :
    (∃ x : Finite, ofScaled negative m 1 = .finite x ∧ x.negative = negative
        ∧ x.magnitude = nearest m)
      ∨ ofScaled negative m 1 = .infinite negative ∧ beyond ≤ nearest m := by
  rw [ofScaled_eq]
  by_cases hsmall : m < 2 ^ 53
  · have hshift : shiftOf m = 0 := if_pos hsmall
    have hrounded : roundHalfEven m (2 ^ shiftOf m) = m := by
      have hnearest := nearest_of_lt hsmall
      unfold nearest at hnearest
      rwa [hshift, Nat.pow_zero, Nat.mul_one, ← Nat.pow_zero 2, ← hshift] at hnearest
    rw [nearest_of_lt hsmall, hrounded, hshift, if_neg (Nat.ne_of_lt hsmall)]
    have hparts := ofParts_cases negative hsmall (Or.inr rfl : 2 ^ 52 ≤ m ∨ 0 = 0)
    rwa [Nat.pow_zero, Nat.mul_one] at hparts
  · obtain ⟨hlow, hhigh⟩ := shiftOf_bounds hsmall
    have hfloor := le_roundHalfEven (Nat.two_pow_pos (shiftOf m)) hlow
    have hceil := roundHalfEven_le (Nat.le_of_lt hhigh)
    unfold nearest
    by_cases hfull : roundHalfEven m (2 ^ shiftOf m) = 2 ^ 53
    · -- all bits were carried over: half the significand, one more shift
      rw [if_pos hfull, hfull, show 2 ^ 53 * 2 ^ shiftOf m = 2 ^ 52 * 2 ^ (shiftOf m + 1) by ring]
      exact ofParts_cases negative (by decide) (Or.inl (Nat.le_refl _))
    · rw [if_neg hfull]
      exact ofParts_cases negative (Nat.lt_of_le_of_ne hceil hfull) (Or.inl hfloor)

/-- The largest magnitude of a double. -/
def largest : Nat := (2 ^ 53 - 1) * 2 ^ lastShift

theorem largest_lt_beyond : largest < beyond := by decide +kernel

/-- No double exceeds the largest one. -/
theorem magnitude_le (x : Finite) : x.magnitude ≤ largest := by
  obtain ⟨hsignificand, -, hshift⟩ := x.canonical
  have hlast : x.shift ≤ lastShift := hshift
  unfold largest
  generalize lastShift = last at hlast
  exact Nat.mul_le_mul (Nat.le_sub_one_of_lt hsignificand) (Nat.pow_le_pow_right (by decide) hlast)

theorem magnitude_lt (x : Finite) : x.magnitude < beyond :=
  Nat.lt_of_le_of_lt (magnitude_le x) largest_lt_beyond

/-! ## Where doubles stand

    A double that is not negative STANDS at its magnitude; the infinite one stands at
    every magnitude beyond the doubles.  The order of the doubles is that of where they
    stand, as long as one of them is finite. -/

/-- The double stands at the magnitude. -/
def Stands (m : Nat) : Binary64 → Prop
  | .finite x => x.scaled = (m : Int)
  | .infinite false => beyond ≤ m
  | _ => False

section

variable {m k : Nat} {a b : Binary64}

theorem scaled_of_positive {x : Finite} (h : x.negative = false) : x.scaled = (x.magnitude : Int) := by
  unfold Finite.scaled
  rw [h]
  exact if_neg Bool.false_ne_true

theorem scaled_of_negative {x : Finite} (h : x.negative = true) : x.scaled = -(x.magnitude : Int) := by
  unfold Finite.scaled
  rw [h]
  exact if_pos rfl

theorem scaled_nonneg {x : Finite} (h : lt (.finite x) zero = false) : 0 ≤ x.scaled := by
  simp only [lt, zero, decide_eq_false_iff_not] at h
  exact Int.not_lt.1 h

/-- A double that is not negative stands for its magnitude. -/
theorem stands_finite {x : Finite} (h : 0 ≤ x.scaled) : Stands x.magnitude (.finite x) := by
  cases hn : x.negative with
  | false => exact scaled_of_positive hn
  | true =>
      have hscaled := scaled_of_negative hn
      show x.scaled = _
      omega

/-- Rounding stands for the nearest magnitude. -/
theorem stands_ofScaled (m : Nat) : Stands (nearest m) (ofScaled false m 1) := by
  rcases ofScaled_one false m with ⟨x, heq, hn, hmagnitude⟩ | ⟨heq, hlarge⟩
  · rw [heq, ← hmagnitude]
    exact scaled_of_positive hn
  · rw [heq]
    exact hlarge

/-- A natural number is rounded to what stands for the nearest magnitude. -/
theorem stands_ofNat (n : Nat) : Stands (nearest (n * unit)) (ofNat n) := stands_ofScaled (n * unit)

theorem ofSteps_natCast (m : Nat) : ofSteps (m : Int) = ofScaled false m 1 := rfl

/-- Sums of steps that are not negative are rounded where they stand. -/
theorem stands_ofSteps {steps : Int} (h : steps = (m : Int)) : Stands (nearest m) (ofSteps steps) := by
  rw [h, ofSteps_natCast]
  exact stands_ofScaled m

/-- What a finite double stands for is below infinity. -/
theorem lt_beyond_of_stands {x : Finite} (h : Stands m (.finite x)) : m < beyond := by
  have hmagnitude := magnitude_lt x
  have hscaled : x.scaled = (m : Int) := h
  cases hn : x.negative with
  | false =>
      rw [scaled_of_positive hn] at hscaled
      omega
  | true =>
      rw [scaled_of_negative hn] at hscaled
      omega

/-- **DOUBLES COMPARE AS WHAT THEY STAND FOR**: one that stands for no more does not exceed the
    other. -/
theorem le_of_stands (ha : Stands m a) (hb : Stands k b) (h : m ≤ k) : le a b = true := by
  cases a with
  | nan => exact nomatch ha
  | infinite negative =>
      cases negative with
      | true => exact nomatch ha
      | false =>
          cases b with
          | nan => exact nomatch hb
          | infinite other =>
              cases other with
              | true => exact nomatch hb
              | false => rfl
          | finite y => exact absurd (Nat.le_trans ha h) (Nat.not_le_of_lt (lt_beyond_of_stands hb))
  | finite x =>
      cases b with
      | nan => exact nomatch hb
      | infinite other =>
          cases other with
          | true => exact nomatch hb
          | false => rfl
      | finite y =>
          have hx : x.scaled = (m : Int) := ha
          have hy : y.scaled = (k : Int) := hb
          simp only [le, lt, eq, Bool.or_eq_true, decide_eq_true_eq]
          omega

/-- One that stands for less is below the other, unless both are infinite. -/
theorem lt_of_stands (ha : Stands m a) (hb : Stands k b) (h : m < k) (hm : m < beyond) : lt a b = true := by
  cases a with
  | nan => exact nomatch ha
  | infinite negative =>
      cases negative with
      | true => exact nomatch ha
      | false => exact absurd ha (Nat.not_le_of_lt hm)
  | finite x =>
      cases b with
      | nan => exact nomatch hb
      | infinite other =>
          cases other with
          | true => exact nomatch hb
          | false => rfl
      | finite y =>
          have hx : x.scaled = (m : Int) := ha
          have hy : y.scaled = (k : Int) := hb
          simp only [lt, decide_eq_true_eq]
          omega

/-- One that is below the other stands for less. -/
theorem stands_lt_of_lt (ha : Stands m a) (hb : Stands k b) (h : lt a b = true) : m < k := by
  refine Nat.lt_of_not_le ?_
  intro hle
  have hnot := lt_eq_false_of_le (le_of_stands hb ha hle)
  rw [h] at hnot
  exact nomatch hnot

/-- One that does not exceed the other stands for no more, if the other is finite. -/
theorem stands_le_of_le (ha : Stands m a) (hb : Stands k b) (hk : k < beyond) (h : le a b = true) :
    m ≤ k := by
  refine Nat.le_of_not_lt ?_
  intro hlt
  have hnot := lt_eq_false_of_le h
  rw [lt_of_stands hb ha hlt hk] at hnot
  exact nomatch hnot

/-- Keeping a bound from falling below zero does not change what it stands for. -/
theorem stands_atLeastZero (h : Stands m a) : Stands m a.atLeastZero := by
  cases a with
  | nan => exact nomatch h
  | infinite negative =>
      cases negative with
      | true => exact nomatch h
      | false => exact h
  | finite x =>
      have hx : x.scaled = (m : Int) := h
      show Stands m (if x.scaled ≤ 0 then zero else .finite x)
      by_cases hzero : x.scaled ≤ 0
      · rw [if_pos hzero]
        have hm : m = 0 := by omega
        rw [hm]
        rfl
      · rw [if_neg hzero]
        exact h

end

/-! ## Counts -/

/-- The shift of one. -/
def unitShift : Nat := 1074

theorem unit_eq : unit = 2 ^ unitShift := by
  unfold unit unitShift
  generalize 1074 = shift
  exact Nat.pow_eq

theorem unit_pos : 0 < unit := unit_eq ▸ Nat.two_pow_pos _

/-- A number that may bound a count stands at a whole magnitude. -/
theorem exists_stands {bound : Binary64} (hwhole : bound.isIntegral = true)
    (hsign : lt bound zero = false) :
    ∃ whole, OnGrid (whole * unit) ∧ whole * unit < beyond ∧ Stands (whole * unit) bound
      ∧ Stands (nearest ((whole + 1) * unit)) bound.increment
      ∧ (0 < whole → Stands (nearest ((whole - 1) * unit)) bound.decrement.atLeastZero) := by
  -- only finite bounds are whole
  cases bound with
  | nan => exact nomatch hwhole
  | infinite negative => exact nomatch hwhole
  | finite x =>
      have hstands := stands_finite (scaled_nonneg hsign)
      have hgrid := onGrid_magnitude x
      have hsmall := magnitude_lt x
      have hdvd : unit ∣ x.magnitude := Nat.dvd_of_mod_eq_zero (eq_of_beq hwhole)
      obtain ⟨whole, hmul⟩ := hdvd
      rw [Nat.mul_comm] at hmul
      rw [hmul] at hstands hgrid hsmall
      have hscaled : x.scaled = ((whole * unit : Nat) : Int) := hstands
      refine ⟨whole, hgrid, hsmall, hstands, ?_, ?_⟩
      · refine stands_ofSteps ?_
        rw [hscaled, Nat.add_mul, Nat.one_mul]
        rfl
      · intro hpos
        refine stands_atLeastZero (stands_ofSteps ?_)
        obtain ⟨less, rfl⟩ := Nat.exists_eq_succ_of_ne_zero (Nat.ne_of_gt hpos)
        rw [hscaled, Nat.succ_sub_one, Nat.succ_mul]
        omega

/-- A whole number is rounded to a whole number. -/
theorem exists_nearest_whole (n : Nat) : ∃ whole, nearest (n * unit) = whole * unit := by
  have hdvd : unit ∣ nearest (n * unit) := by
    rw [unit_eq]
    exact pow_dvd_nearest (Nat.dvd_mul_left _ n)
  obtain ⟨whole, hwhole⟩ := hdvd
  exact ⟨whole, hwhole.trans (Nat.mul_comm unit whole)⟩

theorem onGrid_whole {n : Nat} (h : n ≤ 2 ^ 53) : OnGrid (n * unit) := by
  rw [unit_eq]
  exact onGrid_mul_pow h unitShift

/-- Whole numbers of 53 bits are doubles. -/
theorem nearest_whole {n : Nat} (h : n ≤ 2 ^ 53) : nearest (n * unit) = n * unit :=
  nearest_of_onGrid (onGrid_whole h)

/-- Whole numbers up to `2 ^ 53` are below infinity. -/
theorem whole_lt_beyond {n : Nat} (h : n ≤ 2 ^ 53) : n * unit < beyond := by
  have hle : n * unit ≤ 2 ^ 53 * unit := Nat.mul_le_mul_right _ h
  refine Nat.lt_of_le_of_lt hle ?_
  have hshift : unitShift + 1 < topShift := by decide
  unfold beyond
  rw [unit_eq]
  generalize topShift = top at hshift
  generalize unitShift = shift at hshift
  calc 2 ^ 53 * 2 ^ shift = 2 ^ 52 * 2 ^ (shift + 1) := by ring
    _ < 2 ^ 52 * 2 ^ top :=
        Nat.mul_lt_mul_of_pos_left (Nat.pow_lt_pow_right (by decide) hshift) (by decide)

/-- Whole numbers up to `2 ^ 53` are finite doubles. -/
theorem ofNat_finite {n : Nat} (h : n ≤ 2 ^ 53) : ∃ x : Finite, ofNat n = .finite x := by
  rcases ofScaled_one false (n * unit) with ⟨x, hx, -⟩ | ⟨-, hlarge⟩
  · exact ⟨x, hx⟩
  · rw [nearest_whole h] at hlarge
    exact absurd hlarge (Nat.not_le_of_lt (whole_lt_beyond h))

section

variable {bound : Binary64} {n : Nat}

/-- **A COUNT ABOVE A BOUND REACHES THE NEXT ONE**, whatever is lost in rounding. -/
theorem increment_le_ofNat (hwhole : bound.isIntegral = true) (hsign : lt bound zero = false)
    (h : lt bound (ofNat n) = true) : le bound.increment (ofNat n) = true := by
  obtain ⟨own, -, -, hbound, hnext, -⟩ := exists_stands hwhole hsign
  obtain ⟨count, hcount⟩ := exists_nearest_whole n
  have hlt := stands_lt_of_lt hbound (stands_ofNat n) h
  refine le_of_stands hnext (stands_ofNat n) (nearest_le (onGrid_nearest _) ?_)
  rw [hcount] at hlt ⊢
  exact Nat.mul_le_mul_right _ (Nat.lt_of_mul_lt_mul_right hlt)

/-- **A COUNT BELOW A BOUND STAYS AT THE ONE BEFORE**, whatever is lost in rounding. -/
theorem ofNat_le_decrement (hwhole : bound.isIntegral = true) (hsign : lt bound zero = false)
    (h : lt (ofNat n) bound = true) : le (ofNat n) bound.decrement.atLeastZero = true := by
  obtain ⟨own, -, -, hbound, -, hbefore⟩ := exists_stands hwhole hsign
  obtain ⟨count, hcount⟩ := exists_nearest_whole n
  have hlt := stands_lt_of_lt (stands_ofNat n) hbound h
  rw [hcount] at hlt
  have hless : count < own := Nat.lt_of_mul_lt_mul_right hlt
  refine le_of_stands (stands_ofNat n) (hbefore (Nat.zero_lt_of_lt hless)) ?_
  refine le_nearest (onGrid_nearest _) ?_
  rw [hcount]
  exact Nat.mul_le_mul_right _ (Nat.le_sub_one_of_lt hless)

/-- A count of 53 bits that reaches the next bound is above the bound. -/
theorem lt_ofNat_of_increment (hwhole : bound.isIntegral = true) (hsign : lt bound zero = false)
    (hn : n < 2 ^ 53) (h : le bound.increment (ofNat n) = true) : lt bound (ofNat n) = true := by
  obtain ⟨own, -, hsmall, hbound, hnext, -⟩ := exists_stands hwhole hsign
  have hcount := stands_ofNat n
  rw [nearest_whole (Nat.le_of_lt hn)] at hcount
  refine lt_of_stands hbound hcount (Nat.mul_lt_mul_of_pos_right ?_ unit_pos) hsmall
  refine Nat.lt_of_not_le ?_
  intro hle
  -- otherwise the next bound is at least the next count, which is a double
  have hnearest := stands_le_of_le hnext hcount (whole_lt_beyond (Nat.le_of_lt hn)) h
  have hreach : (n + 1) * unit ≤ nearest ((own + 1) * unit) :=
    le_nearest (onGrid_whole hn) (Nat.mul_le_mul_right _ (Nat.succ_le_succ hle))
  have hcontra := Nat.lt_of_lt_of_le
    (Nat.mul_lt_mul_of_pos_right (Nat.lt_succ_self n) unit_pos) (Nat.le_trans hreach hnearest)
  exact Nat.lt_irrefl _ hcontra

/-- A count of 53 bits that stays at the one before a bound is below the bound. -/
theorem ofNat_lt_of_decrement (hwhole : bound.isIntegral = true) (hpos : lt zero bound = true)
    (hn : n < 2 ^ 53) (h : le (ofNat n) bound.decrement.atLeastZero = true) :
    lt (ofNat n) bound = true := by
  have hsign : lt bound zero = false := lt_eq_false_of_le (by unfold le; rw [hpos]; rfl)
  obtain ⟨own, hgrid, hsmall, hbound, -, hbefore⟩ := exists_stands hwhole hsign
  have hzero : Stands (0 * unit) zero := by
    rw [Nat.zero_mul]
    rfl
  have hown : 0 < own := Nat.lt_of_mul_lt_mul_right (stands_lt_of_lt hzero hbound hpos)
  have hcount := stands_ofNat n
  rw [nearest_whole (Nat.le_of_lt hn)] at hcount
  refine lt_of_stands hcount hbound (Nat.mul_lt_mul_of_pos_right ?_ unit_pos)
    (whole_lt_beyond (Nat.le_of_lt hn))
  refine Nat.lt_of_not_le ?_
  intro hle
  have hfinite : nearest ((own - 1) * unit) < beyond :=
    Nat.lt_of_le_of_lt (nearest_le hgrid (Nat.mul_le_mul_right _ (Nat.sub_le own 1))) hsmall
  have hnearest := stands_le_of_le hcount (hbefore hown) hfinite h
  -- the one before the bound is before the count, which then is no double between them
  have hless : own - 1 ≤ n - 1 := Nat.sub_le_sub_right hle 1
  have hstay : nearest ((own - 1) * unit) ≤ (n - 1) * unit :=
    nearest_le (onGrid_whole (by omega)) (Nat.mul_le_mul_right _ hless)
  have hcontra := Nat.le_of_mul_le_mul_right (Nat.le_trans hnearest hstay) unit_pos
  omega

end

theorem onGrid_largest : OnGrid largest := ⟨2 ^ 53 - 1, lastShift, by decide, rfl⟩

/-- The largest double is a whole number. -/
theorem unit_dvd_largest : unit ∣ largest := by
  have hshift : unitShift ≤ lastShift := by decide
  unfold largest
  rw [unit_eq]
  generalize lastShift = last at hshift
  exact Nat.dvd_mul_left_of_dvd (Nat.pow_dvd_pow 2 hshift) _

/-- Raising a bound of a count by one does not lead beyond the doubles. -/
theorem exists_increment {bound : Binary64} (hwhole : bound.isIntegral = true)
    (hsign : lt bound zero = false) : ∃ y : Finite, bound.increment = .finite y := by
  cases bound with
  | nan => exact nomatch hwhole
  | infinite negative => exact nomatch hwhole
  | finite x =>
      have hsteps : increment (.finite x) = ofScaled false (x.magnitude + unit) 1 := by
        have hscaled : x.scaled = (x.magnitude : Int) := stands_finite (scaled_nonneg hsign)
        rw [increment, hscaled, ← Int.natCast_add, ofSteps_natCast]
      have hless : nearest (x.magnitude + unit) < beyond := by
        by_cases hlast : x.magnitude = largest
        · rw [hlast]
          decide +kernel
        · -- the next whole number is at most the largest double
          obtain ⟨count, hcount⟩ : unit ∣ x.magnitude := Nat.dvd_of_mod_eq_zero (eq_of_beq hwhole)
          obtain ⟨last, hlargest⟩ := unit_dvd_largest
          have hlt := Nat.lt_of_le_of_ne (magnitude_le x) hlast
          have hnext : x.magnitude + unit ≤ largest := by
            rw [hcount, hlargest] at hlt ⊢
            generalize unit = one at hlt
            exact Nat.mul_le_mul_left one (Nat.lt_of_mul_lt_mul_left hlt)
          exact Nat.lt_of_le_of_lt (nearest_le onGrid_largest hnext) largest_lt_beyond
      rcases ofScaled_one false (x.magnitude + unit) with ⟨y, hy, -⟩ | ⟨-, hlarge⟩
      · exact ⟨y, hsteps.trans hy⟩
      · exact absurd hlarge (Nat.not_le_of_lt hless)

/-! ## Integers -/

/-- An integer becomes a double of its sign. -/
theorem exists_ofInt {n : Int} {g : Nat} (hg : OnGrid g) (hle : n.natAbs * unit ≤ g)
    (hbound : g < beyond) :
    ∃ x : Finite, ofInt n = .finite x ∧ x.negative = decide (n < 0)
      ∧ x.magnitude = nearest (n.natAbs * unit) := by
  rcases ofScaled_one (decide (n < 0)) (n.natAbs * unit) with hfinite | ⟨-, hlarge⟩
  · exact hfinite
  · exact absurd (Nat.le_trans hlarge (nearest_le hg hle)) (Nat.not_le_of_lt hbound)

/-- Integers of 64 bits are finite as doubles. -/
theorem ofInt_finite {n : Int} (h : n.natAbs ≤ 2 ^ 64) : ∃ x : Finite, ofInt n = .finite x := by
  have hgrid : OnGrid (2 ^ 64 * unit) := by
    rw [unit_eq, show 2 ^ 64 * 2 ^ unitShift = 1 * 2 ^ (64 + unitShift) by ring]
    exact onGrid_mul_pow (by decide) _
  have hbound : 2 ^ 64 * unit < beyond := by
    have hshift : 12 + unitShift < topShift := by decide
    unfold beyond
    rw [unit_eq]
    generalize topShift = top at hshift
    generalize unitShift = shift at hshift
    calc 2 ^ 64 * 2 ^ shift = 2 ^ 52 * 2 ^ (12 + shift) := by ring
      _ < 2 ^ 52 * 2 ^ top :=
          Nat.mul_lt_mul_of_pos_left (Nat.pow_lt_pow_right (by decide) hshift) (by decide)
  obtain ⟨x, hx, -⟩ := exists_ofInt hgrid (Nat.mul_le_mul_right unit h) hbound
  exact ⟨x, hx⟩

/-- Every number of 64 bits has a finite double. -/
theorem ofNat_finite_of_unsigned {n : Nat} (h : n ≤ mostUnsigned64) :
    ∃ x : Finite, ofNat n = .finite x := by
  have hbits : (n : Int).natAbs ≤ 2 ^ 64 := Nat.le_succ_of_le h
  obtain ⟨x, hx⟩ := ofInt_finite hbits
  refine ⟨x, ?_⟩
  have hsign : decide ((n : Int) < 0) = false := decide_eq_false (Int.not_lt.2 (Int.natCast_nonneg n))
  rw [ofInt, hsign] at hx
  exact hx

/-- A whole double is the double of its integer. -/
theorem ofInt_truncated {x : Finite} (h : x.isIntegral = true) :
    ∃ y : Finite, ofInt x.truncated = .finite y ∧ y.scaled = x.scaled := by
  have hdvd : unit ∣ x.magnitude := Nat.dvd_of_mod_eq_zero (eq_of_beq h)
  have habs : x.truncated.natAbs * unit = x.magnitude := by
    have hnat : x.truncated.natAbs = x.magnitude / unit := by
      unfold Finite.truncated
      generalize x.magnitude / unit = quotient
      split <;> omega
    rw [hnat]
    exact Nat.div_mul_cancel hdvd
  have hgrid := onGrid_magnitude x
  obtain ⟨y, hy, hsign, hmagnitude⟩ :=
    exists_ofInt hgrid (Nat.le_of_eq habs) (magnitude_lt x)
  rw [habs, nearest_of_onGrid hgrid] at hmagnitude
  refine ⟨y, hy, ?_⟩
  unfold Finite.scaled
  rw [hsign, hmagnitude]
  unfold Finite.truncated
  -- the sign is that of the integer, unless it is zero, where both are zero
  cases hn : x.negative with
  | false =>
      rw [if_neg Bool.false_ne_true, if_neg Bool.false_ne_true, if_neg]
      rw [decide_eq_true_eq]
      exact Int.not_lt.2 (Int.natCast_nonneg _)
  | true =>
      rw [if_pos rfl, if_pos rfl]
      by_cases hzero : x.magnitude = 0
      · rw [hzero]
        simp
      · have hpos : 0 < x.magnitude / unit :=
          Nat.div_pos (Nat.le_of_dvd (Nat.pos_of_ne_zero hzero) hdvd) unit_pos
        rw [if_pos]
        rw [decide_eq_true_eq]
        exact Int.neg_neg_of_pos (Int.natCast_pos.2 hpos)

/-- At the end of the range of 64 bits the integer before stands for the double. -/
theorem ofInt_clamp {n : Int} (hlow : leastSigned64 ≤ n) (hhigh : n ≤ mostSigned64 + 1) :
    ofInt (clamp leastSigned64 mostSigned64 n) = ofInt n := by
  unfold clamp
  rw [if_neg (Int.not_lt.2 hlow)]
  by_cases hend : mostSigned64 < n
  · rw [if_pos hend]
    obtain rfl : n = mostSigned64 + 1 := by omega
    decide +kernel
  · rw [if_neg hend]

end Conform.Binary64

namespace Conform.Json

open Conform.Binary64

/-- **A DOUBLE WRITTEN AS A NUMBER READS BACK AS WHAT IT IS**, in value. -/
theorem asBinary64?_ofNumber (x : Finite) :
    ∃ y : Finite, (ofNumber (.finite x)).asBinary64? = some (.finite y) ∧ y.scaled = x.scaled := by
  unfold ofNumber
  simp only [toSigned64?]
  by_cases hint : (x.isIntegral && decide (leastSigned64 ≤ x.truncated)
      && decide (x.truncated ≤ mostSigned64 + 1)) = true
  · rw [if_pos hint]
    rw [Bool.and_eq_true, Bool.and_eq_true, decide_eq_true_eq, decide_eq_true_eq] at hint
    obtain ⟨⟨hwhole, hlow⟩, hhigh⟩ := hint
    obtain ⟨y, hy, hscaled⟩ := ofInt_truncated hwhole
    refine ⟨y, ?_, hscaled⟩
    show some (ofInt (clamp leastSigned64 mostSigned64 x.truncated)) = _
    rw [ofInt_clamp hlow hhigh, hy]
  · rw [if_neg hint]
    exact ⟨x, rfl, rfl⟩

end Conform.Json
