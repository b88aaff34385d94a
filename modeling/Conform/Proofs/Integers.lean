import Mathlib.Tactic.SplitIfs
import Conform.Proofs.Limits
import Conform.Proofs.Rounding

/-! # Integers — their order as doubles

    Rounding never turns the order of two magnitudes around (`nearest_mono`): within one
    range of shifts it is a matter of quotients and rests, and between two ranges there is
    a magnitude of the grid.  So integers of 64 bits stand to each other as doubles as
    their roundings do (`lt_ofInt_iff`), and rounding keeps the order (`roundInt_mono`).

    Whole numbers of 53 bits are doubles themselves.  So only integers that are larger are
    rounded to the same one (`eq_of_roundInt_eq`), and a count of 53 bits stands to every
    natural number, however large, as to its double (`lt_ofNat_iff`, `ofNat_lt_iff`). -/

namespace Conform.Binary64

/-! ## Rounding keeps the order -/

/-- With the same quotient the larger rest is not rounded to less. -/
theorem roundHalfEven_mono {num more : Nat} (h : num ≤ more) (den : Nat) :
    roundHalfEven num den ≤ roundHalfEven more den := by
  rcases Nat.lt_or_ge (num / den) (more / den) with hless | hmore
  · have hup : roundHalfEven num den ≤ num / den + 1 := by
      rcases roundHalfEven_cases num den with heq | ⟨heq, -⟩ <;> omega
    have hdown : more / den ≤ roundHalfEven more den := by
      rcases roundHalfEven_cases more den with heq | ⟨heq, -⟩ <;> omega
    omega
  · have hquotient : num / den = more / den := Nat.le_antisymm (Nat.div_le_div_right h) hmore
    have hrest : num % den ≤ more % den := by
      have hnum := Nat.div_add_mod num den
      have hmore := Nat.div_add_mod more den
      rw [hquotient] at hnum
      omega
    unfold roundHalfEven
    rw [hquotient]
    dsimp only
    split_ifs <;> omega

/-- **ROUNDING KEEPS THE ORDER** of magnitudes. -/
theorem nearest_mono {m k : Nat} (h : m ≤ k) : nearest m ≤ nearest k := by
  by_cases hm : m < 2 ^ 53
  · rw [nearest_of_lt hm]
    exact le_nearest ⟨m, 0, hm, (Nat.mul_one m).symm⟩ h
  have hk : ¬k < 2 ^ 53 := fun hk => hm (Nat.lt_of_le_of_lt h hk)
  obtain ⟨-, hhigh⟩ := shiftOf_bounds hm
  obtain ⟨hlow, -⟩ := shiftOf_bounds hk
  by_cases hsame : shiftOf m = shiftOf k
  · unfold nearest
    rw [hsame]
    exact Nat.mul_le_mul_right _ (roundHalfEven_mono h _)
  · -- the end of the lower range is on the grid, and it is not above the upper range
    have hshift : shiftOf m < shiftOf k := by
      refine Nat.lt_of_le_of_ne (Nat.le_of_not_lt fun hlt => ?_) hsame
      have hpow : 2 ^ (shiftOf k + 1) ≤ 2 ^ shiftOf m := Nat.pow_le_pow_right (by decide) hlt
      have htop := (shiftOf_bounds hk).2
      have hbottom := (shiftOf_bounds hm).1
      rw [Nat.pow_succ] at hpow
      omega
    have hend : 2 ^ 53 * 2 ^ shiftOf m ≤ k := by
      have hpow : 2 ^ (shiftOf m + 1) ≤ 2 ^ shiftOf k := Nat.pow_le_pow_right (by decide) hshift
      rw [Nat.pow_succ] at hpow
      omega
    have hgrid : OnGrid (2 ^ 53 * 2 ^ shiftOf m) := onGrid_mul_pow (Nat.le_refl _) _
    exact Nat.le_trans (nearest_le hgrid (Nat.le_of_lt hhigh)) (le_nearest hgrid hend)

/-! ## Counts of 53 bits -/

section

variable {count n : Nat}

theorem stands_ofNat_of_lt (h : count < 2 ^ 53) : Stands (count * unit) (ofNat count) := by
  have hstands := stands_ofNat count
  rwa [nearest_whole (Nat.le_of_lt h)] at hstands

/-- A count is below a number as a double only if it is below it. -/
theorem lt_ofNat_iff (h : count < 2 ^ 53) : lt (ofNat count) (ofNat n) = true ↔ count < n := by
  constructor
  · intro hlt
    refine Nat.lt_of_not_le fun hle => ?_
    have hless := stands_lt_of_lt (stands_ofNat_of_lt h) (stands_ofNat n) hlt
    have hnearest := nearest_le (onGrid_whole (Nat.le_of_lt h)) (Nat.mul_le_mul_right unit hle)
    omega
  · intro hlt
    refine lt_of_stands (stands_ofNat_of_lt h) (stands_ofNat n) ?_ (whole_lt_beyond (Nat.le_of_lt h))
    refine Nat.lt_of_lt_of_le (Nat.mul_lt_mul_of_pos_right (Nat.lt_succ_self count) unit_pos) ?_
    exact le_nearest (onGrid_whole h) (Nat.mul_le_mul_right unit hlt)

/-- A number is below a count as a double only if it is below it. -/
theorem ofNat_lt_iff (h : count < 2 ^ 53) : lt (ofNat n) (ofNat count) = true ↔ n < count := by
  constructor
  · intro hlt
    refine Nat.lt_of_not_le fun hle => ?_
    have hless := stands_lt_of_lt (stands_ofNat n) (stands_ofNat_of_lt h) hlt
    have hnearest := le_nearest (onGrid_whole (Nat.le_of_lt h)) (Nat.mul_le_mul_right unit hle)
    omega
  · intro hlt
    have hn : n < 2 ^ 53 := Nat.lt_trans hlt h
    exact lt_of_stands (stands_ofNat_of_lt hn) (stands_ofNat_of_lt h)
      (Nat.mul_lt_mul_of_pos_right hlt unit_pos) (whole_lt_beyond (Nat.le_of_lt hn))

/-- A whole number is rounded to a whole number, or past all of them. -/
theorem isIntegral_of_whole {negative : Bool} {x : Finite}
    (h : ofScaled negative (n * unit) 1 = .finite x) : x.isIntegral = true := by
  rcases ofScaled_one negative (n * unit) with ⟨y, hy, -, hmagnitude⟩ | ⟨hy, -⟩
  · obtain rfl : x = y := Binary64.finite.inj (h.symm.trans hy)
    obtain ⟨whole, hwhole⟩ := exists_nearest_whole n
    rw [Finite.isIntegral, hmagnitude, hwhole, Nat.mul_mod_left]
    rfl
  · exact nomatch h.symm.trans hy

theorem isNan_ofNat (n : Nat) : (ofNat n).isNan = false := isNan_ofScaled false (n * unit) 1

/-- Two numbers are equal if neither is below the other. -/
theorem eq_eq_true_iff {a b : Binary64} (ha : a.isNan = false) (hb : b.isNan = false) :
    eq a b = true ↔ lt a b = false ∧ lt b a = false := by
  constructor
  · exact lt_eq_false_of_eq
  · rintro ⟨hab, hba⟩
    have hle := le_of_not_lt ha hb hba
    rw [le, hab, Bool.false_or] at hle
    exact hle

/-- A number is cut to 64 bits without a loss below `2 ^ 53`, and above it stays there. -/
theorem toUnsigned64_ofNat (n : Nat) :
    (ofNat n).toUnsigned64 = n ∨ 2 ^ 53 ≤ n ∧ 2 ^ 53 ≤ (ofNat n).toUnsigned64 := by
  have hmost : 2 ^ 53 ≤ mostUnsigned64 := by decide
  obtain ⟨whole, hwhole⟩ := exists_nearest_whole n
  rcases ofScaled_one false (n * unit) with ⟨x, hx, hsign, hmagnitude⟩ | ⟨hinfinite, hlarge⟩
  · have htruncated : x.truncated = (whole : Int) := by
      unfold Finite.truncated
      rw [hsign, if_neg Bool.false_ne_true, hmagnitude, hwhole, Nat.mul_div_cancel _ unit_pos]
    have hcut : (ofNat n).toUnsigned64 = (clamp 0 (mostUnsigned64 : Int) (whole : Int)).toNat := by
      rw [← htruncated]
      exact congrArg toUnsigned64 hx
    -- small numbers are exact, and rounding never takes a large one below 2^53
    rcases Nat.lt_or_ge n (2 ^ 53) with hless | hmore
    · rw [nearest_whole (Nat.le_of_lt hless)] at hwhole
      obtain rfl : n = whole := Nat.eq_of_mul_eq_mul_right unit_pos hwhole
      refine Or.inl ?_
      rw [hcut, clamp]
      split_ifs <;> omega
    · have hgrid := le_nearest (onGrid_whole (Nat.le_refl (2 ^ 53))) (Nat.mul_le_mul_right unit hmore)
      rw [hwhole] at hgrid
      have hreach : 2 ^ 53 ≤ whole := Nat.le_of_mul_le_mul_right hgrid unit_pos
      refine Or.inr ⟨hmore, ?_⟩
      rw [hcut, clamp]
      split_ifs <;> omega
  · refine Or.inr ⟨?_, ?_⟩
    · refine Nat.le_of_not_lt fun hless => ?_
      rw [nearest_whole (Nat.le_of_lt hless)] at hlarge
      exact Nat.not_lt_of_le hlarge (whole_lt_beyond (Nat.le_of_lt hless))
    · have hcut : (ofNat n).toUnsigned64 = mostUnsigned64 := congrArg toUnsigned64 hinfinite
      rw [hcut]
      exact hmost

end

/-! ## Integers of 64 bits -/

/-- The integer that the nearest double of an integer is. -/
def roundInt (n : Int) : Int :=
  if n < 0 then -((nearest (n.natAbs * unit) / unit : Nat) : Int)
  else ((nearest (n.natAbs * unit) / unit : Nat) : Int)

section

variable {a b : Int}

/-- Integers of 53 bits are doubles themselves. -/
theorem roundInt_of_natAbs_le (h : a.natAbs ≤ 2 ^ 53) : roundInt a = a := by
  unfold roundInt
  rw [nearest_whole h, Nat.mul_div_cancel _ unit_pos]
  split_ifs <;> omega

/-- An integer whose size reaches `2 ^ 53` is rounded to one whose size does. -/
theorem le_roundInt_natAbs (h : 2 ^ 53 ≤ a.natAbs) : 2 ^ 53 ≤ (roundInt a).natAbs := by
  have hgrid := le_nearest (onGrid_whole (Nat.le_refl (2 ^ 53))) (Nat.mul_le_mul_right unit h)
  have hreach := (Nat.le_div_iff_mul_le unit_pos).2 hgrid
  unfold roundInt
  split_ifs <;> omega

/-- **INTEGERS ARE ROUNDED IN ORDER.** -/
theorem roundInt_mono (h : a ≤ b) : roundInt a ≤ roundInt b := by
  have hdiv : ∀ {m k : Nat}, m ≤ k → nearest (m * unit) / unit ≤ nearest (k * unit) / unit :=
    fun hle => Nat.div_le_div_right (nearest_mono (Nat.mul_le_mul_right unit hle))
  unfold roundInt
  by_cases ha : a < 0
  · rw [if_pos ha]
    by_cases hb : b < 0
    · have hle := hdiv (show b.natAbs ≤ a.natAbs by omega)
      rw [if_pos hb]
      omega
    · rw [if_neg hb]
      generalize nearest (a.natAbs * unit) / unit = low
      generalize nearest (b.natAbs * unit) / unit = high
      omega
  · have hle := hdiv (show a.natAbs ≤ b.natAbs by omega)
    rw [if_neg ha, if_neg (by omega)]
    omega

/-- Different integers of one double are both beyond 53 bits. -/
theorem eq_of_roundInt_eq (h : roundInt a = roundInt b) :
    a = b ∨ 2 ^ 53 ≤ a.natAbs ∧ 2 ^ 53 ≤ b.natAbs := by
  rcases Nat.lt_or_ge a.natAbs (2 ^ 53) with ha | ha
  · rw [roundInt_of_natAbs_le (Nat.le_of_lt ha)] at h
    rcases Nat.lt_or_ge b.natAbs (2 ^ 53) with hb | hb
    · rw [roundInt_of_natAbs_le (Nat.le_of_lt hb)] at h
      exact Or.inl h
    · have hfar := le_roundInt_natAbs hb
      omega
  · rcases Nat.lt_or_ge b.natAbs (2 ^ 53) with hb | hb
    · rw [roundInt_of_natAbs_le (Nat.le_of_lt hb)] at h
      have hfar := le_roundInt_natAbs ha
      omega
    · exact Or.inr ⟨ha, hb⟩

/-- An integer of 64 bits is the double of its rounding. -/
theorem exists_ofInt_eq (h : a.natAbs ≤ 2 ^ 64) :
    ∃ x : Finite, ofInt a = .finite x ∧ x.scaled = roundInt a * unit := by
  obtain ⟨x, hx⟩ := ofInt_finite h
  rcases ofScaled_one (decide (a < 0)) (a.natAbs * unit) with ⟨y, hy, hsign, hmagnitude⟩ | ⟨hy, -⟩
  · obtain rfl : x = y := Binary64.finite.inj (hx.symm.trans hy)
    refine ⟨x, hx, ?_⟩
    have hscaled : ((x.magnitude : Nat) : Int) = ((x.magnitude / unit : Nat) : Int) * unit := by
      obtain ⟨whole, hwhole⟩ := exists_nearest_whole a.natAbs
      rw [hmagnitude, hwhole, Nat.mul_div_cancel _ unit_pos, Int.natCast_mul]
    unfold Finite.scaled roundInt
    rw [hsign, ← hmagnitude, hscaled]
    simp only [decide_eq_true_eq]
    split_ifs
    · rw [Int.neg_mul]
    · rfl
  · exact nomatch hx.symm.trans hy

theorem isIntegral_ofInt (h : a.natAbs ≤ 2 ^ 64) : (ofInt a).isIntegral = true := by
  obtain ⟨x, hx⟩ := ofInt_finite h
  rw [hx]
  exact isIntegral_of_whole hx

/-- Doubles of integers compare as the rounded integers do. -/
theorem lt_ofInt_iff (ha : a.natAbs ≤ 2 ^ 64) (hb : b.natAbs ≤ 2 ^ 64) :
    lt (ofInt a) (ofInt b) = true ↔ roundInt a < roundInt b := by
  obtain ⟨x, hx, hxa⟩ := exists_ofInt_eq ha
  obtain ⟨y, hy, hyb⟩ := exists_ofInt_eq hb
  rw [hx, hy, lt, decide_eq_true_eq, hxa, hyb]
  exact Int.mul_lt_mul_right (Int.natCast_pos.2 unit_pos)

end

end Conform.Binary64
