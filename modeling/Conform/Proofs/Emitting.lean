import Conform.Proofs.Comparing
import Conform.Proofs.Magnitudes

/-! # Emitting — which number a double is put out as

    The limits of errors, the choices of a list and the bounds of a schema are doubles, and
    each of them is put out as a JSON number.  A double that is a whole number of 64 bits
    is put out as this integer, and any other double as itself, so what is put out denotes
    the double exactly.

    One double is treated as a whole number of 64 bits and is none: `2 ^ 63`, next to the
    end of their range.  It is put out as the integer before it
    (`numbers_are_emitted_exactly`). -/

namespace Conform

open Binary64 (unit unit_pos leastSigned64 mostSigned64 clamp)

namespace Binary64.Finite

/-- The number that a double is. -/
def toRat (x : Finite) : ℚ := x.scaled / unit

variable {x : Finite} {n : Int}

/-- A double is an integer exactly if its steps are the steps of the integer. -/
theorem toRat_eq_iff : x.toRat = n ↔ x.scaled = n * unit := by
  have hunit : (unit : ℚ) ≠ 0 := Nat.cast_ne_zero.2 unit_pos.ne'
  unfold toRat
  rw [div_eq_iff hunit]
  generalize unit = one
  exact_mod_cast Iff.rfl

/-- A whole double is what is left of it without a fraction. -/
theorem toRat_truncated (h : x.isIntegral = true) : x.toRat = x.truncated := by
  have hwhole : x.magnitude / unit * unit = x.magnitude :=
    Nat.div_mul_cancel (Nat.dvd_of_mod_eq_zero (eq_of_beq h))
  rw [toRat_eq_iff]
  unfold truncated scaled
  rw [← hwhole]
  generalize x.magnitude / unit = whole
  rw [Nat.mul_div_cancel whole unit_pos]
  cases x.negative with
  | false => exact Int.natCast_mul whole unit
  | true =>
      rw [if_pos rfl, if_pos rfl, Int.natCast_mul]
      exact Int.neg_mul_eq_neg_mul _ _

/-- A double is whole exactly if it is an integer. -/
theorem isIntegral_of_toRat (h : x.toRat = n) : x.isIntegral = true := by
  have hsize : x.magnitude = n.natAbs * unit := by
    rw [← Binary64.natAbs_scaled, toRat_eq_iff.1 h, Int.natAbs_mul, Int.natAbs_natCast]
  rw [isIntegral, hsize, Nat.mul_mod_left]
  rfl

theorem truncated_of_toRat (h : x.toRat = n) : x.truncated = n :=
  Int.cast_injective ((toRat_truncated (isIntegral_of_toRat h)).symm.trans h)

end Binary64.Finite

namespace Json

/-- The number that a JSON number denotes. -/
def toRat? : Json → Option ℚ
  | .integer n => some n
  | .float x => some x.toRat
  | _ => none

variable {x : Binary64.Finite} {n : Int}

/-- The end of the range itself is put out as the integer before it. -/
theorem ofNumber_of_toRat (h : x.toRat = n) (hlow : -2 ^ 63 ≤ n) (hhigh : n ≤ 2 ^ 63) :
    ofNumber (.finite x) = .integer (min n (2 ^ 63 - 1)) := by
  have hends : leastSigned64 ≤ x.truncated ∧ x.truncated ≤ mostSigned64 + 1 := by
    rw [Binary64.Finite.truncated_of_toRat h]
    exact ⟨hlow, hhigh⟩
  have hclamp : clamp leastSigned64 mostSigned64 x.truncated = min n (2 ^ 63 - 1) := by
    rw [Binary64.Finite.truncated_of_toRat h, clamp,
      if_neg (show ¬n < leastSigned64 from Int.not_lt.2 hlow)]
    by_cases hend : mostSigned64 < n
    · rw [if_pos hend]
      exact (min_eq_right (Int.le_of_lt hend)).symm
    · rw [if_neg hend]
      exact (min_eq_left (Int.not_lt.1 hend)).symm
  unfold ofNumber
  simp only [Binary64.toSigned64?]
  rw [if_pos, hclamp]
  rw [Binary64.Finite.isIntegral_of_toRat h, decide_eq_true hends.1, decide_eq_true hends.2]
  rfl

/-- A double with a fraction, or beyond 64 bits, is put out as it is. -/
theorem ofNumber_of_toRat_ne (h : ∀ n : Int, x.toRat = n → ¬(-2 ^ 63 ≤ n ∧ n ≤ 2 ^ 63)) :
    ofNumber (.finite x) = .float x := by
  unfold ofNumber
  simp only [Binary64.toSigned64?]
  rw [if_neg]
  · rfl
  intro hends
  rw [Bool.and_eq_true, Bool.and_eq_true, decide_eq_true_eq, decide_eq_true_eq] at hends
  obtain ⟨⟨hwhole, hlow⟩, hhigh⟩ := hends
  exact h x.truncated (Binary64.Finite.toRat_truncated hwhole) ⟨hlow, hhigh⟩

end Json

/-- **NUMBERS ARE EMITTED EXACTLY**, save one.  What a double is put out as denotes the
    double unless this is `2 ^ 63`; it is an integer of 64 bits exactly if the double is
    that integer, or if the double is `2 ^ 63` and the integer the last of 64 bits; and it
    is the double itself in all other cases. -/
theorem numbers_are_emitted_exactly (x : Binary64.Finite) :
    ((Json.ofNumber (.finite x)).toRat? = some x.toRat ↔ x.toRat ≠ 2 ^ 63)
      ∧ (∀ n : Int, Json.ofNumber (.finite x) = .integer n
          ↔ IsSigned64 n ∧ (x.toRat = n ∨ x.toRat = 2 ^ 63 ∧ n = 2 ^ 63 - 1))
      ∧ (Json.ofNumber (.finite x) = .float x
          ↔ x.toRat ≠ 2 ^ 63 ∧ ∀ n : Int, IsSigned64 n → x.toRat ≠ n) := by
  by_cases hsmall : ∃ n : Int, x.toRat = n ∧ -2 ^ 63 ≤ n ∧ n ≤ 2 ^ 63
  · obtain ⟨n, hn, hlow, hhigh⟩ := hsmall
    rw [Json.ofNumber_of_toRat hn hlow hhigh, hn]
    have hend : ((n : ℚ) = 2 ^ 63) ↔ n = 2 ^ 63 := by exact_mod_cast Iff.rfl
    rw [ne_eq, hend]
    refine ⟨?_, fun m => ?_, ?_⟩
    · show some ((min n (2 ^ 63 - 1) : Int) : ℚ) = some (n : ℚ) ↔ _
      rw [Option.some.injEq, Int.cast_inj]
      omega
    · unfold IsSigned64
      rw [Json.integer.injEq, Int.cast_inj]
      omega
    · refine iff_of_false nofun ?_
      rintro ⟨hne, hall⟩
      exact hall n ⟨hlow, by omega⟩ rfl
  · -- no integer of the range, nor the one after it: the double is put out itself
    have hlarge : ∀ n : Int, x.toRat = n → ¬(-2 ^ 63 ≤ n ∧ n ≤ 2 ^ 63) := fun n hn hbounds =>
      hsmall ⟨n, hn, hbounds⟩
    have hend : x.toRat ≠ 2 ^ 63 := fun h => hlarge (2 ^ 63) (by exact_mod_cast h) (by decide)
    have hnone : ∀ n : Int, IsSigned64 n → x.toRat ≠ n := fun n hbits h =>
      hlarge n h ⟨hbits.1, Int.le_of_lt hbits.2⟩
    rw [Json.ofNumber_of_toRat_ne hlarge]
    refine ⟨iff_of_true rfl hend, fun n => iff_of_false nofun ?_, iff_of_true rfl ⟨hend, hnone⟩⟩
    rintro ⟨hbits, h | ⟨h, -⟩⟩
    · exact hnone n hbits h
    · exact hend h

/-- **THE BOUND AFTER THE LAST INTEGER** of 64 bits is put out as that integer. -/
theorem bound_emitted_one_below :
    ∃ x : Binary64.Finite, x.toRat = 2 ^ 63 ∧ Json.ofNumber (.finite x) = .integer (2 ^ 63 - 1)
      ∧ (Json.ofNumber (.finite x)).toRat? ≠ some x.toRat := by
  have hvalue : (⟨false, 2 ^ 52, 1085, by decide⟩ : Binary64.Finite).toRat = ((2 ^ 63 : Int) : ℚ) :=
    Binary64.Finite.toRat_eq_iff.2 (by decide +kernel)
  have hput := Json.ofNumber_of_toRat hvalue (by decide) (by decide)
  refine ⟨_, by exact_mod_cast hvalue, hput, ?_⟩
  rw [hput, hvalue]
  show some (((min (2 ^ 63) (2 ^ 63 - 1) : Int)) : ℚ) ≠ _
  rw [ne_eq, Option.some.injEq, Int.cast_inj]
  decide

end Conform
