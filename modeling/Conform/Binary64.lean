/-! # Binary64 — double-precision numbers as exact values

    A finite number is kept in its one canonical form and is seen as an
    integer number of the smallest positive step, `2 ^ -1074`: its `scaled`
    value.  Order, equality and integrality are then statements about
    integers, with no rounding and no rational arithmetic anywhere.

    Comparisons follow the usual rules of the format: not-a-number compares
    with nothing, and the two zeros are equal. -/

namespace Conform

namespace Binary64

/-- The bounds that make a significand and a shift canonical: 53 bits, and
    the top bit set unless the shift is the smallest. -/
def Canonical (significand shift : Nat) : Prop :=
  significand < Nat.pow 2 53 ∧ (Nat.pow 2 52 ≤ significand ∨ shift = 0) ∧ shift ≤ 2045

instance (significand shift : Nat) : Decidable (Canonical significand shift) :=
  inferInstanceAs (Decidable (_ ∧ _ ∧ _))

/-- The finite number `± significand * 2 ^ shift`, in steps of `2 ^ -1074`. -/
structure Finite where
  negative : Bool
  significand : Nat
  shift : Nat
  canonical : Canonical significand shift
deriving DecidableEq

end Binary64

/-- A double-precision number. -/
inductive Binary64 where
  | nan
  | infinite (negative : Bool)
  | finite (value : Binary64.Finite)
deriving DecidableEq

namespace Binary64

/-- How many of the smallest steps make one. -/
def unit : Nat := Nat.pow 2 1074

namespace Finite

/-- The distance from zero in steps of `2 ^ -1074`. -/
def magnitude (x : Finite) : Nat := x.significand * Nat.pow 2 x.shift

/-- The value in steps of `2 ^ -1074`. -/
def scaled (x : Finite) : Int :=
  if x.negative then -(x.magnitude : Int) else (x.magnitude : Int)

/-- Whether the value is a whole number. -/
def isIntegral (x : Finite) : Bool := x.magnitude % unit == 0

/-- The value with its fraction cut off. -/
def truncated (x : Finite) : Int :=
  if x.negative then -((x.magnitude / unit : Nat) : Int) else ((x.magnitude / unit : Nat) : Int)

/-- Whether the value is one of the two zeros. -/
def isZero (x : Finite) : Bool := x.significand == 0

/-- Positive or negative zero. -/
def zero (negative : Bool) : Finite :=
  ⟨negative, 0, 0, by decide⟩

end Finite

/-- Positive zero. -/
def zero : Binary64 := .finite (Finite.zero false)

instance : Inhabited Binary64 := ⟨zero⟩

/-- `x < y`; false when either is not a number. -/
def lt : Binary64 → Binary64 → Bool
  | .nan, _ => false
  | _, .nan => false
  | .infinite a, .infinite b => a && !b
  | .infinite a, .finite _ => a
  | .finite _, .infinite b => !b
  | .finite x, .finite y => decide (x.scaled < y.scaled)

/-- `x = y` in value; false when either is not a number. -/
def eq : Binary64 → Binary64 → Bool
  | .infinite a, .infinite b => a == b
  | .finite x, .finite y => decide (x.scaled = y.scaled)
  | _, _ => false

/-- `x ≤ y`; false when either is not a number. -/
def le (x y : Binary64) : Bool := lt x y || eq x y

/-- The equality of an ordered key: as `eq`, but not-a-number equals itself. -/
def sameKey : Binary64 → Binary64 → Bool
  | .nan, .nan => true
  | x, y => eq x y

/-- Whether the number is finite and whole. -/
def isIntegral : Binary64 → Bool
  | .finite x => x.isIntegral
  | _ => false

/-- Whether the number is not a number. -/
def isNan : Binary64 → Bool
  | .nan => true
  | _ => false

/-- A number that is at most another one is not above it. -/
theorem lt_eq_false_of_le {x y : Binary64} (h : le x y = true) :
    lt y x = false := by
  unfold le at h
  cases x with
  | nan => exact nomatch h
  | infinite a =>
      cases y with
      | nan => rfl
      | infinite b => cases a <;> cases b <;> first | rfl | exact nomatch h
      | finite y =>
          cases a with
          | true => rfl
          | false => exact nomatch h
  | finite x =>
      cases y with
      | nan => rfl
      | infinite b =>
          cases b with
          | true => exact nomatch h
          | false => rfl
      | finite y =>
          simp only [lt, eq, Bool.or_eq_true, decide_eq_true_eq] at h
          simp only [lt, decide_eq_false_iff_not]
          omega

end Binary64

end Conform
