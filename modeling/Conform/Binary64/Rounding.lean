import Conform.Binary64

/-! # Rounding to the nearest double

    A quotient of naturals, in steps of `2 ^ -1074`, is rounded to the
    nearest double, a half to the even significand, and beyond the largest
    double to an infinity.  Integers, decimal numerals and sums are special
    cases.

    Conversions to machine integers clamp at the ends of their range. -/

namespace Conform.Binary64

/-- The quotient rounded to the nearest natural, a half to the even one. -/
def roundHalfEven (num den : Nat) : Nat :=
  let quotient := num / den
  let rest := num % den
  if 2 * rest < den then quotient
  else if den < 2 * rest then quotient + 1
  else quotient + quotient % 2

/-- The double nearest to `± num / den` steps of `2 ^ -1074`. -/
def ofScaled (negative : Bool) (num den : Nat) : Binary64 :=
  let whole := num / den
  let shift := if whole < Nat.pow 2 53 then 0 else whole.log2 - 52
  let rounded := roundHalfEven num (den * Nat.pow 2 shift)
  let significand := if rounded = Nat.pow 2 53 then Nat.pow 2 52 else rounded
  let shift := if rounded = Nat.pow 2 53 then shift + 1 else shift
  if h : Canonical significand shift then .finite ⟨negative, significand, shift, h⟩
  else .infinite negative

/-- The double nearest to `± num / den`. -/
def ofQuotient (negative : Bool) (num den : Nat) : Binary64 :=
  ofScaled negative (num * unit) den

/-- The double nearest to a natural number. -/
def ofNat (n : Nat) : Binary64 := ofQuotient false n 1

/-- The double nearest to an integer. -/
def ofInt (n : Int) : Binary64 := ofQuotient (decide (n < 0)) n.natAbs 1

/-- The double nearest to `± digits * 10 ^ exponent`.  Exponents so far out
    that the answer is plain are not expanded. -/
def ofDecimal (negative : Bool) (digits : Nat) (exponent : Int) : Binary64 :=
  if digits = 0 then .finite (Finite.zero negative)
  else if 0 ≤ exponent then
    if 400 ≤ exponent then .infinite negative
    else ofQuotient negative (digits * Nat.pow 10 exponent.toNat) 1
  else
    let places := exponent.natAbs
    if digits.log2 + 1200 ≤ 3 * places then .finite (Finite.zero negative)
    else ofQuotient negative digits (Nat.pow 10 places)

/-- The double nearest to an integer number of steps of `2 ^ -1074`. -/
def ofSteps (steps : Int) : Binary64 :=
  ofScaled (decide (steps < 0)) steps.natAbs 1

/-- `x + 1`, rounded. -/
def increment : Binary64 → Binary64
  | .finite x => ofSteps (x.scaled + unit)
  | x => x

/-- `x - 1`, rounded. -/
def decrement : Binary64 → Binary64
  | .finite x => ofSteps (x.scaled - unit)
  | x => x

/-- The larger of `x` and zero; zero when `x` is not a number. -/
def atLeastZero : Binary64 → Binary64
  | .nan => zero
  | .infinite negative => if negative then zero else .infinite false
  | .finite x => if x.scaled ≤ 0 then zero else .finite x

/-- An integer clamped to a range. -/
def clamp (lowest highest n : Int) : Int :=
  if n < lowest then lowest else if highest < n then highest else n

/-- The largest natural number of 64 bits. -/
def mostUnsigned64 : Nat := Nat.pow 2 64 - 1

/-- The largest integer of 64 bits. -/
def mostSigned64 : Int := (Nat.pow 2 63 : Nat) - 1

/-- The smallest integer of 64 bits. -/
def leastSigned64 : Int := -(Nat.pow 2 63 : Nat)

/-- The number cut to a whole one and clamped to 64 unsigned bits; zero when
    it is not a number. -/
def toUnsigned64 : Binary64 → Nat
  | .nan => 0
  | .infinite negative => if negative then 0 else mostUnsigned64
  | .finite x => (clamp 0 (mostUnsigned64 : Int) x.truncated).toNat

/-- The number as a 64-bit integer, if it is whole and within
    `[-2 ^ 63, 2 ^ 63]`; the upper end itself becomes the largest such integer. -/
def toSigned64? : Binary64 → Option Int
  | .finite x =>
      if x.isIntegral && decide (leastSigned64 ≤ x.truncated)
          && decide (x.truncated ≤ mostSigned64 + 1) then
        some (clamp leastSigned64 mostSigned64 x.truncated)
      else none
  | _ => none

end Conform.Binary64
