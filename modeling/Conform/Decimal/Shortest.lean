import Conform.Binary64

/-! # Shortest decimals

    The shortest decimal of a double is the one with fewest digits among those
    that read back as it, and of these the nearest.  A decimal reads back when
    it lies between the midpoints to the two neighbouring doubles, the
    midpoints included exactly when the significand is even.

    Everything is exact arithmetic on naturals, in quarters of the smallest
    step `2 ^ -1074`, so that both midpoints are whole numbers. -/

namespace Conform

/-- The number `digits * 10 ^ exponent`. -/
structure Decimal where
  digits : Nat
  exponent : Int
deriving DecidableEq

namespace Decimal

/-- Which of two equally near candidates is taken. -/
inductive Tie where
  | toEven
  | away
deriving DecidableEq

/-- Moves trailing zeros from the digits into the exponent, at most `places`
    of them. -/
def stripZeros : Nat → Nat → Int → Decimal
  | 0, digits, exponent => ⟨digits, exponent⟩
  | places + 1, digits, exponent =>
      if digits ≠ 0 ∧ digits % 10 = 0 then stripZeros places (digits / 10) (exponent + 1)
      else ⟨digits, exponent⟩

end Decimal

namespace Binary64.Finite

open Decimal (Tie)

/-- The distance from zero in quarter steps. -/
def center (x : Finite) : Nat := 4 * x.magnitude

/-- The midpoint to the next double towards zero, in quarter steps. -/
def lowEnd (x : Finite) : Nat :=
  if x.significand = Nat.pow 2 52 ∧ x.shift ≠ 0 then x.center - Nat.pow 2 x.shift
  else x.center - 2 * Nat.pow 2 x.shift

/-- The midpoint to the next double away from zero, in quarter steps. -/
def highEnd (x : Finite) : Nat := x.center + 2 * Nat.pow 2 x.shift

/-- A place of the decimal grid: one unit at `10 ^ place` is `step / scale`
    quarter steps. -/
structure Grid where
  step : Nat
  scale : Nat

/-- The grid of the multiples of `10 ^ place`. -/
def grid (place : Int) : Grid :=
  if 0 ≤ place then ⟨Nat.pow 10 place.toNat * (4 * unit), 1⟩
  else ⟨4 * unit, Nat.pow 10 place.natAbs⟩

/-- Whether `count` units of the grid read back as `x`. -/
def readsBack (x : Finite) (g : Grid) (count : Nat) : Bool :=
  let value := count * g.step
  let low := x.lowEnd * g.scale
  let high := x.highEnd * g.scale
  if x.significand % 2 = 0 then Nat.ble low value && Nat.ble value high
  else Nat.blt low value && Nat.blt value high

/-- The grid point that reads back as `x` and lies nearest to it, if any does. -/
def nearestOn? (tie : Tie) (x : Finite) (g : Grid) : Option Nat :=
  let exact := x.center * g.scale
  let below := exact / g.step
  match x.readsBack g below, x.readsBack g (below + 1) with
  | false, false => none
  | true, false => some below
  | false, true => some (below + 1)
  | true, true =>
      let rest := 2 * (exact - below * g.step)
      if rest < g.step then some below
      else if g.step < rest then some (below + 1)
      else
        match tie with
        | .toEven => some (below + below % 2)
        | .away => some (below + 1)

/-- Whether `10 ^ place ≤ |x|`. -/
def reaches (x : Finite) (place : Int) : Bool :=
  let g := grid place
  Nat.ble g.step (x.center * g.scale)

/-- The place of the leading decimal digit of a number that is not zero. -/
def leadingPlace (x : Finite) : Int :=
  let guess : Int := ((x.center.log2 : Int) - 1076) * 30103 / 100000
  if x.reaches (guess + 1) then guess + 1
  else if x.reaches guess then guess
  else guess - 1

/-- The shortest decimal that reads back as `|x|`. -/
def shortest (tie : Tie) (x : Finite) : Decimal :=
  if x.isZero then ⟨0, 0⟩
  else
    let top := x.leadingPlace
    let found := (List.range 17).findSome? fun (n : Nat) =>
      let place := top - (n : Int)
      (x.nearestOn? tie (grid place)).map fun digits => Decimal.stripZeros 17 digits place
    found.getD ⟨x.magnitude / unit, 0⟩

end Binary64.Finite

end Conform
