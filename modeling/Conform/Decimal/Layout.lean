import Conform.Decimal.Shortest

/-! # Writing numbers in decimal

    Three ways to write a double are used.

    * `plainText`: the shortest digits, always positional, no fraction for a
      whole number.
    * `wholeText`: every digit of a whole number, however many there are.
    * `numberText`: the shortest digits as a JSON number, with at least one
      fractional digit between `10 ^ -5` and `10 ^ 16`, and with an exponent
      outside that range. -/

namespace Conform

namespace Decimal

/-- `n` zeros. -/
def zeros (n : Nat) : String := String.ofList (List.replicate n '0')

/-- How many digits the decimal has. -/
def width (d : Decimal) : Nat := (Nat.toDigits 10 d.digits).length

/-- The place of the leading digit. -/
def leading (d : Decimal) : Int := d.exponent + (d.width : Int) - 1

/-- The decimal without an exponent; a whole number gets `fraction` after it. -/
def positional (d : Decimal) (fraction : String) : String :=
  let text := Nat.toDigits 10 d.digits
  if 0 ≤ d.exponent then String.ofList text ++ zeros d.exponent.toNat ++ fraction
  else
    let places := d.exponent.natAbs
    if places < text.length then
      let whole := text.length - places
      String.ofList (text.take whole) ++ "." ++ String.ofList (text.drop whole)
    else "0." ++ zeros (places - text.length) ++ String.ofList text

/-- One digit before the point, the rest after it, and an exponent with a
    sign and without padding. -/
def scientific (d : Decimal) : String :=
  let text := Nat.toDigits 10 d.digits
  let mantissa :=
    match text with
    | [] => ""
    | [c] => String.ofList [c]
    | c :: more => String.ofList (c :: '.' :: more)
  let sign := if d.leading < 0 then "e-" else "e+"
  mantissa ++ sign ++ toString d.leading.natAbs

end Decimal

namespace Binary64

/-- The sign of a number, as it is written. -/
def signText (negative : Bool) : String := if negative then "-" else ""

/-- The shortest digits of a finite number, as a JSON number. -/
def Finite.numberText (x : Finite) : String :=
  let d := x.shortest .toEven
  let body :=
    if x.isZero then "0.0"
    else if -5 ≤ d.leading ∧ d.leading < 16 then d.positional ".0"
    else d.scientific
  signText x.negative ++ body

/-- All digits of the whole part. -/
def Finite.wholeText (x : Finite) : String :=
  signText x.negative ++ toString (x.magnitude / unit)

/-- The shortest digits, never with an exponent. -/
def plainText : Binary64 → String
  | .nan => "NaN"
  | .infinite negative => signText negative ++ "inf"
  | .finite x => signText x.negative ++ (x.shortest .away).positional ""

/-- A whole number below `10 ^ 21` with all its digits, any other number as
    `plainText`. -/
def caseText : Binary64 → String
  | .finite x =>
      if x.isIntegral && Nat.blt x.magnitude (Nat.pow 10 21 * unit) then x.wholeText
      else plainText (.finite x)
  | x => plainText x

end Binary64

end Conform
