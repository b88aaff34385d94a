import Conform.Text.Digit

/-! # Dates and times

    Three notations are read, each over the whole text.

    * A date is year, month and day with dashes between them; blanks may stand
      before each number, and a year may have a sign and then any number of
      digits.
    * A time is hour, minute and perhaps second with colons between them;
      blanks may stand before each number.
    * A timestamp is the strict combination of both with an offset, every
      number at its full width.

    A date must exist in the Gregorian calendar carried on in both directions. -/

namespace Conform.Format

open Conform.Text (Chars trimStart isDigit digitsValue)

/-- Whether a year has a 29th of February. -/
def isLeapYear (year : Int) : Bool :=
  year % 4 == 0 && (year % 100 != 0 || year % 400 == 0)

/-- How many days a month has; none beyond the twelfth. -/
def daysIn (year : Int) (month : Nat) : Nat :=
  match month with
  | 1 => 31
  | 2 => if isLeapYear year then 29 else 28
  | 3 => 31
  | 4 => 30
  | 5 => 31
  | 6 => 30
  | 7 => 31
  | 8 => 31
  | 9 => 30
  | 10 => 31
  | 11 => 30
  | 12 => 31
  | _ => 0

/-- Whether the day exists in that month of that year. -/
def isDay (year : Int) (month day : Nat) : Bool :=
  Nat.ble 1 day && Nat.ble day (daysIn year month)

/-- Reads a number of at least one and at most `most` digits. -/
def readNumber? (most : Nat) (text : Chars) : Option (Nat × Chars) :=
  let digits := (text.take most).takeWhile isDigit
  if digits.isEmpty then none else some (digitsValue digits, text.drop digits.length)

/-- Reads a number of exactly `width` digits. -/
def readExact? (width : Nat) (text : Chars) : Option (Nat × Chars) :=
  let digits := (text.take width).takeWhile isDigit
  if digits.length = width then some (digitsValue digits, text.drop width) else none

/-- Reads a character. -/
def readChar? (c : Char) : Chars → Option Chars
  | d :: rest => if d = c then some rest else none
  | [] => none

/-- Reads a year: up to four digits, or a sign and any number of them. -/
def readYear? (text : Chars) : Option (Int × Chars) :=
  match text with
  | '-' :: more => (readNumber? more.length more).map fun r => (-(r.1 : Int), r.2)
  | '+' :: more => (readNumber? more.length more).map fun r => ((r.1 : Int), r.2)
  | _ => (readNumber? 4 text).map fun r => ((r.1 : Int), r.2)

/-- Whether the text is a date. -/
def isDate (text : Chars) : Bool :=
  let parts : Option (Int × Nat × Nat × Chars) := do
    let (year, rest) ← readYear? (trimStart text)
    let rest ← readChar? '-' rest
    let (month, rest) ← readNumber? 2 (trimStart rest)
    let rest ← readChar? '-' rest
    let (day, rest) ← readNumber? 2 (trimStart rest)
    return (year, month, day, rest)
  match parts with
  | some (year, month, day, []) =>
      decide (-262143 ≤ year) && decide (year ≤ 262142) && isDay year month day
  | _ => false

/-- Whether the text is a time: hours to 23, minutes to 59 and, where
    present, seconds to 60. -/
def isTime (text : Chars) : Bool :=
  let parts : Option (Nat × Nat × Chars) := do
    let (hour, rest) ← readNumber? 2 (trimStart text)
    let rest ← readChar? ':' rest
    let (minute, rest) ← readNumber? 2 (trimStart rest)
    return (hour, minute, rest)
  match parts with
  | none => false
  | some (hour, minute, rest) =>
      Nat.ble hour 23 && Nat.ble minute 59
        && match rest with
          | [] => true
          | ':' :: more =>
              match readNumber? 2 (trimStart more) with
              | some (second, []) => Nat.ble second 60
              | _ => false
          | _ => false

/-- Whether the text is an offset from universal time. -/
def isOffset (text : Chars) : Bool :=
  match text with
  | ['Z'] => true
  | ['z'] => true
  | sign :: more =>
      (sign == '+' || sign == '-' || sign == '\u2212')
        && match (do
            let (hour, rest) ← readExact? 2 more
            let rest ← readChar? ':' rest
            let (minute, rest) ← readExact? 2 rest
            return (hour, minute, rest) : Option (Nat × Nat × Chars)) with
          | some (hour, minute, []) => Nat.ble hour 23 && Nat.ble minute 59
          | _ => false
  | [] => false

/-- Skips a fraction of a second; its point needs a digit after it. -/
def skipFraction? : Chars → Option Chars
  | '.' :: more => if (more.head?.map isDigit).getD false then some (more.dropWhile isDigit) else none
  | text => some text

/-- Whether the text is a timestamp. -/
def isTimestamp (text : Chars) : Bool :=
  let date : Option (Nat × Nat × Nat × Chars) := do
    let (year, rest) ← readExact? 4 text
    let rest ← readChar? '-' rest
    let (month, rest) ← readExact? 2 rest
    let rest ← readChar? '-' rest
    let (day, rest) ← readExact? 2 rest
    return (year, month, day, rest)
  match date with
  | some (year, month, day, separator :: rest) =>
      isDay year month day && (separator == 'T' || separator == 't' || separator == ' ')
        && match (do
            let (hour, rest) ← readExact? 2 rest
            let rest ← readChar? ':' rest
            let (minute, rest) ← readExact? 2 rest
            let rest ← readChar? ':' rest
            let (second, rest) ← readExact? 2 rest
            let rest ← skipFraction? rest
            return (hour, minute, second, rest) : Option (Nat × Nat × Nat × Chars)) with
          | some (hour, minute, second, rest) =>
              Nat.ble hour 23 && Nat.ble minute 59 && Nat.ble second 60 && isOffset rest
          | none => false
  | _ => false

end Conform.Format
