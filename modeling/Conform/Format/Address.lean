import Conform.Format.Calendar

/-! # Network addresses

    A version 4 address is four decimal numbers below 256, without leading
    zeros, with points between them.  A version 6 address is eight groups of
    one to four hexadecimal digits with colons between them, where the last
    two groups may be written as a version 4 address and one run of at least
    one group may be left out between two colons. -/

namespace Conform.Format

open Conform.Text (Chars isDigit digitsValue)

/-- Reads a decimal number below 256 without leading zeros. -/
def readOctet? (text : Chars) : Option Chars :=
  let digits := text.takeWhile isDigit
  let rest := text.drop digits.length
  match digits with
  | [] => none
  | [_] => some rest
  | c :: _ =>
      if c ≠ '0' ∧ digits.length ≤ 3 ∧ digitsValue digits < 256 then some rest else none

/-- Reads a version 4 address. -/
def readIpv4? (text : Chars) : Option Chars := do
  let rest ← readOctet? text
  let rest ← readChar? '.' rest
  let rest ← readOctet? rest
  let rest ← readChar? '.' rest
  let rest ← readOctet? rest
  let rest ← readChar? '.' rest
  readOctet? rest

/-- Whether the text is a version 4 address. -/
def isIpv4 (text : Chars) : Bool := readIpv4? text == some []

/-- A hexadecimal digit. -/
def isHexDigit (c : Char) : Bool :=
  isDigit c || Nat.ble 65 c.toNat && Nat.ble c.toNat 70 || Nat.ble 97 c.toNat && Nat.ble c.toNat 102

/-- Reads a group of one to four hexadecimal digits. -/
def readGroup? (text : Chars) : Option Chars :=
  let digits := text.takeWhile isHexDigit
  if digits.isEmpty || Nat.blt 4 digits.length then none else some (text.drop digits.length)

/-- Groups that were read: how many, whether the last two were written as a
    version 4 address, and the text after them. -/
structure Groups where
  count : Nat
  dotted : Bool
  rest : Chars

/-- Reads up to `room` groups with colons between them; `count` have been
    read before. -/
def readGroups : Nat → Nat → Chars → Groups
  | 0, count, text => ⟨count, false, text⟩
  | room + 1, count, text =>
      let start := if count = 0 then some text else readChar? ':' text
      let dotted := if room = 0 then none else start.bind readIpv4?
      match dotted with
      | some rest => ⟨count + 2, true, rest⟩
      | none =>
          match start.bind readGroup? with
          | some rest => readGroups room (count + 1) rest
          | none => ⟨count, false, text⟩

/-- Whether the text is a version 6 address. -/
def isIpv6 (text : Chars) : Bool :=
  let front := readGroups 8 0 text
  if front.count = 8 then front.rest.isEmpty
  else if front.dotted then false
  else
    match front.rest with
    | ':' :: ':' :: rest => (readGroups (7 - front.count) 0 rest).rest.isEmpty
    | _ => false

end Conform.Format
