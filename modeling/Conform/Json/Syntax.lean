import Conform.Text.Digit
import Conform.Json

/-! # The parts of JSON text

    Readers for the parts that every document is made of: blanks, words,
    numbers and strings.  Each takes the remaining text and gives back what it
    read with the text after it, or the fault that stopped it.

    Numbers and strings can also be skipped: skipping checks the form alone,
    so it never objects to a number out of range or to a half of a surrogate
    pair. -/

namespace Conform.Json

open Conform.Text (Chars isDigit digitsValue hexDigit?)

/-- What can be wrong with a JSON text. -/
inductive SyntaxFault where
  | endInValue
  | endInList
  | endInObject
  | endInString
  | expectedColon
  | expectedListEnd
  | expectedObjectEnd
  | expectedWord
  | expectedValue
  | invalidEscape
  | invalidNumber
  | numberOutOfRange
  | controlCharacter
  | keyNotString
  | loneSurrogate
  | cutSurrogate
  | trailingComma
  | trailingCharacters
deriving DecidableEq, Repr

/-- The wording of a fault. -/
def SyntaxFault.message : SyntaxFault → String
  | .endInValue => "EOF while parsing a value"
  | .endInList => "EOF while parsing a list"
  | .endInObject => "EOF while parsing an object"
  | .endInString => "EOF while parsing a string"
  | .expectedColon => "expected `:`"
  | .expectedListEnd => "expected `,` or `]`"
  | .expectedObjectEnd => "expected `,` or `\x7d`"
  | .expectedWord => "expected ident"
  | .expectedValue => "expected value"
  | .invalidEscape => "invalid escape"
  | .invalidNumber => "invalid number"
  | .numberOutOfRange => "number out of range"
  | .controlCharacter => "control character (\\u0000-\\u001F) found while parsing a string"
  | .keyNotString => "key must be a string"
  | .loneSurrogate => "lone leading surrogate in hex escape"
  | .cutSurrogate => "unexpected end of hex escape"
  | .trailingComma => "trailing comma"
  | .trailingCharacters => "trailing characters"

/-- What was read and the text after it. -/
abbrev Reading (α : Type) := Except SyntaxFault (α × Chars)

/-- The four blanks of JSON. -/
def isSpace (c : Char) : Bool :=
  c = ' ' || c = '\n' || c = '\t' || c = '\r'

/-- The text without the blanks in front. -/
def skipSpace (text : Chars) : Chars := text.dropWhile isSpace

/-! ## Words -/

/-- Reads the rest of a word such as `true` after its first letter. -/
def readWord : Chars → Chars → Reading Unit
  | [], text => .ok ((), text)
  | _ :: _, [] => .error .endInValue
  | w :: word, c :: text => if c = w then readWord word text else .error .expectedWord

/-! ## Numbers -/

/-- The parts of a number: sign, digits of the whole part, digits of the
    fraction and the exponent, where present. -/
structure Numeral where
  negative : Bool
  whole : Chars
  fraction : Option Chars
  exponent : Option (Bool × Chars)

/-- Reads an exponent after its letter. -/
def readExponent (text : Chars) : Reading (Bool × Chars) :=
  let signed : Bool × Chars :=
    match text with
    | '+' :: more => (false, more)
    | '-' :: more => (true, more)
    | _ => (false, text)
  match signed.2 with
  | [] => .error .endInValue
  | c :: _ =>
      if isDigit c then
        .ok ((signed.1, signed.2.takeWhile isDigit), signed.2.dropWhile isDigit)
      else .error .invalidNumber

/-- Reads the exponent if there is one. -/
def readExponent? (text : Chars) : Reading (Option (Bool × Chars)) :=
  match text with
  | c :: more =>
      if c = 'e' || c = 'E' then (readExponent more).map fun r => (some r.1, r.2)
      else .ok (none, text)
  | [] => .ok (none, text)

/-- Reads the fraction, if there is one, and the exponent, if there is one. -/
def readTail (negative : Bool) (whole text : Chars) : Reading Numeral :=
  match text with
  | '.' :: more =>
      match more with
      | [] => .error .endInValue
      | c :: _ =>
          if isDigit c then
            (readExponent? (more.dropWhile isDigit)).map fun r =>
              (⟨negative, whole, some (more.takeWhile isDigit), r.1⟩, r.2)
          else .error .invalidNumber
  | _ => (readExponent? text).map fun r => (⟨negative, whole, none, r.1⟩, r.2)

/-- Reads a number after its sign: no superfluous zero may lead. -/
def readNumeral (negative : Bool) (text : Chars) : Reading Numeral :=
  match text with
  | [] => .error .endInValue
  | '0' :: more =>
      match more with
      | c :: _ => if isDigit c then .error .invalidNumber else readTail negative ['0'] more
      | [] => readTail negative ['0'] []
  | c :: _ =>
      if isDigit c then readTail negative (text.takeWhile isDigit) (text.dropWhile isDigit)
      else .error .invalidNumber

/-- The double nearest to a numeral. -/
def Numeral.toBinary64 (n : Numeral) : Binary64 :=
  let fraction := n.fraction.getD []
  let shift : Int :=
    match n.exponent with
    | none => 0
    | some (negative, digits) =>
        if negative then -(digitsValue digits : Int) else (digitsValue digits : Int)
  .ofDecimal n.negative (digitsValue (n.whole ++ fraction)) (shift - (fraction.length : Int))

/-- The value of a numeral: an integer when it is written as one and fits 64
    bits (`-0` is not an integer), otherwise a double in range. -/
def Numeral.value (n : Numeral) : Except SyntaxFault Json :=
  let whole := digitsValue n.whole
  let plain := n.fraction.isNone && n.exponent.isNone
  if plain && !n.negative && decide (whole < Nat.pow 2 64) then .ok (.integer whole)
  else if plain && n.negative && decide (0 < whole) && decide (whole ≤ Nat.pow 2 63) then
    .ok (.integer (-(whole : Int)))
  else
    match n.toBinary64 with
    | .finite x => .ok (.float x)
    | _ => .error .numberOutOfRange

/-- Reads the value of a number after its sign. -/
def readNumber (negative : Bool) (text : Chars) : Except SyntaxFault (Json × Chars) := do
  let (numeral, rest) ← readNumeral negative text
  let value ← numeral.value
  return (value, rest)

/-- Skips a number after its sign; an end in the middle is an invalid number. -/
def skipNumber (text : Chars) : Reading Unit :=
  match readNumeral false text with
  | .ok (_, rest) => .ok ((), rest)
  | .error _ => .error .invalidNumber

/-! ## Strings -/

/-- Reads four hexadecimal digits. -/
def readHex (text : Chars) : Reading Nat :=
  match text with
  | a :: b :: c :: d :: rest =>
      match hexDigit? a, hexDigit? b, hexDigit? c, hexDigit? d with
      | some a, some b, some c, some d => .ok (((a * 16 + b) * 16 + c) * 16 + d, rest)
      | _, _, _, _ => .error .invalidEscape
  | short =>
      if (String.ofList short).utf8ByteSize < 4 then .error .endInString
      else .error .invalidEscape

/-- The character that a one-letter escape stands for. -/
def shortEscape? : Char → Option Char
  | '"' => some '"'
  | '\\' => some '\\'
  | '/' => some '/'
  | 'b' => some '\x08'
  | 'f' => some '\x0c'
  | 'n' => some '\n'
  | 'r' => some '\r'
  | 't' => some '\t'
  | _ => none

/-- Reads the second half of a surrogate pair whose first half is `high`. -/
def readLowSurrogate (high : Nat) (text : Chars) : Except SyntaxFault (Char × Chars) :=
  match text with
  | [] => .error .endInString
  | '\\' :: more =>
      match more with
      | [] => .error .endInString
      | 'u' :: digits => do
          let (low, rest) ← readHex digits
          if 0xdc00 ≤ low ∧ low ≤ 0xdfff then
            return (Char.ofNat ((high - 0xd800) * 0x400 + (low - 0xdc00) + 0x10000), rest)
          else throw .loneSurrogate
      | _ => .error .cutSurrogate
  | _ => .error .cutSurrogate

/-- Reads an escape after its backslash. -/
def readEscape (text : Chars) : Except SyntaxFault (Char × Chars) :=
  match text with
  | [] => .error .endInString
  | 'u' :: more => do
      let (code, rest) ← readHex more
      if 0xdc00 ≤ code ∧ code ≤ 0xdfff then throw .loneSurrogate
      else if 0xd800 ≤ code ∧ code ≤ 0xdbff then readLowSurrogate code rest
      else return (Char.ofNat code, rest)
  | c :: more =>
      match shortEscape? c with
      | some plain => .ok (plain, more)
      | none => .error .invalidEscape

/-- Skips an escape after its backslash. -/
def skipEscape (text : Chars) : Reading Unit :=
  match text with
  | [] => .error .endInString
  | 'u' :: more => (readHex more).map fun r => ((), r.2)
  | c :: more => if (shortEscape? c).isSome then .ok ((), more) else .error .invalidEscape

/-- Reads a string after its opening quote, `budget` characters at most;
    `done` holds what was read, last character first. -/
def readStringFrom : Nat → Chars → Chars → Reading String
  | 0, _, _ => .error .endInString
  | _ + 1, [], _ => .error .endInString
  | budget + 1, c :: rest, done =>
      if c = '"' then .ok (String.ofList done.reverse, rest)
      else if c = '\\' then
        match readEscape rest with
        | .ok (plain, more) => readStringFrom budget more (plain :: done)
        | .error fault => .error fault
      else if c.toNat < 0x20 then .error .controlCharacter
      else readStringFrom budget rest (c :: done)

/-- Reads a string after its opening quote. -/
def readString (text : Chars) : Reading String :=
  readStringFrom (text.length + 1) text []

/-- Skips a string after its opening quote, `budget` characters at most. -/
def skipStringFrom : Nat → Chars → Reading Unit
  | 0, _ => .error .endInString
  | _ + 1, [] => .error .endInString
  | budget + 1, c :: rest =>
      if c = '"' then .ok ((), rest)
      else if c = '\\' then
        match skipEscape rest with
        | .ok (_, more) => skipStringFrom budget more
        | .error fault => .error fault
      else if c.toNat < 0x20 then .error .controlCharacter
      else skipStringFrom budget rest

/-- Skips a string after its opening quote. -/
def skipString (text : Chars) : Reading Unit :=
  skipStringFrom (text.length + 1) text

end Conform.Json
