import Conform.Binary64.Rounding
import Conform.Error
import Conform.Text.Digit
import Conform.Text.Word

/-! # Numerals of the specification language

    A numeral is digits with an optional sign in front and an optional fraction
    behind.  Digits of every script have the form of a numeral; a value belongs
    only to those in ASCII.

    Main fact: reading a numeral takes exactly its own text off the front
    (`text_of_readNumeral?`). -/

namespace Conform.Dsl

open Conform.Text (Chars isDigit digitsValue isDecimalDigit)

/-- What is wrong with a specification, near which part of it. -/
structure Fault where
  token : Chars
  cause : GrammarFault

/-- The fault as an error at a place. -/
def Fault.at (fault : Fault) (path : String) : Error :=
  .grammar path (String.ofList fault.token) fault.cause

/-- A number as it is written. -/
structure Numeral where
  negative : Bool
  whole : Chars
  fraction : Option Chars

/-- The text of a fraction. -/
def fractionText : Option Chars → Chars
  | none => []
  | some digits => '.' :: digits

namespace Numeral

/-- The text of the numeral. -/
def text (numeral : Numeral) : Chars :=
  (if numeral.negative then ['-'] else []) ++ numeral.whole ++ fractionText numeral.fraction

/-- The value of the numeral, if its digits are in ASCII. -/
def toBinary64? (numeral : Numeral) : Option Binary64 :=
  let fraction := numeral.fraction.getD []
  if numeral.whole.all isDigit && fraction.all isDigit then
    some (.ofDecimal numeral.negative (digitsValue (numeral.whole ++ fraction))
      (-(fraction.length : Int)))
  else none

end Numeral

/-- Reads a fraction off the front, if there is one; a point without digits is
    not part of a numeral. -/
def readFraction (text : Chars) : Option Chars × Chars :=
  match text with
  | '.' :: more =>
      if (more.takeWhile isDecimalDigit).isEmpty then (none, text)
      else (some (more.takeWhile isDecimalDigit), more.dropWhile isDecimalDigit)
  | _ => (none, text)

/-- Reads a numeral after its sign. -/
def readUnsigned? (negative : Bool) (text : Chars) : Option (Numeral × Chars) :=
  if (text.takeWhile isDecimalDigit).isEmpty then none
  else
    let tail := readFraction (text.dropWhile isDecimalDigit)
    some (⟨negative, text.takeWhile isDecimalDigit, tail.1⟩, tail.2)

/-- Reads the longest numeral off the front of a text. -/
def readNumeral? : Chars → Option (Numeral × Chars)
  | '-' :: text => readUnsigned? true text
  | text => readUnsigned? false text

/-- The numeral that is the whole text. -/
def numeral? (text : Chars) : Option Numeral :=
  match readNumeral? text with
  | some (numeral, []) => some numeral
  | _ => none

/-- What is read as a fraction was written there. -/
theorem text_readFraction (text : Chars) :
    fractionText (readFraction text).1 ++ (readFraction text).2 = text := by
  fun_cases readFraction text with
  | case1 more h => rfl
  | case2 more h => simp only [fractionText, List.cons_append, List.takeWhile_append_dropWhile]
  | case3 text h => rfl

/-- A numeral read after its sign is written exactly as it stood. -/
theorem text_of_readUnsigned? {negative : Bool} {text rest : Chars} {numeral : Numeral}
    (h : readUnsigned? negative text = some (numeral, rest)) :
    numeral.text ++ rest = (if negative then ['-'] else []) ++ text := by
  unfold readUnsigned? at h
  split at h
  · exact nomatch h
  · simp only [Option.some.injEq, Prod.mk.injEq] at h
    obtain ⟨rfl, rfl⟩ := h
    have hf := text_readFraction (text.dropWhile isDecimalDigit)
    simp only [Numeral.text, List.append_assoc]
    rw [hf, List.takeWhile_append_dropWhile]

/-- **A NUMERAL IS READ AS IT IS WRITTEN**: its own text is what reading takes
    off the front. -/
theorem text_of_readNumeral? {text rest : Chars} {numeral : Numeral}
    (h : readNumeral? text = some (numeral, rest)) : numeral.text ++ rest = text := by
  unfold readNumeral? at h
  split at h
  · simpa using text_of_readUnsigned? h
  · simpa using text_of_readUnsigned? h

end Conform.Dsl
