import Conform.Dsl.Numeral
import Conform.Schema.Clause

/-! # Clauses of the specification language

    A clause is a comparison, `>=18`; a range that lacks at most one end,
    `3-32`, `3-` or `-32`; or a bare number, which is a greatest value.  Bounds
    of a count are whole and not negative. -/

namespace Conform.Dsl

open Conform.Text (Chars trim)

/-- An operator in front of a bound. -/
inductive Comparison where
  | atLeast
  | atMost
  | above
  | below
  | equal
deriving DecidableEq

/-- Reads an operator off the front; the longer one counts. -/
def readComparison? : Chars → Option (Comparison × Chars)
  | '>' :: '=' :: rest => some (.atLeast, rest)
  | '<' :: '=' :: rest => some (.atMost, rest)
  | '>' :: rest => some (.above, rest)
  | '<' :: rest => some (.below, rest)
  | '=' :: rest => some (.equal, rest)
  | _ => none

/-- A numeral as a bound. -/
def Numeral.bound (measure : Measure) (numeral : Numeral) : Except Fault Binary64 :=
  match numeral.toBinary64? with
  | none => .error ⟨numeral.text, .notNumber⟩
  | some bound =>
      if measure ≠ .value ∧ (Binary64.lt bound .zero || !bound.isIntegral) then
        .error ⟨numeral.text, .badCount⟩
      else .ok bound

/-- A text as a bound. -/
def boundOf (measure : Measure) (text : Chars) : Except Fault Binary64 :=
  match numeral? text with
  | none => .error ⟨text, .notNumber⟩
  | some numeral => numeral.bound measure

/-- The clause of an operator with its bound.  Equality of a count is an exact
    count. -/
def Comparison.clause (comparison : Comparison) (measure : Measure) (bound : Binary64) : Clause :=
  match comparison with
  | .atLeast => .atLeast bound
  | .atMost => .atMost bound
  | .above => .above bound
  | .below => .below bound
  | .equal => if measure = .value then .equalTo bound else .exactly bound.toUnsigned64

/-- The upper end of a range: nothing, or one numeral. -/
def upperEnd? : Chars → Option (Option Numeral)
  | [] => some none
  | text => (numeral? text).map some

/-- The two ends of a text that is a range.  A dash in front of digits is a sign
    if a range can be made of the rest. -/
def ends? (text : Chars) : Option (Option Numeral × Option Numeral) :=
  match readNumeral? text with
  | some (least, '-' :: rest) => (upperEnd? rest).map fun most => (some least, most)
  | _ =>
      match text with
      | '-' :: rest => (upperEnd? rest).map fun most => (none, most)
      | _ => none

/-- One end of a range as a bound, if it is there. -/
def endBound (measure : Measure) : Option Numeral → Except Fault (Option Binary64)
  | none => .ok none
  | some numeral => some <$> numeral.bound measure

/-- The range between two bounds; `text` is the range as written. -/
def rangeOf (text : Chars) : Option Binary64 → Option Binary64 → Except Fault Clause
  | none, none => .error ⟨text, .noBound⟩
  | some least, some most =>
      if Binary64.lt most least then .error ⟨text, .leastAboveMost⟩
      else .ok (.range (some least) (some most))
  | least, most => .ok (.range least most)

/-- A clause for the measure. -/
def clauseOf (measure : Measure) (source : Chars) : Except Fault Clause :=
  let text := trim source
  if text.isEmpty then .error ⟨text, .emptyClause⟩
  else
    match readComparison? text with
    | some (comparison, rest) => do
        let bound ← boundOf measure (trim rest)
        if comparison = .below ∧ measure ≠ .value ∧ Binary64.eq bound .zero then
          throw ⟨text, .belowZero⟩
        return comparison.clause measure bound
    | none =>
        match ends? text with
        | some (least, most) => do
            let least ← endBound measure least
            let most ← endBound measure most
            rangeOf text least most
        | none =>
            match numeral? text with
            | some numeral => do
                let most ← numeral.bound measure
                return .range none (some most)
            | none =>
                .error ⟨text,
                  if 1 < text.count '-' then .repeatedSeparator else .malformedClause⟩

end Conform.Dsl
