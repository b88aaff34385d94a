import Conform.Json.Printer
import Conform.Text.Split

/-! # Records — looking into a value by name

    A reference is a list of member names with points between them.  What it
    leads to, if anything, is compared as text or taken as true or false. -/

namespace Conform.Json

open Conform.Text (Chars pieces)

/-- Follows member names; only objects have members. -/
def follow? : Json → List String → Option Json
  | value, [] => some value
  | value, name :: rest =>
      match value.member? name with
      | some inner => follow? inner rest
      | none => none

/-- The names of a reference. -/
def referenceNames (reference : String) : List String :=
  (pieces '.' reference.toList).map String.ofList

/-- The value that a reference leads to. -/
def resolve? (record : Json) (reference : String) : Option Json :=
  record.follow? (referenceNames reference)

/-- The text of a value that selects a case: a string itself, a whole number
    without a fraction, and any compound value as compact JSON. -/
def caseText : Option Json → String
  | none => "undefined"
  | some .null => "null"
  | some (.bool value) => if value then "true" else "false"
  | some (.string text) => text
  | some (.integer value) => toString value
  | some (.float value) => (Binary64.finite value).caseText
  | some other => other.render

/-- Whether a value counts as true: everything present but null, false, zero
    and the empty string. -/
def isTruthy : Option Json → Bool
  | none => false
  | some .null => false
  | some (.bool value) => value
  | some (.integer value) => value != 0
  | some (.float value) => !value.isZero
  | some (.string text) => text != ""
  | some (.array _) => true
  | some (.object _) => true

end Conform.Json
