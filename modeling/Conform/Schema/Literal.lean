import Conform.Json
import Conform.Decimal.Layout

/-! # Literals — the members of an enumeration

    A literal is a string, a number or a boolean.  It matches only values of
    its own JSON type; numbers are compared as doubles. -/

namespace Conform

/-- A value that an enumeration lists. -/
inductive Literal where
  | string (text : String)
  | number (value : Binary64)
  | boolean (value : Bool)
deriving DecidableEq

namespace Literal

/-- Whether the literal is the value. -/
def accepts : Literal → Json → Bool
  | .string a, .string b => a == b
  | .number a, .integer b => Binary64.eq (.ofInt b) a
  | .number a, .float b => Binary64.eq (.finite b) a
  | .boolean a, .bool b => a == b
  | _, _ => false

/-- The literal as a JSON value. -/
def toJson : Literal → Json
  | .string text => .string text
  | .number value => .ofNumber value
  | .boolean value => .bool value

/-- The literal as it is listed in a message. -/
def text : Literal → String
  | .string text => text
  | .number value => value.caseText
  | .boolean value => if value then "true" else "false"

/-- Equality of literals, numbers compared as ordered keys. -/
def same : Literal → Literal → Bool
  | .string a, .string b => a == b
  | .number a, .number b => Binary64.sameKey a b
  | .boolean a, .boolean b => a == b
  | _, _ => false

/-- Equality of lists of literals. -/
def sameAll : List Literal → List Literal → Bool
  | [], [] => true
  | a :: as, b :: bs => same a b && sameAll as bs
  | _, _ => false

end Literal

end Conform
