import Conform.Members
import Conform.Binary64.Rounding

/-! # Json — values with ordered members

    The value model of a JSON document.  Objects remember the order of their
    members; numbers come in two kinds, exact integers and finite doubles, and
    the kind is part of the value: `1` and `1.0` are different numbers that
    denote the same quantity. -/

namespace Conform

/-- A JSON value. -/
inductive Json where
  | null
  | bool (value : Bool)
  | integer (value : Int)
  | float (value : Binary64.Finite)
  | string (text : String)
  | array (items : List Json)
  | object (members : List (String × Json))
deriving Inhabited

namespace Json

/-- A double as a JSON number, or null when it is not finite. -/
def ofBinary64 : Binary64 → Json
  | .finite x => .float x
  | _ => .null

/-- A double as an integer where it is one within 64 signed bits, otherwise as
    a double. -/
def ofNumber (x : Binary64) : Json :=
  match x.toSigned64? with
  | some n => .integer n
  | none => ofBinary64 x

/-- The quantity a number denotes, as the nearest double. -/
def asBinary64? : Json → Option Binary64
  | .integer n => some (.ofInt n)
  | .float x => some (.finite x)
  | _ => none

def isNull : Json → Bool
  | .null => true
  | _ => false

def isString : Json → Bool
  | .string _ => true
  | _ => false

/-- Whether the value is a number without a fraction. -/
def isIntegral : Json → Bool
  | .integer _ => true
  | .float x => x.isIntegral
  | _ => false

/-- The value of a member, for an object. -/
def member? : Json → String → Option Json
  | .object members, name => Members.valueOf? members name
  | _, _ => none

mutual

/-- Equality of JSON values: numbers of different kinds differ, and the order
    of an object's members does not matter. -/
def same : Json → Json → Bool
  | .null, .null => true
  | .bool a, .bool b => a == b
  | .integer a, .integer b => a == b
  | .float a, .float b => Binary64.eq (.finite a) (.finite b)
  | .string a, .string b => a == b
  | .array a, .array b => sameItems a b
  | .object a, .object b => a.length == b.length && sameMembers a b
  | _, _ => false
termination_by structural value => value

/-- Equality item by item. -/
def sameItems : List Json → List Json → Bool
  | [], [] => true
  | a :: as, b :: bs => same a b && sameItems as bs
  | _, _ => false
termination_by structural items => items

/-- Whether every member has an equal one of its name in `others`. -/
def sameMembers : List (String × Json) → List (String × Json) → Bool
  | [], _ => true
  | (name, value) :: rest, others =>
      (match Members.valueOf? others name with
        | some other => same value other
        | none => false) && sameMembers rest others
termination_by structural members => members

end

end Json

end Conform
