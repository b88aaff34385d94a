import Conform.Json
import Conform.Format

/-! # Base types

    Every constraint starts from the JSON type of the value.  The types without
    parts of their own are the primitive ones, among them the named formats of
    strings and the type of every value; objects and arrays have parts. -/

namespace Conform

/-- A type without parts. -/
inductive Primitive where
  | string
  | number
  | integer
  | boolean
  | null
  | any
  | format (format : Format)
deriving DecidableEq

/-- A type of values. -/
inductive BaseType where
  | primitive (primitive : Primitive)
  | object
  | array
deriving DecidableEq

/-- What a clause bounds: the length of a string, a number itself, the items of
    an array or the properties of an object. -/
inductive Measure where
  | length
  | value
  | items
  | properties
deriving DecidableEq

namespace Primitive

/-- The name of the type. -/
def name : Primitive → String
  | .string => "string"
  | .number => "number"
  | .integer => "integer"
  | .boolean => "boolean"
  | .null => "null"
  | .any => "any"
  | .format f => f.name

/-- Whether the JSON type of the value fits; the form of a string is not looked at. -/
def fits : Primitive → Json → Bool
  | .string, .string _ => true
  | .format _, .string _ => true
  | .number, .integer _ => true
  | .number, .float _ => true
  | .integer, value => value.isIntegral
  | .boolean, .bool _ => true
  | .null, .null => true
  | .any, _ => true
  | _, _ => false

/-- The measure of the type, unless it takes no clause. -/
def measure? : Primitive → Option Measure
  | .string => some .length
  | .format _ => some .length
  | .number => some .value
  | .integer => some .value
  | .boolean => none
  | .null => none
  | .any => none

/-- Whether null is a value of the type. -/
def acceptsNull : Primitive → Bool
  | .null => true
  | .any => true
  | _ => false

end Primitive

namespace BaseType

/-- The name of the type. -/
def name : BaseType → String
  | .primitive p => p.name
  | .object => "object"
  | .array => "array"

/-- Whether the JSON type of the value fits. -/
def fits : BaseType → Json → Bool
  | .primitive p, value => p.fits value
  | .object, .object _ => true
  | .array, .array _ => true
  | _, _ => false

/-- The measure of the type, unless it takes no clause. -/
def measure? : BaseType → Option Measure
  | .primitive p => p.measure?
  | .object => some .properties
  | .array => some .items

/-- Whether null is a value of the type. -/
def acceptsNull : BaseType → Bool
  | .primitive p => p.acceptsNull
  | _ => false

/-- The built-in names of types, with their aliases. -/
def builtin : Members BaseType :=
  [("string", .primitive .string),
   ("str", .primitive .string),
   ("number", .primitive .number),
   ("integer", .primitive .integer),
   ("int", .primitive .integer),
   ("boolean", .primitive .boolean),
   ("bool", .primitive .boolean),
   ("object", .object),
   ("array", .array),
   ("null", .primitive .null),
   ("any", .primitive .any),
   ("email", .primitive (.format .email)),
   ("url", .primitive (.format .url)),
   ("uri", .primitive (.format .url)),
   ("uuid", .primitive (.format .uuid)),
   ("date", .primitive (.format .date)),
   ("datetime", .primitive (.format .dateTime)),
   ("date-time", .primitive (.format .dateTime)),
   ("time", .primitive (.format .time)),
   ("ipv4", .primitive (.format .ipv4)),
   ("ipv6", .primitive (.format .ipv6)),
   ("hostname", .primitive (.format .hostname)),
   ("slug", .primitive (.format .slug)),
   ("alphanum", .primitive (.format .alphanum)),
   ("hexColor", .primitive (.format .hexColor)),
   ("hexcolor", .primitive (.format .hexColor)),
   ("objectId", .primitive (.format .objectId)),
   ("objectid", .primitive (.format .objectId))]

/-- The type with a built-in name; names are case-sensitive. -/
def ofName? (name : String) : Option BaseType := Members.valueOf? builtin name

end BaseType

namespace Measure

/-- The name of the measure. -/
def name : Measure → String
  | .length => "length"
  | .value => "value"
  | .items => "items"
  | .properties => "properties"

/-- The measure of a value that has it: code points, the number, items or
    properties. -/
def of? : Measure → Json → Option Binary64
  | .length, .string text => some (.ofNat text.length)
  | .value, v => v.asBinary64?
  | .items, .array elements => some (.ofNat elements.length)
  | .properties, .object members => some (.ofNat members.length)
  | _, _ => none

end Measure

end Conform
