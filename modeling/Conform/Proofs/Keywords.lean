import Conform.Json
import Conform.Schema.BaseType
import Conform.Proofs.Throughout

/-! # Keywords — what a JSON Schema asks of a value

    A schema is an object of keywords, and a value is accepted when every keyword
    accepts it.  Numbers are compared as doubles; a keyword whose argument is of a
    wrong JSON type asks for nothing, and neither does a keyword with another name,
    such as a title.

    Three keywords have schemas for arguments: `properties`, `items` and `anyOf`. -/

namespace Conform

namespace Format

/-- The formats that the keyword `format` has names for. -/
def named : List Format :=
  [.email, .url, .uuid, .date, .dateTime, .time, .ipv4, .ipv6, .hostname]

/-- The format with a name in exported schemas. -/
def ofExported? (name : String) : Option Format :=
  named.find? fun format => format.exportedFormat? == some name

end Format

namespace Json

open Binary64 (le lt)

/-! ## Keywords by themselves -/

/-- Equality of values, numbers compared as doubles. -/
def equals (one other : Json) : Bool :=
  match one.asBinary64?, other.asBinary64? with
  | some x, some y => Binary64.eq x y
  | none, none => same one other
  | _, _ => false

/-- The types that schemas have names for. -/
def types : Members (Json → Bool) :=
  [("string", Json.isString),
   ("number", fun value => value.asBinary64?.isSome),
   ("integer", Json.isIntegral),
   ("boolean", fun value => match value with | .bool _ => true | _ => false),
   ("null", Json.isNull),
   ("object", fun value => match value with | .object _ => true | _ => false),
   ("array", fun value => match value with | .array _ => true | _ => false)]

/-- Whether the value is of the type; a type without a name has no values. -/
def hasType (argument value : Json) : Bool :=
  match argument with
  | .string name => ((Members.valueOf? types name).map fun test => test value).getD false
  | _ => true

/-- Whether a string is of the format; a format without a name asks for nothing. -/
def hasFormat (argument value : Json) : Bool :=
  match argument, value with
  | .string name, .string text =>
      ((Format.ofExported? name).map fun format => format.accepts text).getD true
  | _, _ => true

/-- Whether the pattern matches somewhere in a string. -/
def hasPattern (argument value : Json) : Bool :=
  match argument, value with
  | .string source, .string text =>
      ((Regex.ofText? source).map fun regex => regex.accepts text).getD true
  | _, _ => true

/-- Whether the value is one of those listed. -/
def isListed (argument value : Json) : Bool :=
  match argument with
  | .array choices => choices.any fun choice => choice.equals value
  | _ => true

/-- Whether the limit and the measured value are related, if there are both. -/
def compares (related : Binary64 → Binary64 → Bool) (measure : Measure) (argument value : Json) :
    Bool :=
  match argument.asBinary64?, measure.of? value with
  | some limit, some measured => related limit measured
  | _, _ => true

/-- Whether an object has all the names. -/
def hasNames (argument value : Json) : Bool :=
  match argument, value with
  | .array names, .object members =>
      names.all fun name => match name with | .string text => Members.hasName members text | _ => true
  | _, _ => true

/-- The keywords whose arguments are no schemas. -/
def keywords : Members (Json → Json → Bool) :=
  [("type", hasType), ("format", hasFormat), ("pattern", hasPattern), ("enum", isListed),
   ("const", equals),
   ("minLength", compares le .length), ("maxLength", compares (fun limit x => le x limit) .length),
   ("minItems", compares le .items), ("maxItems", compares (fun limit x => le x limit) .items),
   ("minProperties", compares le .properties),
   ("maxProperties", compares (fun limit x => le x limit) .properties),
   ("minimum", compares le .value), ("maximum", compares (fun limit x => le x limit) .value),
   ("exclusiveMinimum", compares lt .value),
   ("exclusiveMaximum", compares (fun limit x => lt x limit) .value),
   ("required", hasNames)]

/-- Whether the value passes a keyword whose argument is no schema. -/
def passes (name : String) (argument value : Json) : Bool :=
  ((Members.valueOf? keywords name).map fun test => test argument value).getD true

/-! ## Schemas -/

/-- Whether every item passes a test; only arrays have items. -/
def eachItem (test : Json → Bool) : Json → Bool
  | .array items => items.all test
  | _ => true

/-- Whether the member of a name passes a test, if it is there. -/
def memberIf (test : Json → Bool) (value : Json) (name : String) : Bool :=
  ((value.member? name).map test).getD true

mutual

/-- Whether the schema accepts the value. -/
def accepts : Json → Json → Bool
  | .object schema, value => allAccept schema value
  | .bool answer, _ => answer
  | _, _ => true
termination_by structural schema => schema

/-- Whether all the keywords accept the value. -/
def allAccept : List (String × Json) → Json → Bool
  | [], _ => true
  | (name, argument) :: rest, value =>
      passes name argument value
        && (if name = "properties" then propertiesAccept argument value
          else if name = "items" then eachItem (accepts argument) value
          else if name = "anyOf" then anyAccepts argument value
          else true)
        && allAccept rest value
termination_by structural schema => schema

/-- Whether the schemas under names accept the members of these names. -/
def propertiesAccept : Json → Json → Bool
  | .object schemas, value => eachAccepts schemas value
  | _, _ => true
termination_by structural argument => argument

/-- Whether each schema accepts the member of its name. -/
def eachAccepts : List (String × Json) → Json → Bool
  | [], _ => true
  | (name, schema) :: rest, value =>
      memberIf (accepts schema) value name && eachAccepts rest value
termination_by structural schemas => schemas

/-- Whether some of the listed schemas accepts the value. -/
def anyAccepts : Json → Json → Bool
  | .array schemas, value => someAccepts schemas value
  | _, _ => true
termination_by structural argument => argument

/-- Whether some schema accepts the value. -/
def someAccepts : List Json → Json → Bool
  | [], _ => false
  | schema :: rest, value => accepts schema value || someAccepts rest value
termination_by structural schemas => schemas

end

/-- Whether a keyword accepts the value. -/
def keywordAccepts (keyword : String × Json) (value : Json) : Bool :=
  passes keyword.1 keyword.2 value
    && (if keyword.1 = "properties" then propertiesAccept keyword.2 value
      else if keyword.1 = "items" then eachItem (accepts keyword.2) value
      else if keyword.1 = "anyOf" then anyAccepts keyword.2 value
      else true)

/-- A schema accepts what each of its keywords accepts. -/
theorem accepts_object (schema : Members Json) (value : Json) :
    accepts (.object schema) value = schema.all fun keyword => keywordAccepts keyword value := by
  show allAccept schema value = _
  induction schema with
  | nil => rfl
  | cons keyword rest ih =>
      rw [List.all_cons, ← ih]
      rfl

/-- All properties have to be accepted, as far as they are there. -/
theorem eachAccepts_eq_all (schemas : Members Json) (value : Json) :
    eachAccepts schemas value
      = schemas.all fun entry => memberIf (accepts entry.2) value entry.1 := by
  induction schemas with
  | nil => rfl
  | cons entry rest ih =>
      rw [List.all_cons, ← ih]
      rfl

/-- Some schema has to accept the value. -/
theorem someAccepts_eq_any (schemas : List Json) (value : Json) :
    someAccepts schemas value = schemas.any fun schema => accepts schema value := by
  induction schemas with
  | nil => rfl
  | cons schema rest ih =>
      rw [List.any_cons, ← ih]
      rfl

/-! ## Single keywords -/

section

variable (argument value : Json)

/-- The keyword `type` asks for a type; the next ones are the other keywords, each of which asks
    for one thing. -/
@[simp] theorem keywordAccepts_type :
    keywordAccepts ("type", argument) value = hasType argument value := Bool.and_true _

@[simp] theorem keywordAccepts_format :
    keywordAccepts ("format", argument) value = hasFormat argument value := Bool.and_true _

@[simp] theorem keywordAccepts_pattern :
    keywordAccepts ("pattern", argument) value = hasPattern argument value := Bool.and_true _

@[simp] theorem keywordAccepts_enum :
    keywordAccepts ("enum", argument) value = isListed argument value := Bool.and_true _

@[simp] theorem keywordAccepts_const :
    keywordAccepts ("const", argument) value = argument.equals value := Bool.and_true _

@[simp] theorem keywordAccepts_required :
    keywordAccepts ("required", argument) value = hasNames argument value := Bool.and_true _

@[simp] theorem keywordAccepts_properties :
    keywordAccepts ("properties", argument) value = propertiesAccept argument value := rfl

@[simp] theorem keywordAccepts_items :
    keywordAccepts ("items", argument) value = eachItem (accepts argument) value := rfl

@[simp] theorem keywordAccepts_anyOf :
    keywordAccepts ("anyOf", argument) value = anyAccepts argument value := rfl

/-- A title says nothing about the value. -/
@[simp] theorem keywordAccepts_title : keywordAccepts ("title", argument) value = true := rfl

/-- A description asks for nothing. -/
@[simp] theorem keywordAccepts_description : keywordAccepts ("description", argument) value = true := rfl

end

end Json

end Conform
