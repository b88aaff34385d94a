import Conform.Schema.Node

/-! # Export — trees as JSON Schema

    A node becomes a JSON Schema object whose members come in a fixed order:
    type, format, pattern of the format, choices, the bounds of the clause, the
    node's own pattern, parts, title, description.  Each keyword is written
    once; a pattern of the node takes the place of the pattern of its format.

    Counts are whole, so a strict bound on a count is the next bound that is not
    strict.  Branches have no counterpart in JSON Schema: they are written under
    keywords of their own, which begin with `x-`. -/

namespace Conform

namespace Export

/-- The keywords of the least and the greatest measure. -/
def keywords : Measure → String × String
  | .length => ("minLength", "maxLength")
  | .value => ("minimum", "maximum")
  | .items => ("minItems", "maxItems")
  | .properties => ("minProperties", "maxProperties")

/-- A keyword with a number. -/
def bound (keyword : String) (limit : Binary64) : Members Json := [(keyword, .ofNumber limit)]

/-- A keyword with a number, if there is one. -/
def bound? (keyword : String) : Option Binary64 → Members Json
  | none => []
  | some limit => bound keyword limit

/-- The keywords of a clause on a number. -/
def valueClause : Clause → Members Json
  | .range least most => bound? "minimum" least ++ bound? "maximum" most
  | .above limit => bound "exclusiveMinimum" limit
  | .atLeast limit => bound "minimum" limit
  | .below limit => bound "exclusiveMaximum" limit
  | .atMost limit => bound "maximum" limit
  | .equalTo limit => bound "const" limit
  | .exactly count => bound "minimum" (.ofNat count) ++ bound "maximum" (.ofNat count)

/-- The keywords of a clause on a count. -/
def countClause (least most : String) : Clause → Members Json
  | .range lower upper => bound? least lower ++ bound? most upper
  | .above limit => bound least limit.increment
  | .atLeast limit => bound least limit
  | .below limit => bound most limit.decrement.atLeastZero
  | .atMost limit => bound most limit
  | .equalTo limit => bound least limit ++ bound most limit
  | .exactly count => bound least (.ofNat count) ++ bound most (.ofNat count)

/-- The keywords of a clause on a measure. -/
def clause (measure : Measure) (bounds : Clause) : Members Json :=
  if measure = .value then valueClause bounds
  else countClause (keywords measure).1 (keywords measure).2 bounds

/-- The keywords of a base type. -/
def typeKeywords : BaseType → Members Json
  | .primitive .any => []
  | .primitive (.format format) =>
      [("type", Json.string "string")]
        ++ (format.exportedFormat?.map fun name => ("format", Json.string name)).toList
        ++ (format.exportedPattern?.map fun source => ("pattern", Json.string source)).toList
  | base => [("type", .string base.name)]

/-- The keyword of the choices, if there are any. -/
def choices (literals : List Literal) : Members Json :=
  if literals.isEmpty then [] else [("enum", .array (literals.map Literal.toJson))]

/-- The keywords of the clause, if there is one and the type has a measure. -/
def clauseKeywords (base : BaseType) (bounds : Option Clause) : Members Json :=
  match bounds, base.measure? with
  | some bounds, some measure => clause measure bounds
  | _, _ => []

/-- The members with the pattern of the node, if it has one. -/
def putPattern (pattern : Option Pattern) (members : Members Json) : Members Json :=
  match pattern with
  | none => members
  | some pattern => Members.put members "pattern" (.string pattern.source)

/-- The keywords of a node by itself. -/
def own (base : BaseType) (facets : Facets) : Members Json :=
  putPattern facets.pattern
    (typeKeywords base ++ choices facets.choices ++ clauseKeywords base facets.clause)

/-- A keyword with a text, if there is one. -/
def putText (keyword : String) (text : Option String) (members : Members Json) : Members Json :=
  match text with
  | none => members
  | some text => Members.put members keyword (.string text)

/-- The object of a node: its keywords, then its wording. -/
def finish (facets : Facets) (members : Members Json) : Json :=
  .object (putText "description" facets.description (putText "title" facets.label members))

/-- The names of the fields that must be present. -/
def requiredNames (fields : List (String × Node)) : List Json :=
  (fields.filter fun field => field.2.facets.required).map fun field => .string field.1

/-- The keywords of the fields of an object, if there are any. -/
def fieldKeywords (fields : List (String × Node)) (properties : Members Json) : Members Json :=
  if fields.isEmpty then []
  else
    ("properties", .object properties)
      :: if (requiredNames fields).isEmpty then [] else [("required", .array (requiredNames fields))]

end Export

namespace Node

open Export

mutual

/-- The JSON Schema of a node. -/
def toJsonSchema : Node → Json
  | .leaf type facets => finish facets (own (.primitive type) facets)
  | .object facets fields =>
      finish facets (own .object facets ++ fieldKeywords fields (schemasByName fields))
  | .array facets none => finish facets (own .array facets)
  | .array facets (some items) =>
      finish facets (own .array facets ++ [("items", toJsonSchema items)])
  | .union facets members => finish facets [("anyOf", .array (schemas members))]
  | .matching facets reference cases =>
      finish facets [("x-match", .string reference), ("x-cases", .object (schemasByName cases))]
  | .switch facets field yes none =>
      finish facets [("x-if", .string field), ("then", toJsonSchema yes)]
  | .switch facets field yes (some no) =>
      finish facets
        [("x-if", .string field), ("then", toJsonSchema yes), ("else", toJsonSchema no)]
  | .chain facets ⟨entries, fallback⟩ =>
      let arms := entrySchemas entries ++ fallbackSchemas fallback
      finish facets
        (("x-conditional", .bool true) :: if arms.isEmpty then [] else [("anyOf", .array arms)])
termination_by structural node => node

/-- The schemas of named nodes. -/
def schemasByName : List (String × Node) → Members Json
  | [] => []
  | (name, node) :: rest => (name, toJsonSchema node) :: schemasByName rest
termination_by structural nodes => nodes

/-- The schemas of nodes. -/
def schemas : List Node → List Json
  | [] => []
  | node :: rest => toJsonSchema node :: schemas rest
termination_by structural nodes => nodes

/-- The schemas of the targets of the entries of a chain. -/
def entrySchemas : List (Chain.Entry Node) → List Json
  | [] => []
  | ⟨_, _, target, _, _⟩ :: rest => targetSchemas target ++ entrySchemas rest
termination_by structural entries => entries

/-- The schema of the target of an entry, if it has one. -/
def targetSchemas : Option Node → List Json
  | none => []
  | some node => [toJsonSchema node]
termination_by structural target => target

/-- The schema of the target of a fallback, if it has one. -/
def fallbackSchemas : Chain.Fallback Node → List Json
  | .undefined => []
  | .nothing => []
  | .target node => [toJsonSchema node]
termination_by structural fallback => fallback

end

end Node

end Conform
