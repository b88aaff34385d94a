import Conform.Chain.Call
import Conform.Schema.Node

/-! # Specifications — what a tree is compiled from

    A specification is a text of the specification language, a literal made of
    objects and one-element arrays, a field with its own checks and wording, a
    ready tree, a branch on a field of the record, or a chain.  Any other JSON
    value is kept, to be refused when it is compiled. -/

namespace Conform

/-- A text of the specification language, extended by checks and wording that
    it has no form for. -/
structure FieldSpec where
  base : String
  label : Option String := none
  description : Option String := none
  pattern : Option String := none
  messages : Members String := []
  customs : List Custom := []
  required : Option Bool := none

/-- A specification. -/
inductive Spec where
  | text (source : String)
  | object (fields : List (String × Spec))
  | array (items : Spec)
  | field (field : FieldSpec)
  | node (node : Node)
  | matching (reference : String) (cases : List (String × Spec))
  | switch (field : String) (yes : Spec) (no : Option Spec)
  | chain (chain : Except ChainFault (Chain Spec))
  | unsupported (value : Json)

/-- The value that selects a case. -/
inductive CaseKey where
  | text (text : String)
  | flag (value : Bool)
  | whole (value : Int)
  | number (value : Binary64)

/-- The text of a case: values of the record are compared by the same text. -/
def CaseKey.caseText : CaseKey → String
  | .text name => name
  | .flag value => if value then "true" else "false"
  | .whole value => toString value
  | .number value => value.caseText

namespace Spec

mutual

/-- The specification that a JSON value writes. -/
def ofJson : Json → Spec
  | .string source => .text source
  | .object members => .object (ofMembers members)
  | .array items => ofItems items
  | value => .unsupported value
termination_by structural value => value

/-- The specifications of the members of an object. -/
def ofMembers : List (String × Json) → List (String × Spec)
  | [] => []
  | (name, value) :: rest => (name, ofJson value) :: ofMembers rest
termination_by structural members => members

/-- The specification of an array: only one element makes one. -/
def ofItems : List Json → Spec
  | [item] => .array (ofJson item)
  | items => .unsupported (.array items)
termination_by structural items => items

end

/-- An object specification; of two fields with one name the later counts, at
    the earlier place. -/
def ofFields (fields : List (String × Spec)) : Spec := .object (Members.merge [] fields)

/-- A branch by the text of a field. -/
def byCase (reference : String) (cases : List (CaseKey × Spec)) : Spec :=
  .matching reference (cases.map fun case => (case.1.caseText, case.2))

/-- A branch by a sequence of calls. -/
def byCalls (calls : List (Chain.Call Spec)) : Spec := .chain (Chain.ofCalls calls)

end Spec

namespace FieldSpec

/-- Whether a type takes a pattern. -/
def takesPattern : Primitive → Bool
  | .string => true
  | .format _ => true
  | .any => true
  | _ => false

/-- The fault of a pattern on a node, if it may not stand there. -/
def patternFault? : Node → Option GrammarFault
  | .leaf type _ => if takesPattern type then none else some (.patternOn type.name)
  | .object _ _ => some (.patternOn BaseType.object.name)
  | .array _ _ => some (.patternOn BaseType.array.name)
  | _ => some .patternOnCompound

/-- A node with the pattern, if one is asked for. -/
def withPattern (path : String) (pattern : Option String) (node : Node) : Except Error Node :=
  match pattern with
  | none => .ok node
  | some source =>
      match patternFault? node with
      | some fault => .error (.grammar path source fault)
      | none =>
          match Regex.ofText? source with
          | none => .error (.grammar path source .malformedPattern)
          | some regex =>
              .ok (node.mapFacets fun facets => { facets with pattern := some ⟨source, regex⟩ })

/-- The facets with the wording and the custom checks of the field. -/
def extend (field : FieldSpec) (facets : Facets) : Facets :=
  { facets with
    required := field.required.getD facets.required
    label := field.label <|> facets.label
    description := field.description <|> facets.description
    messages := Members.merge facets.messages field.messages
    customs := facets.customs ++ field.customs }

/-- The node of the base text, extended as the field says. -/
def dress (path : String) (field : FieldSpec) (node : Node) : Except Error Node :=
  (fun node => node.mapFacets field.extend) <$> withPattern path field.pattern node

end FieldSpec

end Conform
