import Conform.Chain
import Conform.Schema.Clause
import Conform.Schema.Literal

/-! # Nodes — the tree of constraints

    A node says what one value must be.  Its facets are its own checks and
    wording; its form says which parts the value has and what they must be, or
    how the node that applies is chosen: by trying the members of a union, by
    the text or truth of a field of the record around the value, or by a chain.

    The forms fix their base types: only a leaf has a choice of one. -/

namespace Conform

/-- A pattern with the text it was read from. -/
structure Pattern where
  source : String
  regex : Regex

/-- A check given from outside, immediate or suspended.  It yields the text of
    its objection, if it has one. -/
inductive CustomCheck where
  | immediate (check : Json → Noted (Option String))
  | suspended (check : Json → Task (Option String))

/-- A custom check.  The serial number is its identity. -/
structure Custom where
  serial : Nat
  check : CustomCheck

/-- Whether the check is suspended. -/
def Custom.isSuspended (custom : Custom) : Bool :=
  match custom.check with
  | .immediate _ => false
  | .suspended _ => true

/-- The checks and the wording that a node has of its own.  `messages` holds a
    message key for each keyword that has one. -/
structure Facets where
  required : Bool := false
  clause : Option Clause := none
  choices : List Literal := []
  pattern : Option Pattern := none
  label : Option String := none
  description : Option String := none
  messages : Members String := []
  customs : List Custom := []

/-- A constraint on one value. -/
inductive Node where
  | leaf (type : Primitive) (facets : Facets)
  | object (facets : Facets) (fields : List (String × Node))
  | array (facets : Facets) (items : Option Node)
  | union (facets : Facets) (members : List Node)
  | matching (facets : Facets) (reference : String) (cases : List (String × Node))
  | switch (facets : Facets) (field : String) (yes : Node) (no : Option Node)
  | chain (facets : Facets) (body : Chain Node)

namespace Node

instance : Inhabited Node := ⟨.leaf .any {}⟩

/-- The node of a type without any further constraint. -/
def ofType : BaseType → Node
  | .primitive p => .leaf p {}
  | .object => .object {} []
  | .array => .array {} none

/-- The base type. -/
def base : Node → BaseType
  | .leaf type _ => .primitive type
  | .object _ _ => .object
  | .array _ _ => .array
  | _ => .primitive .any

/-- The name of the form. -/
def form : Node → String
  | .leaf _ _ => "primitive"
  | .object _ _ => "object"
  | .array _ _ => "array"
  | .union _ _ => "union"
  | _ => "conditional"

/-- The node's own checks and wording. -/
def facets : Node → Facets
  | .leaf _ facets => facets
  | .object facets _ => facets
  | .array facets _ => facets
  | .union facets _ => facets
  | .matching facets _ _ => facets
  | .switch facets _ _ _ => facets
  | .chain facets _ => facets

/-- Changes the node's own checks and wording. -/
def mapFacets (f : Facets → Facets) : Node → Node
  | .leaf type facets => .leaf type (f facets)
  | .object facets fields => .object (f facets) fields
  | .array facets items => .array (f facets) items
  | .union facets members => .union (f facets) members
  | .matching facets reference cases => .matching (f facets) reference cases
  | .switch facets field yes no => .switch (f facets) field yes no
  | .chain facets body => .chain (f facets) body

/-- The facets are changed, whatever kind of node it is. -/
@[simp] theorem facets_mapFacets (f : Facets → Facets) (node : Node) :
    (node.mapFacets f).facets = f node.facets := by
  cases node <;> rfl

/-- The type of a node is none of its facets. -/
@[simp] theorem base_mapFacets (f : Facets → Facets) (node : Node) :
    (node.mapFacets f).base = node.base := by
  cases node <;> rfl

/-- Sets whether a value must be present. -/
def withRequired (required : Bool) (node : Node) : Node :=
  node.mapFacets fun facets => { facets with required := required }

/-- The label in messages: the node's own, else the place, else `value`. -/
def labelAt (node : Node) (place : String) : String :=
  match node.facets.label with
  | some label => label
  | none => if place = "" then "value" else place

mutual

/-- Whether null is checked as a value rather than taken for an absent one. -/
def acceptsNull : Node → Bool
  | .leaf type _ => type.acceptsNull
  | .object _ _ => false
  | .array _ _ => false
  | .union _ members => someAcceptsNull members
  | .matching _ _ _ => true
  | .switch _ _ _ _ => true
  | .chain _ _ => true
termination_by structural node => node

/-- Whether some member accepts null. -/
def someAcceptsNull : List Node → Bool
  | [] => false
  | node :: rest => acceptsNull node || someAcceptsNull rest
termination_by structural members => members

end

theorem someAcceptsNull_eq_any (members : List Node) :
    someAcceptsNull members = (members.map acceptsNull).any id := by
  induction members with
  | nil => rfl
  | cons node rest ih =>
      show (node.acceptsNull || someAcceptsNull rest) = _
      rw [ih, List.map_cons, List.any_cons, id]

mutual

/-- Whether the base type fits the value: of a union that of some member, and
    of a branch always. -/
def fits (value : Json) : Node → Bool
  | .leaf type _ => type.fits value
  | .object _ _ => BaseType.object.fits value
  | .array _ _ => BaseType.array.fits value
  | .union _ members => someFits value members
  | .matching _ _ _ => true
  | .switch _ _ _ _ => true
  | .chain _ _ => true
termination_by structural node => node

/-- Whether the base type of some member fits the value. -/
def someFits (value : Json) : List Node → Bool
  | [] => false
  | node :: rest => fits value node || someFits value rest
termination_by structural members => members

end

mutual

/-- The types that a node stands for, as a message lists them. -/
def typeText : Node → String
  | .leaf type _ => type.name
  | .object _ _ => "object"
  | .array _ _ => "array"
  | .union _ members => " | ".intercalate (typeTexts members)
  | .matching _ _ _ => "any"
  | .switch _ _ _ _ => "any"
  | .chain _ _ => "any"
termination_by structural node => node

/-- The types that each of the nodes stands for. -/
def typeTexts : List Node → List String
  | [] => []
  | node :: rest => typeText node :: typeTexts rest
termination_by structural members => members

end

end Node

end Conform
