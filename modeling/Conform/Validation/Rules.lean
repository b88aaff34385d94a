import Conform.Message.Catalog
import Conform.Place
import Conform.Error
import Conform.Validation.Own

/-! # Rules — how refusals are worded and kept

    A validation keeps a list of slots in the order of the document.  A slot is
    an error, or a suspended check that is not yet decided.  Once errors end the
    validation early and there is one, the list is full and takes nothing more.

    An error is worded by the message service under a key: the keyword's own,
    unless the node has another for it.  The service also gets the label; the
    error keeps the other parameters. -/

namespace Conform

/-- Whether suspended checks are waited for. -/
inductive Mode where
  | immediate
  | suspending
deriving DecidableEq

/-- What a validation is done with. -/
structure Rules where
  config : Config
  service : MessageService

/-- A suspended check that is not yet decided. -/
structure Undecided where
  place : String
  label : String
  message : Option String
  check : Json → Task (Option String)
  value : Json

/-- An error, or a check that may become one. -/
inductive Slot where
  | ready (error : FieldError)
  | undecided (check : Undecided)

namespace Slot

/-- Whether the slot is an error. -/
def isReady : Slot → Bool
  | .ready _ => true
  | .undecided _ => false

/-- The error in the slot. -/
def error? : Slot → Option FieldError
  | .ready error => some error
  | .undecided _ => none

end Slot

/-- Whether some slot is an error. -/
def hasErrors (slots : List Slot) : Bool := slots.any Slot.isReady

/-- The errors among the slots. -/
def readyErrors (slots : List Slot) : List FieldError := slots.filterMap Slot.error?

namespace Rules

/-- Whether nothing more is taken. -/
def isFull (rules : Rules) (slots : List Slot) : Bool := rules.config.abortEarly && hasErrors slots

/-- Adds a slot at the end, unless nothing more is taken. -/
def add (rules : Rules) (slots : List Slot) (slot : Slot) : List Slot :=
  if rules.isFull slots then slots else slots ++ [slot]

/-- Adds slots one by one. -/
def addAll (rules : Rules) (slots more : List Slot) : List Slot := more.foldl rules.add slots

/-! ## Wording -/

/-- An error worded under a key. -/
def error (rules : Rules) (place keyword key : String) (params : Members Json) (label : String) :
    FieldError :=
  { place := place
    message := rules.service.message key (Members.put params "label" (.string label))
      rules.config.locale
    keyword := keyword
    params := params }

/-- An error of a node under a key. -/
def errorOf (rules : Rules) (node : Node) (place : Place) (keyword key : String)
    (params : Members Json) : FieldError :=
  rules.error place.text keyword key params (node.labelAt place.text)

/-- An error of a node under the node's key for the keyword, else the given one. -/
def keyedError (rules : Rules) (node : Node) (place : Place) (keyword key : String)
    (params : Members Json) : FieldError :=
  rules.errorOf node place keyword ((Members.valueOf? node.facets.messages keyword).getD key) params

/-- The error for a missing value. -/
def missing (rules : Rules) (node : Node) (place : Place) : FieldError :=
  rules.keyedError node place "required" "required" []

/-- The error for a value of another type. -/
def wrongType (rules : Rules) (node : Node) (place : Place) : FieldError :=
  rules.keyedError node place "type" "type" [("type", .string node.base.name)]

/-- The error for a value of none of the types of a union. -/
def noMember (rules : Rules) (node : Node) (place : Place) (members : List Node) : FieldError :=
  rules.keyedError node place "type" "union"
    [("types", .string (Text.joinWith ", " (Node.typeTexts members)))]

/-- The first part of the key for a clause on a measure. -/
def measureKey : Measure → String
  | .length => "string"
  | .value => "number"
  | .items => "array"
  | .properties => "object"

/-- Whether errors of the breach say if the limit itself is allowed. -/
def namesEnd : Breach → Bool
  | .least _ _ => true
  | .most _ _ => true
  | _ => false

/-- The parameters of a breach. -/
def breachParams (breach : Breach) : Members Json :=
  ("limit", Json.ofNumber breach.limit)
    :: if namesEnd breach then [("exclusive", .bool breach.exclusive)] else []

/-- The error for a broken own check. -/
def broken (rules : Rules) (node : Node) (place : Place) : OwnFault → FieldError
  | .format format =>
      rules.keyedError node place "format" "format" [("format", .string format.name)]
  | .choices =>
      rules.keyedError node place "enum" "enum"
        [("allowed", .string (Text.joinWith ", " (node.facets.choices.map Literal.text))),
         ("values", .array (node.facets.choices.map Literal.toJson))]
  | .clause measure breach =>
      rules.keyedError node place breach.keyword (measureKey measure ++ "." ++ breach.rule)
        (breachParams breach)
  | .pattern source =>
      rules.keyedError node place "pattern" "pattern" [("pattern", .string source)]

/-- The error for a member that the schema does not name. -/
def unknown (rules : Rules) (place : Place) : FieldError :=
  rules.error place.text "unknown" "unknown" [] place.text

/-- The label where no node gives one. -/
def bareLabel (place : Place) : String := if place.isRoot then "value" else place.text

/-- The error for a failing entry of a chain; `holder` is the node of the chain,
    if the chain belongs to one. -/
def failing (rules : Rules) (holder : Option Node) (place : Place) (message : String) : FieldError :=
  rules.error place.text "conditional" message []
    (match holder with
      | some node => node.labelAt place.text
      | none => bareLabel place)

/-- The key for an objection: that of the node, if it has one; else the text of
    the objection; a text without characters stands for the general key. -/
def objectionKey (message : Option String) (text : String) : String :=
  match message with
  | some key => key
  | none => if text = "" then "custom" else text

/-- The key of a node for all its objections. -/
def customKey? (node : Node) : Option String := Members.valueOf? node.facets.messages "custom"

/-- The error for an objection. -/
def objection (rules : Rules) (node : Node) (place : Place) (text : String) : FieldError :=
  rules.errorOf node place "custom" (objectionKey (customKey? node) text) []

/-- The error for an objection that a suspended check came to. -/
def lateObjection (rules : Rules) (check : Undecided) (text : String) : FieldError :=
  rules.error check.place "custom" (objectionKey check.message text) [] check.label

/-- A suspended check of a node, not yet decided. -/
def undecided (node : Node) (place : Place) (value : Json)
    (check : Json → Task (Option String)) : Undecided :=
  ⟨place.text, node.labelAt place.text, customKey? node, check, value⟩

end Rules

end Conform
