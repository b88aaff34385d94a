import Conform.Dsl.Numeral
import Conform.Schema.Literal
import Conform.Schema.BaseType
import Conform.Text.Split

/-! # Choices of the specification language

    Choices are members with bars between them, `1|2|3`.  All are of one type:
    the type that was asked for, else boolean if every member is `true` or
    `false`, else number if every member is a numeral, else string. -/

namespace Conform.Dsl

open Conform.Text (Chars pieces trim)

/-- The types that choices can have. -/
inductive ChoiceType where
  | string
  | number
  | integer
  | boolean
deriving DecidableEq

namespace ChoiceType

/-- The type with a name. -/
def ofName? (name : String) : Option ChoiceType :=
  Members.valueOf?
    [("string", .string), ("str", .string), ("number", .number), ("integer", .integer),
     ("int", .integer), ("boolean", .boolean), ("bool", .boolean)] name

/-- The type of the choices that a base type takes. -/
def ofBase? : BaseType → Option ChoiceType
  | .primitive .string => some .string
  | .primitive (.format _) => some .string
  | .primitive .number => some .number
  | .primitive .integer => some .integer
  | .primitive .boolean => some .boolean
  | _ => none

/-- The choice type as a type of values. -/
def primitive : ChoiceType → Primitive
  | .string => .string
  | .number => .number
  | .integer => .integer
  | .boolean => .boolean

end ChoiceType

/-- The value of a boolean member. -/
def booleanMember? (member : Chars) : Option Bool :=
  if String.ofList member = "true" then some true
  else if String.ofList member = "false" then some false
  else none

/-- A member as a literal of the type. -/
def choiceOf (type : ChoiceType) (member : Chars) : Except Fault Literal :=
  match type with
  | .string => .ok (.string (String.ofList member))
  | .boolean =>
      match booleanMember? member with
      | some value => .ok (.boolean value)
      | none => .error ⟨member, .notBoolean⟩
  | .number =>
      match (numeral? member).bind Numeral.toBinary64? with
      | some value => .ok (.number value)
      | none => .error ⟨member, .notNumeric⟩
  | .integer =>
      match (numeral? member).bind Numeral.toBinary64? with
      | some value =>
          if value.isIntegral then .ok (.number value) else .error ⟨member, .notInteger⟩
      | none => .error ⟨member, .notNumeric⟩

/-- The literals of the members; the first member that has none is at fault. -/
def choicesFrom (type : ChoiceType) : List Chars → Except Fault (List Literal)
  | [] => .ok []
  | member :: rest => do
      let literal ← choiceOf type member
      let literals ← choicesFrom type rest
      return literal :: literals

/-- The first fault in the form of the members; `body` is the whole list as
    written. -/
def memberFault? (body : Chars) : List Chars → Option Fault
  | [] => none
  | member :: rest =>
      if member.isEmpty then some ⟨body, .emptyEnumMember⟩
      else if member.any fun c => c = '<' || c = '>' || c = '=' then
        some ⟨member, .operatorInEnum⟩
      else memberFault? body rest

/-- The type that the members agree on. -/
def commonType (members : List Chars) : ChoiceType :=
  if members.all fun member => (booleanMember? member).isSome then .boolean
  else if members.all fun member => (numeral? member).isSome then .number
  else .string

/-- The type and the literals of a list of choices; the hint says which type is
    asked for. -/
def choicesOf (hint : Option ChoiceType) (body : Chars) :
    Except Fault (ChoiceType × List Literal) :=
  let members := (pieces '|' body).map trim
  if members.length < 2 then .error ⟨body, .fewEnumMembers⟩
  else
    match memberFault? body members with
    | some fault => .error fault
    | none => do
        let type := hint.getD (commonType members)
        let literals ← choicesFrom type members
        return (type, literals)

end Conform.Dsl
