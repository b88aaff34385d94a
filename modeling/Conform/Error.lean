import Conform.Json.Syntax
import Conform.Json.Printer
import Conform.Text.Escaped
import Conform.Text.Split

/-! # Errors

    Four groups of errors arise: a specification does not compile, a value is
    refused, a suspended check is met where nothing can wait for it, and a
    configuration cannot be read.  Each error is a cause; its wording is a
    function of the cause. -/

namespace Conform

/-! ## Specifications -/

/-- Why a text is no specification. -/
inductive GrammarFault where
  | emptySpecification
  | repeatedMark
  | missingBody
  | enumOn (typeName : String)
  | clauseOn (typeName : String)
  | unclosedBracket
  | unbalancedBracket
  | fewMembers
  | malformedTypeName
  | fewEnumMembers
  | emptyEnumMember
  | operatorInEnum
  | notBoolean
  | notNumeric
  | notInteger
  | emptyClause
  | belowZero
  | noBound
  | leastAboveMost
  | repeatedSeparator
  | malformedClause
  | notNumber
  | badCount
  | malformedReference
  | duplicateCase
  | unsupportedValue
  | patternOn (typeName : String)
  | patternOnCompound
  | malformedPattern
deriving DecidableEq

/-- The wording of a fault. -/
def GrammarFault.message : GrammarFault → String
  | .emptySpecification => "empty type specification"
  | .repeatedMark => "`!` may appear only once"
  | .missingBody => "missing body after `:`"
  | .enumOn name => "`" ++ name ++ "` cannot take an enum"
  | .clauseOn name => "`" ++ name ++ "` takes no constraint"
  | .unclosedBracket => "unclosed `<`"
  | .unbalancedBracket => "unbalanced `>`"
  | .fewMembers => "`types:` needs at least two members"
  | .malformedTypeName => "malformed type name"
  | .fewEnumMembers => "enum needs at least two members"
  | .emptyEnumMember => "empty enum member"
  | .operatorInEnum => "comparison operator inside an enum"
  | .notBoolean => "not a boolean enum member"
  | .notNumeric => "not a numeric enum member"
  | .notInteger => "not an integer enum member"
  | .emptyClause => "empty constraint clause"
  | .belowZero => "no length is below zero"
  | .noBound => "range needs at least one bound"
  | .leastAboveMost => "range minimum exceeds maximum"
  | .repeatedSeparator => "more than one range separator"
  | .malformedClause => "malformed constraint clause"
  | .notNumber => "expected a number"
  | .badCount => "length bounds must be non-negative integers"
  | .malformedReference => "malformed field reference"
  | .duplicateCase => "duplicate match case"
  | .unsupportedValue => "unsupported schema value"
  | .patternOn name => "`" ++ name ++ "` cannot take a pattern"
  | .patternOnCompound => "only primitive types take a pattern"
  | .malformedPattern => "malformed pattern"

/-- Why a sequence of calls builds no chain.  A call is named as it is written. -/
inductive ChainFault where
  | afterFallback (call : String)
  | withoutWhen (call : String)
  | secondWhen
  | secondThen
  | noWhen
deriving DecidableEq

/-- The wording of a fault. -/
def ChainFault.message : ChainFault → String
  | .afterFallback call => "`" ++ call ++ "` after `otherwise`"
  | .withoutWhen call => "`" ++ call ++ "` requires a preceding `when`"
  | .secondWhen => "`when` may only start a chain; use `else_when` for further branches"
  | .secondThen => "an entry may have at most one `then`"
  | .noWhen => "conditional chain has no `when`"

/-! ## Values -/

/-- One refusal: where, in which words, on account of which keyword, and with
    which parameters. -/
structure FieldError where
  place : String
  message : String
  keyword : String
  params : Members Json

/-- The outcome of a validation. -/
structure Report where
  valid : Bool
  errors : List FieldError

/-- The report of a list of errors. -/
def Report.ofErrors (errors : List FieldError) : Report := ⟨errors.isEmpty, errors⟩

/-! ## Configurations -/

/-- The kind of value that was found. -/
inductive Found where
  | null
  | bool (value : Bool)
  | integer (value : Int)
  | float (value : Binary64.Finite)
  | string (text : String)
  | sequence
  | map

/-- How a found value is spoken of. -/
def Found.text : Found → String
  | .null => "null"
  | .bool value => "boolean `" ++ (if value then "true" else "false") ++ "`"
  | .integer value => "integer `" ++ toString value ++ "`"
  | .float value => "floating point `" ++ value.numberText ++ "`"
  | .string text => "string " ++ Text.quoted text
  | .sequence => "sequence"
  | .map => "map"

/-- What a value in a configuration must be. -/
inductive Expected where
  | boolean
  | string
  | map
  | config
deriving DecidableEq

/-- How an expectation is spoken of. -/
def Expected.text : Expected → String
  | .boolean => "a boolean"
  | .string => "a string"
  | .map => "a map"
  | .config => "struct RuntimeConfig"

/-- What is wrong with a configuration. -/
inductive ConfigCause where
  | wrongType (found : Found) (expected : Expected)
  | duplicateField (name : String)
  | tooManyItems (length : Nat)
  | malformed (fault : Json.SyntaxFault)

/-- The wording of a cause. -/
def ConfigCause.message : ConfigCause → String
  | .wrongType found expected =>
      "invalid type: " ++ found.text ++ ", expected " ++ expected.text
  | .duplicateField name => "duplicate field `" ++ name ++ "`"
  | .tooManyItems length =>
      "invalid length " ++ toString length ++ ", expected fewer elements in array"
  | .malformed fault => fault.message

/-- One step towards the fault in a configuration; a member whose key could not
    be read is unfinished. -/
inductive ConfigStep where
  | member (name : String)
  | item (position : Nat)
  | unfinished
deriving DecidableEq

/-- Writes the steps after the first one. -/
def configStepsText : List ConfigStep → String
  | [] => ""
  | .member name :: rest => "." ++ name ++ configStepsText rest
  | .item position :: rest => "[" ++ toString position ++ "]" ++ configStepsText rest
  | .unfinished :: rest => ".?" ++ configStepsText rest

/-- Writes the place of a fault; the whole configuration is a point. -/
def configPlaceText : List ConfigStep → String
  | [] => "."
  | .member name :: rest => name ++ configStepsText rest
  | .unfinished :: rest => "?" ++ configStepsText rest
  | steps => configStepsText steps

/-- A cause with the place where it was met. -/
structure ConfigFault where
  place : List ConfigStep
  cause : ConfigCause

/-- The wording of a fault in a configuration. -/
def ConfigFault.message (fault : ConfigFault) : String :=
  "at JSON path " ++ configPlaceText fault.place ++ " → " ++ fault.cause.message

/-! ## All errors -/

/-- An error of the library. -/
inductive Error where
  | grammar (path token : String) (fault : GrammarFault)
  | unknownType (path name : String)
  | sequence (fault : ChainFault)
  | validation (errors : List FieldError)
  | suspendedCheck (path : String)
  | config (fault : ConfigFault)

namespace Error

/-- The root of a document has no name of its own. -/
def pathText (path : String) : String := if path = "" then "<root>" else path

/-- The messages of all field errors. -/
def joinedMessages (errors : List FieldError) : String :=
  match errors with
  | [] => "validation failed"
  | errors => Text.joinWith "; " (errors.map FieldError.message)

/-- The message of the first field error. -/
def firstMessage (errors : List FieldError) : String :=
  match errors with
  | [] => "validation failed"
  | first :: _ => first.message

/-- The wording of an error. -/
def message : Error → String
  | .grammar path token fault =>
      "grammar error at `" ++ pathText path ++ "`: " ++ fault.message
        ++ " (near `" ++ token ++ "`)"
  | .unknownType path name => "unknown type `" ++ name ++ "` at `" ++ pathText path ++ "`"
  | .sequence fault => "conditional sequence error: " ++ fault.message
  | .validation errors => joinedMessages errors
  | .suspendedCheck path =>
      "custom validator at `" ++ pathText path ++ "` is asynchronous; use validate_async"
  | .config fault => "invalid configuration: " ++ fault.message

/-- Whether the error says that a specification does not compile. -/
def isCompileTime : Error → Bool
  | .grammar _ _ _ => true
  | .unknownType _ _ => true
  | .sequence _ => true
  | _ => false

end Error

/-- A report that is not valid, as an error. -/
def Report.toExcept (report : Report) : Except Error Unit :=
  if report.valid then .ok () else .error (.validation report.errors)

end Conform
