import Conform.Config
import Conform.Error
import Conform.Json.Reader

/-! # Reading configurations

    A configuration is an object with four known members, each of which may be
    missing; members of other names are passed over.  It may also be a list with
    the values of the four in their order.

    There are two readers: `ofJson` of a JSON value and `ofText` of a text.  The
    second one reads the text only up to the end of the configuration, and it
    notices the first fault on the way, in the text or in the values.  Both name
    the place of a fault. -/

namespace Conform

open Conform.Text (Chars isDigit)
open Conform.Json (SyntaxFault Reading skipSpace)

namespace Json

mutual

/-- Skips a value, with a budget of nested steps. -/
def skipValue : Nat → Chars → Reading Unit
  | 0, _ => .error .endInValue
  | budget + 1, text =>
      match skipSpace text with
      | [] => .error .endInValue
      | 'n' :: rest => readWord ['u', 'l', 'l'] rest
      | 't' :: rest => readWord ['r', 'u', 'e'] rest
      | 'f' :: rest => readWord ['a', 'l', 's', 'e'] rest
      | '"' :: rest => skipString rest
      | '-' :: rest => skipNumber rest
      | '[' :: rest =>
          match skipSpace rest with
          | [] => .error .endInList
          | ']' :: more => .ok ((), more)
          | more => skipItems budget more
      | '{' :: rest =>
          match skipSpace rest with
          | [] => .error .endInObject
          | '}' :: more => .ok ((), more)
          | more => skipMembers budget more
      | c :: rest => if isDigit c then skipNumber (c :: rest) else .error .expectedValue

/-- Skips the items of a list from the first one on. -/
def skipItems : Nat → Chars → Reading Unit
  | 0, _ => .error .endInList
  | budget + 1, text =>
      match skipValue budget text with
      | .error fault => .error fault
      | .ok (_, rest) =>
          match skipSpace rest with
          | [] => .error .endInList
          | ']' :: more => .ok ((), more)
          | ',' :: more => skipItems budget more
          | _ => .error .expectedListEnd

/-- Skips the members of an object from the first one on. -/
def skipMembers : Nat → Chars → Reading Unit
  | 0, _ => .error .endInObject
  | budget + 1, text =>
      match skipSpace text with
      | [] => .error .endInObject
      | '"' :: key =>
          match skipString key with
          | .error fault => .error fault
          | .ok (_, rest) =>
              match readColon rest with
              | .error fault => .error fault
              | .ok (_, rest) =>
                  match skipValue budget rest with
                  | .error fault => .error fault
                  | .ok (_, rest) =>
                      match skipSpace rest with
                      | [] => .error .endInObject
                      | '}' :: more => .ok ((), more)
                      | ',' :: more => skipMembers budget more
                      | _ => .error .expectedObjectEnd
      | _ => .error .keyNotString

end

/-- Skips the value that a text begins with. -/
def skip (text : Chars) : Reading Unit := skipValue (2 * text.length + 2) text

end Json

namespace Config

/-! ## Settings -/

/-- A known member of a configuration. -/
inductive Field where
  | locale
  | abortEarly
  | allowUnknownFields
  | messages
deriving DecidableEq

/-- The known members in their order. -/
def Field.all : List Field := [.locale, .abortEarly, .allowUnknownFields, .messages]

/-- The name of a known member. -/
def Field.name : Field → String
  | .locale => "locale"
  | .abortEarly => "abortEarly"
  | .allowUnknownFields => "allowUnknownFields"
  | .messages => "messages"

/-- The known member with a name. -/
def Field.ofName? (name : String) : Option Field := Field.all.find? fun field => field.name = name

/-- A member with its value. -/
inductive Setting where
  | locale (locale : String)
  | abortEarly (abort : Bool)
  | allowUnknownFields (allow : Bool)
  | messages (messages : Members (Members String))

/-- The configuration with a setting. -/
def set (config : Config) : Setting → Config
  | .locale locale => { config with locale := locale }
  | .abortEarly abort => { config with abortEarly := abort }
  | .allowUnknownFields allow => { config with allowUnknownFields := allow }
  | .messages messages => { config with messages := messages }

/-- The place of a fault. -/
abbrev FaultPlace := List ConfigStep

/-- A fault of the wrong type. -/
def wrongType (place : FaultPlace) (expected : Expected) (found : Found) : ConfigFault :=
  ⟨place, .wrongType found expected⟩

/-! ## From values -/

/-- What a value is found to be. -/
def found : Json → Found
  | .null => .null
  | .bool value => .bool value
  | .integer value => .integer value
  | .float value => .float value
  | .string value => .string value
  | .array _ => .sequence
  | .object _ => .map

/-- A value as a string. -/
def stringOf (place : FaultPlace) : Json → Except ConfigFault String
  | .string value => .ok value
  | value => .error (wrongType place .string (found value))

/-- A value as a boolean. -/
def boolOf (place : FaultPlace) : Json → Except ConfigFault Bool
  | .bool value => .ok value
  | value => .error (wrongType place .boolean (found value))

/-- The values of the members of an object, in order. -/
def membersOf {α : Type} (place : FaultPlace)
    (valueOf : FaultPlace → Json → Except ConfigFault α) :
    Members α → List (String × Json) → Except ConfigFault (Members α)
  | done, [] => .ok done
  | done, (name, value) :: rest =>
      match valueOf (place ++ [.member name]) value with
      | .error fault => .error fault
      | .ok value => membersOf place valueOf (Members.put done name value) rest

/-- A value as a map. -/
def mapOf {α : Type} (valueOf : FaultPlace → Json → Except ConfigFault α) (place : FaultPlace) :
    Json → Except ConfigFault (Members α)
  | .object members => membersOf place valueOf [] members
  | value => .error (wrongType place .map (found value))

/-- A value as the setting of a member. -/
def settingOf (place : FaultPlace) (value : Json) : Field → Except ConfigFault Setting
  | .locale => .locale <$> stringOf place value
  | .abortEarly => .abortEarly <$> boolOf place value
  | .allowUnknownFields => .allowUnknownFields <$> boolOf place value
  | .messages => .messages <$> mapOf (mapOf stringOf) place value

/-- The configuration with the settings of some members; no name occurs twice. -/
def ofMembers : Config → List (String × Json) → Except ConfigFault Config
  | config, [] => .ok config
  | config, (name, value) :: rest =>
      match Field.ofName? name with
      | none => ofMembers config rest
      | some field =>
          match settingOf [.member name] value field with
          | .error fault => .error fault
          | .ok setting => ofMembers (config.set setting) rest

/-- The configuration with the settings of some items from a position on; says
    also whether there are items without a field. -/
def ofItems : Nat → Config → List Field → List Json → Except ConfigFault (Config × Bool)
  | _, config, _, [] => .ok (config, false)
  | _, config, [], _ :: _ => .ok (config, true)
  | position, config, field :: fields, value :: rest =>
      match settingOf [.item position] value field with
      | .error fault => .error fault
      | .ok setting => ofItems (position + 1) (config.set setting) fields rest

/-- The configuration that a value writes. -/
def ofJson : Json → Except ConfigFault Config
  | .object members => ofMembers {} members
  | .array items =>
      match ofItems 0 {} Field.all items with
      | .error fault => .error fault
      | .ok (config, false) => .ok config
      | .ok (_, true) => .error ⟨[], .tooManyItems items.length⟩
  | value => .error (wrongType [] .config (found value))

/-! ## From texts -/

/-- What was read and the text after it, or the fault with its place. -/
abbrev Step (α : Type) := Except ConfigFault (α × Chars)

/-- A reading at a place. -/
def locate {α : Type} (place : FaultPlace) (reading : Reading α) : Step α :=
  reading.mapError fun fault => ⟨place, .malformed fault⟩

/-- Reads what stands in place of the expected: lists and objects are known by
    their first character, any other value is read to its end. -/
def readFound (text : Chars) : Reading Found :=
  match text with
  | [] => .error .endInValue
  | 'n' :: rest => (Json.readWord ['u', 'l', 'l'] rest).map fun r => (.null, r.2)
  | 't' :: rest => (Json.readWord ['r', 'u', 'e'] rest).map fun r => (.bool true, r.2)
  | 'f' :: rest => (Json.readWord ['a', 'l', 's', 'e'] rest).map fun r => (.bool false, r.2)
  | '"' :: rest => (Json.readString rest).map fun r => (.string r.1, r.2)
  | '-' :: rest => (Json.readNumber true rest).map fun r => (found r.1, r.2)
  | '[' :: rest => .ok (.sequence, rest)
  | '{' :: rest => .ok (.map, rest)
  | c :: rest =>
      if isDigit c then (Json.readNumber false (c :: rest)).map fun r => (found r.1, r.2)
      else .error .expectedValue

/-- Refuses what stands in place of the expected. -/
def refuse {α : Type} (place : FaultPlace) (expected : Expected) (text : Chars) : Step α :=
  match readFound text with
  | .error fault => .error ⟨place, .malformed fault⟩
  | .ok (value, _) => .error (wrongType place expected value)

/-- Reads a string. -/
def readString (place : FaultPlace) (text : Chars) : Step String :=
  match skipSpace text with
  | '"' :: rest => locate place (Json.readString rest)
  | other => refuse place .string other

/-- Reads a boolean. -/
def readBool (place : FaultPlace) (text : Chars) : Step Bool :=
  match skipSpace text with
  | 't' :: rest =>
      locate place ((Json.readWord ['r', 'u', 'e'] rest).map fun r => (true, r.2))
  | 'f' :: rest =>
      locate place ((Json.readWord ['a', 'l', 's', 'e'] rest).map fun r => (false, r.2))
  | other => refuse place .boolean other

/-- Reads the next key of an object, or its end. -/
def readKey (first : Bool) (text : Chars) : Reading (Option String) :=
  match skipSpace text with
  | [] => .error .endInObject
  | '}' :: rest => .ok (none, rest)
  | c :: rest =>
      if first then
        if c = '"' then (Json.readString rest).map fun r => (some r.1, r.2)
        else .error .keyNotString
      else if c = ',' then
        match skipSpace rest with
        | [] => .error .endInValue
        | '"' :: key => (Json.readString key).map fun r => (some r.1, r.2)
        | '}' :: _ => .error .trailingComma
        | _ => .error .keyNotString
      else .error .expectedObjectEnd

/-- Reads the members of an object after its brace, each with `readMember` from
    its colon on.  The budget bounds their number. -/
def readMembers {α : Type} (place : FaultPlace)
    (readMember : α → String → Chars → Step α) : Nat → Bool → α → Chars → Step α
  | 0, _, _, _ => .error ⟨place, .malformed .endInObject⟩
  | budget + 1, first, done, text =>
      match readKey first text with
      | .error fault => .error ⟨place ++ [.unfinished], .malformed fault⟩
      | .ok (none, rest) => .ok (done, rest)
      | .ok (some name, rest) =>
          match readMember done name rest with
          | .error fault => .error fault
          | .ok (done, rest) => readMembers place readMember budget false done rest

/-- Reads the colon after a key, then the value at the place of the member. -/
def readPair {α : Type} (place : FaultPlace) (readValue : FaultPlace → Chars → Step α)
    (name : String) (text : Chars) : Step α :=
  match Json.readColon text with
  | .error fault => .error ⟨place, .malformed fault⟩
  | .ok (_, rest) => readValue (place ++ [.member name]) rest

/-- Reads a map; of two members with one name the later value counts. -/
def readMap {α : Type} (readValue : FaultPlace → Chars → Step α) (place : FaultPlace)
    (text : Chars) : Step (Members α) :=
  match skipSpace text with
  | '{' :: rest =>
      readMembers place
        (fun done name text =>
          (readPair place readValue name text).map fun r => (Members.put done name r.1, r.2))
        (rest.length + 1) true [] rest
  | other => refuse place .map other

/-- Reads the setting of a member. -/
def readSetting (place : FaultPlace) (field : Field) (text : Chars) : Step Setting :=
  match field with
  | .locale => (readString place text).map fun r => (.locale r.1, r.2)
  | .abortEarly => (readBool place text).map fun r => (.abortEarly r.1, r.2)
  | .allowUnknownFields => (readBool place text).map fun r => (.allowUnknownFields r.1, r.2)
  | .messages => (readMap (readMap readString) place text).map fun r => (.messages r.1, r.2)

/-- Reads a member of a configuration from its colon on; `seen` are the known
    members before it. -/
def readMember (done : Config × List Field) (name : String) (text : Chars) :
    Step (Config × List Field) :=
  match Field.ofName? name with
  | none =>
      (readPair [] (fun place text => locate place (Json.skip text)) name text).map
        fun r => (done, r.2)
  | some field =>
      if done.2.contains field then .error ⟨[], .duplicateField field.name⟩
      else
        (readPair [] (fun place text => readSetting place field text) name text).map
          fun r => ((done.1.set r.1, field :: done.2), r.2)

/-- Goes to the next item of a list; none at the end of the list, where the
    text stays. -/
def nextItem (first : Bool) (text : Chars) : Except SyntaxFault (Option Chars) :=
  match skipSpace text with
  | [] => .error .endInList
  | ']' :: _ => .ok none
  | c :: rest =>
      if first then .ok (some (c :: rest))
      else if c = ',' then
        match skipSpace rest with
        | [] => .error .endInValue
        | ']' :: _ => .error .trailingComma
        | more => .ok (some more)
      else .error .expectedListEnd

/-- Reads the end of a list that has all its items. -/
def readListEnd (text : Chars) : Reading Unit :=
  match skipSpace text with
  | [] => .error .endInList
  | ']' :: rest => .ok ((), rest)
  | ',' :: rest =>
      match skipSpace rest with
      | ']' :: _ => .error .trailingComma
      | _ => .error .trailingCharacters
  | _ => .error .trailingCharacters

/-- Reads the items of a configuration that is a list, from a position on. -/
def readItems : Nat → List Field → Config → Chars → Step Config
  | _, [], config, text => (locate [] (readListEnd text)).map fun r => (config, r.2)
  | position, field :: fields, config, text =>
      match nextItem (position == 0) text with
      | .error fault => .error ⟨[], .malformed fault⟩
      | .ok none => (locate [] (readListEnd text)).map fun r => (config, r.2)
      | .ok (some item) =>
          match readSetting [.item position] field item with
          | .error fault => .error fault
          | .ok (setting, rest) => readItems (position + 1) fields (config.set setting) rest

/-- Reads a configuration off the front of a text. -/
def read (text : Chars) : Step Config :=
  match skipSpace text with
  | '{' :: rest =>
      (readMembers [] readMember (rest.length + 1) true ({}, []) rest).map fun r => (r.1.1, r.2)
  | '[' :: rest => readItems 0 Field.all {} rest
  | other => refuse [] .config other

/-- The configuration that a text begins with. -/
def ofText (text : String) : Except ConfigFault Config := (read text.toList).map Prod.fst

end Config

end Conform
