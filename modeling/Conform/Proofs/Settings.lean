import Conform.Proofs.Denoting

/-! # Settings — read from a text as from a value

    A setting is read off the front of a text, or taken from a value.  Reading FOLLOWS
    taking on a document when it comes to the same: where the document has a value, the
    same setting, or a fault at the same place; where it has none, a fault (`Follows`).

    The readers of strings, booleans and maps follow, and what is put together from
    readers that follow does so too: the members of an object one after the other
    (`follows_readMembers`), and the settings (`readsAs_readSetting`). -/

namespace Conform

open Conform.Text (Chars isDigit)
open Conform.Json

/-! ## Kinds of values -/

/-- The kind of a value. -/
def Json.kind : Json → Kind
  | .null => .null
  | .bool _ => .bool
  | .integer _ => .number
  | .float _ => .number
  | .string _ => .string
  | .array _ => .array
  | .object _ => .object

theorem Json.kind_value {numeral : Numeral} {value : Json} (h : numeral.value = .ok value) :
    value.kind = .number := by
  rcases cases_of_value h with ⟨n, rfl⟩ | ⟨x, rfl⟩
  · rfl
  · rfl

/-- A document and its value are of one kind. -/
theorem Json.Begins.kind_eq {text more : Chars} {document : Document} {value : Json}
    (h : Begins text document more) (hvalue : document.value? = some value) :
    value.kind = document.kind := by
  have hnumber : ∀ {numeral : Numeral}, numeral.value.toOption = some value → value.kind = .number :=
    fun hnumeral => kind_value (eq_ok_of_toOption hnumeral)
  cases h with
  | null => rw [← Option.some.inj hvalue]; rfl
  | yes => rw [← Option.some.inj hvalue]; rfl
  | no => rw [← Option.some.inj hvalue]; rfl
  | string =>
      obtain ⟨_, -, rfl⟩ := Option.map_eq_some_iff.1 hvalue
      rfl
  | negative => exact hnumber hvalue
  | positive => exact hnumber hvalue
  | array =>
      obtain ⟨_, -, rfl⟩ := Option.map_eq_some_iff.1 hvalue
      rfl
  | object =>
      obtain ⟨_, -, rfl⟩ := Option.map_eq_some_iff.1 hvalue
      rfl

namespace Config

/-! ## Following -/

/-- Reading follows taking: `taken` is what is taken from the value, if there is one. -/
def Follows {α : Type} (step : Step α) (more : Chars) : Option (Except ConfigFault α) → Prop
  | some (.ok a) => step = .ok (a, more)
  | some (.error fault) => ∃ other, step = .error other ∧ other.place = fault.place
  | none => ∃ other, step = .error other

namespace Follows

variable {α β : Type} {step : Step α} {more : Chars} {taken : Option (Except ConfigFault α)}

/-- Changing the result of a step changes what it takes in the same way. -/
theorem map (h : Follows step more taken) (f : α → β) :
    Follows (step.map fun r => (f r.1, r.2)) more (taken.map fun outcome => f <$> outcome) := by
  match taken, h with
  | some (.ok a), h =>
      rw [show step = .ok (a, more) from h]
      rfl
  | some (.error fault), ⟨other, hother, hplace⟩ =>
      rw [hother]
      exact ⟨other, rfl, hplace⟩
  | none, ⟨other, hother⟩ =>
      rw [hother]
      exact ⟨other, rfl⟩

/-- A fault where a fault is taken from every value there is. -/
theorem of_error {value : Option Json} {take : Json → Except ConfigFault α} {fault : ConfigFault}
    (hstep : step = .error fault)
    (htake : ∀ json, value = some json → ∃ other, take json = .error other ∧ other.place = fault.place) :
    Follows step more (value.map take) := by
  cases value with
  | none => exact ⟨fault, hstep⟩
  | some json =>
      obtain ⟨other, hother, hplace⟩ := htake json rfl
      rw [Option.map_some, hother]
      exact ⟨fault, hstep, hplace.symm⟩

/-- One step after another: a fault that is taken first counts, whatever follows it. -/
theorem next {ι κ : Type} {after : Chars} {value : Option ι} {others : Option κ}
    {take : ι → Except ConfigFault α} {read : α → Chars → Step β}
    {takeOthers : α → κ → Except ConfigFault β}
    (h : Follows step after (value.map take))
    (hnext : ∀ a, Follows (read a after) more (others.map (takeOthers a))) :
    Follows (Except.bind step fun r => read r.1 r.2) more
      (value.bind fun first => others.map fun rest => take first >>= fun a => takeOthers a rest) := by
  -- either reader may stop first: on a text that is no document, or on a value it cannot take
  cases value with
  | none =>
      obtain ⟨other, hother⟩ := h
      rw [hother]
      exact ⟨other, rfl⟩
  | some first =>
      rw [Option.bind_some]
      cases htaken : take first with
      | error fault =>
          rw [Option.map_some, htaken] at h
          obtain ⟨other, hother, hplace⟩ := h
          rw [hother]
          cases others with
          | none => exact ⟨other, rfl⟩
          | some rest => exact ⟨other, rfl, hplace⟩
      | ok a =>
          rw [Option.map_some, htaken] at h
          rw [show step = .ok (a, after) from h]
          exact hnext a

end Follows

/-- A reader follows a function of values, at every place and on every document. -/
def ReadsAs {α : Type} (readValue : FaultPlace → Chars → Step α)
    (valueOf : FaultPlace → Json → Except ConfigFault α) : Prop :=
  ∀ place {text more : Chars} {document : Document}, Begins text document more →
    Follows (readValue place text) more (document.value?.map (valueOf place))

/-- A reader that reads as a value is taken does so after a change to the result. -/
theorem ReadsAs.map {α β : Type} {readValue : FaultPlace → Chars → Step α}
    {valueOf : FaultPlace → Json → Except ConfigFault α} (h : ReadsAs readValue valueOf) (f : α → β) :
    ReadsAs (fun place text => (readValue place text).map fun r => (f r.1, r.2))
      fun place value => f <$> valueOf place value := by
  intro place text more document hbegins
  have hread := (h place hbegins).map f
  rw [Option.map_map] at hread
  exact hread

/-- A refusal is a fault at the place, whatever stands there. -/
theorem exists_refuse_eq (place : FaultPlace) (expected : Expected) (α : Type) (text : Chars) :
    ∃ fault, (refuse place expected text : Step α) = .error fault ∧ fault.place = place := by
  unfold refuse
  split
  · exact ⟨_, rfl, rfl⟩
  · exact ⟨_, rfl, rfl⟩

/-- Where a document of another kind is refused, a value of another kind is too. -/
theorem follows_refuse {α : Type} {place : FaultPlace} {expected : Expected} {text other more : Chars}
    {document : Document} {kind : Kind} {take : Json → Except ConfigFault α} {step : Step α}
    (h : Begins text document more) (hkind : document.kind ≠ kind)
    (hstep : step = refuse place expected other)
    (htake : ∀ value : Json, value.kind ≠ kind → take value = .error (wrongType place expected (found value))) :
    Follows step more (document.value?.map take) := by
  obtain ⟨fault, hfault, hplace⟩ := exists_refuse_eq place expected α other
  refine Follows.of_error (hstep.trans hfault) fun value hvalue => ?_
  exact ⟨_, htake value (h.kind_eq hvalue ▸ hkind), hplace.symm⟩

/-! ## Strings and booleans -/

variable {text more : Chars} {document : Document}

/-- Anything but a string is refused, at the place and with what was found. -/
theorem readString_of_kind_ne (h : Begins text document more) (hkind : document.kind ≠ .string)
    (place : FaultPlace) : readString place text = refuse place .string (skipSpace text) := by
  unfold readString
  split
  · next opening => exact absurd (h.kind_of_opening opening) hkind
  · rfl

/-- **STRINGS ARE READ AS THEY ARE TAKEN.** -/
theorem readsAs_readString : ReadsAs readString stringOf := by
  intro place text more document h
  by_cases hkind : document.kind = .string
  · cases h with
    | string opening skips =>
        rw [readString, opening]
        show Follows (locate place (Json.readString _)) more (Option.map _ (Option.map Json.string _))
        rcases cases_of_toOption (toOption_readString skips) with
          ⟨hstring, fault, hfault⟩ | ⟨value, hstring, hread⟩
        · rw [hfault, hstring]
          exact ⟨_, rfl⟩
        · rw [hread, hstring]
          rfl
    | null | yes | no | negative | positive | array | object => exact nomatch hkind
  · refine follows_refuse h hkind (readString_of_kind_ne h hkind place) ?_
    intro value hvalue
    cases value with
    | string => exact absurd rfl hvalue
    | null | bool | integer | float | array | object => rfl

/-- Anything but a boolean value is refused, at the place and with what was found. -/
theorem readBool_of_kind_ne (h : Begins text document more) (hkind : document.kind ≠ .bool)
    (place : FaultPlace) : readBool place text = refuse place .boolean (skipSpace text) := by
  unfold readBool
  split
  · next opening => exact absurd (h.kind_of_opening opening) hkind
  · next opening => exact absurd (h.kind_of_opening opening) hkind
  · rfl

/-- **BOOLEANS ARE READ AS THEY ARE TAKEN.** -/
theorem readsAs_readBool : ReadsAs readBool boolOf := by
  intro place text more document h
  by_cases hkind : document.kind = .bool
  · cases h with
    | yes opening word =>
        rw [readBool, opening]
        show locate place ((readWord _ _).map _) = _
        rw [word]
        rfl
    | no opening word =>
        rw [readBool, opening]
        show locate place ((readWord _ _).map _) = _
        rw [word]
        rfl
    | null | string | negative | positive | array | object => exact nomatch hkind
  · refine follows_refuse h hkind (readBool_of_kind_ne h hkind place) ?_
    intro value hvalue
    cases value with
    | bool => exact absurd rfl hvalue
    | null | string | integer | float | array | object => rfl

/-! ## The members of an object -/

/-- The members with what is seen of their values, if all have a name and all can be seen. -/
def seenMembers? (see? : String → Document → Option Json) :
    List (Option String × Document) → Option (List (String × Json))
  | [] => some []
  | (name, document) :: rest =>
      name.bind fun name => (see? name document).bind fun value =>
        (seenMembers? see? rest).map fun members => (name, value) :: members

/-- If every value is looked at, the members have the values of the document. -/
theorem seenMembers?_value (members : List (Option String × Document)) :
    seenMembers? (fun _ document => document.value?) members = Document.memberValues? members := by
  induction members with
  | nil => rfl
  | cons entry rest ih =>
      rw [seenMembers?, ih]
      rfl

/-- Takes the members of an object, one after the other. -/
def takeMembers {σ : Type} (take : σ → String → Json → Except ConfigFault σ) :
    σ → List (String × Json) → Except ConfigFault σ
  | state, [] => .ok state
  | state, (name, value) :: rest =>
      match take state name value with
      | .error fault => .error fault
      | .ok state => takeMembers take state rest

/-- Members are taken one by one, and the first fault ends it. -/
theorem takeMembers_cons {σ : Type} (take : σ → String → Json → Except ConfigFault σ) (state : σ)
    (name : String) (value : Json) (rest : List (String × Json)) :
    takeMembers take state ((name, value) :: rest)
      = take state name value >>= fun after => takeMembers take after rest := by
  rw [takeMembers]
  cases take state name value with
  | error fault => rfl
  | ok after => rfl

theorem readKey_done {first : Bool} {text more : Chars} (closing : skipSpace text = '\x7d' :: more) :
    readKey first text = .ok (none, more) := by
  rw [readKey, closing]
  rfl

/-- Where a member starts, its key is read. -/
theorem readKey_of_starts {first : Bool} {text start key : Chars} (starts : Starts first text start)
    (quote : skipSpace start = '"' :: key) :
    readKey first text = (Json.readString key).map fun r => (some r.1, r.2) := by
  cases starts with
  | first =>
      rw [readKey, quote]
      rfl
  | next comma =>
      rw [readKey, comma]
      show (if false = true then _ else if ',' = ',' then _ else _) = _
      rw [if_neg Bool.false_ne_true, if_pos rfl, quote]
      rfl

/-- A member is read after its key, and then the others. -/
theorem readMembers_of_key {σ : Type} {place : FaultPlace} {readMember : σ → String → Chars → Step σ}
    {budget : Nat} {first : Bool} {state : σ} {name : String} {colon : Chars}
    (hkey : readKey first text = .ok (some name, colon)) :
    readMembers place readMember (budget + 1) first state text
      = Except.bind (readMember state name colon) fun r =>
          readMembers place readMember budget false r.1 r.2 := by
  rw [readMembers, hkey]
  dsimp only
  cases readMember state name colon with
  | error fault => rfl
  | ok r => rfl

/-- **MEMBERS ARE READ AS THEY ARE TAKEN**, if each of them is: what a member's reader sees
    of its value is what is taken. -/
theorem follows_readMembers {σ : Type} {place : FaultPlace} {readMember : σ → String → Chars → Step σ}
    {see? : String → Document → Option Json} {take : σ → String → Json → Except ConfigFault σ}
    (hmember : ∀ state name {colon rest after : Chars} {document : Document},
      skipSpace colon = ':' :: rest → Begins rest document after →
        Follows (readMember state name colon) after ((see? name document).map (take state name)))
    {budget : Nat} {first : Bool} {text more : Chars} {members : List (Option String × Document)}
    (h : BeginsMembers first text members more) (hbudget : text.length ≤ budget) (state : σ) :
    Follows (readMembers place readMember budget first state text) more
      ((seenMembers? see? members).map (takeMembers take state)) := by
  induction budget generalizing first text members state with
  | zero => exact absurd h.length_lt (by omega)
  | succ budget ih =>
      -- a member takes at least its quote, so the budget lasts for those after it
      cases h with
      | done closing =>
          rw [readMembers, readKey_done closing]
          rfl
      | member starts quote here others =>
          have hlength := starts.length_le
          have hquote := length_lt_of_skipSpace quote
          have hhere := here.length_lt
          obtain @⟨_, _, _, _, document, skips, separator, value⟩ := here
          have hkey := readKey_of_starts starts quote
          rw [seenMembers?]
          rcases cases_of_toOption (toOption_readString skips) with
            ⟨hname, fault, hfault⟩ | ⟨name, hname, hread⟩
          · rw [readMembers, hkey, hfault, hname]
            exact ⟨_, rfl⟩
          · rw [hread] at hkey
            rw [readMembers_of_key hkey, hname, Option.bind_some]
            simp only [Option.map_bind, Function.comp_def, Option.map_map, takeMembers_cons]
            exact (hmember state name separator value).next fun after => ih others (by omega) after

/-! ## Maps and settings -/

/-- The members of a map are taken like those of a configuration. -/
theorem membersOf_eq_takeMembers {α : Type} (place : FaultPlace)
    (valueOf : FaultPlace → Json → Except ConfigFault α) (members : List (String × Json)) :
    ∀ done, membersOf place valueOf done members
      = takeMembers (fun done name value => Members.put done name <$> valueOf (place ++ [.member name]) value)
          done members := by
  induction members with
  | nil => exact fun _ => rfl
  | cons entry rest ih =>
      intro done
      obtain ⟨name, value⟩ := entry
      rw [membersOf, takeMembers]
      cases valueOf (place ++ [.member name]) value with
      | error fault => rfl
      | ok a => exact ih (Members.put done name a)

theorem readPair_eq {α : Type} {colon rest : Chars} (separator : skipSpace colon = ':' :: rest)
    (place : FaultPlace) (readValue : FaultPlace → Chars → Step α) (name : String) :
    readPair place readValue name colon = readValue (place ++ [.member name]) rest := by
  rw [readPair, readColon_eq_ok separator]

/-- Anything but an object is refused as a map. -/
theorem readMap_of_kind_ne {α : Type} (readValue : FaultPlace → Chars → Step α)
    (h : Begins text document more) (hkind : document.kind ≠ .object) (place : FaultPlace) :
    readMap readValue place text = refuse place .map (skipSpace text) := by
  unfold readMap
  split
  · next opening => exact absurd (h.kind_of_opening opening) hkind
  · rfl

/-- **MAPS ARE READ AS THEY ARE TAKEN**, if their values are. -/
theorem readsAs_readMap {α : Type} {readValue : FaultPlace → Chars → Step α}
    {valueOf : FaultPlace → Json → Except ConfigFault α} (hvalue : ReadsAs readValue valueOf) :
    ReadsAs (readMap readValue) (mapOf valueOf) := by
  intro place text more document h
  by_cases hkind : document.kind = .object
  · cases h with
    | object opening inside =>
        rw [readMap, opening, Document.value?, Option.map_map, ← seenMembers?_value]
        have htake : mapOf valueOf place ∘ Json.object
            = takeMembers (fun done name value =>
                Members.put done name <$> valueOf (place ++ [.member name]) value) [] := by
          funext members
          exact membersOf_eq_takeMembers place valueOf members []
        rw [htake]
        refine follows_readMembers ?_ inside (Nat.le_succ _) []
        intro done name colon rest after document separator here
        rw [readPair_eq separator]
        exact hvalue.map (Members.put done name) (place ++ [.member name]) here
    | null | yes | no | string | negative | positive | array => exact nomatch hkind
  · refine follows_refuse h hkind (readMap_of_kind_ne readValue h hkind place) ?_
    intro value hvalue
    cases value with
    | object => exact absurd rfl hvalue
    | null | bool | string | integer | float | array => rfl

/-- **SETTINGS ARE READ AS THEY ARE TAKEN.** -/
theorem readsAs_readSetting (field : Field) :
    ReadsAs (fun place text => readSetting place field text)
      fun place value => settingOf place value field := by
  cases field with
  | locale => exact readsAs_readString.map Setting.locale
  | abortEarly => exact readsAs_readBool.map Setting.abortEarly
  | allowUnknownFields => exact readsAs_readBool.map Setting.allowUnknownFields
  | messages => exact (readsAs_readMap (readsAs_readMap readsAs_readString)).map Setting.messages

end Config

end Conform
