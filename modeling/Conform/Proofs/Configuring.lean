import Conform.Proofs.Settings

/-! # Configurations — read from a text as taken from a value

    A configuration is read off the front of a text.  On a document reading follows what
    is taken from its value, but for two things: a known member may not occur twice, and
    of a member that is not known only the form is looked at (`follows_read`).

    What is read is a document in any case (`begins_of_read`). -/

namespace Conform.Config

open Conform.Text (Chars isDigit)
open Conform.Json

/-! ## What is looked at -/

/-- The known members among members, in order. -/
def fieldsOf (members : List (String × Json)) : List Field :=
  members.filterMap fun member => Field.ofName? member.1

/-- No known member occurs twice. -/
def FieldsOnce : Json → Prop
  | .object members => (fieldsOf members).Nodup
  | _ => True

/-- What is seen of the value of a member: nothing of one that is not known. -/
def seeMember? (name : String) (document : Document) : Option Json :=
  match Field.ofName? name with
  | none => some .null
  | some _ => document.value?

/-- The value of a document as far as it is looked at, if what is looked at has one. -/
def seen? : Document → Option Json
  | .object members => (seenMembers? seeMember? members).map .object
  | document => document.value?

/-- Takes a member of a configuration; known members that were taken before are in the
    state, and are not taken again. -/
def takeMember (done : Config × List Field) (name : String) (value : Json) :
    Except ConfigFault (Config × List Field) :=
  match Field.ofName? name with
  | none => .ok done
  | some field =>
      if done.2.contains field then .error ⟨[], .duplicateField field.name⟩
      else (fun setting => (done.1.set setting, field :: done.2)) <$> settingOf [.member name] value field

/-- The configuration that a value writes, if no known member occurs twice. -/
def ofJsonOnce : Json → Except ConfigFault Config
  | .object members => Prod.fst <$> takeMembers takeMember ({}, []) members
  | value => ofJson value

theorem fieldsOf_cons (name : String) (value : Json) (rest : List (String × Json)) :
    fieldsOf ((name, value) :: rest)
      = match Field.ofName? name with
        | none => fieldsOf rest
        | some field => field :: fieldsOf rest := by
  rw [fieldsOf, List.filterMap_cons]
  cases Field.ofName? name <;> rfl

/-- If known members occur once, and not before, all of them are taken. -/
theorem takeMembers_eq_ofMembers {members : List (String × Json)} (honce : (fieldsOf members).Nodup)
    {config : Config} {seen : List Field} (hnew : ∀ field ∈ fieldsOf members, field ∉ seen) :
    Prod.fst <$> takeMembers takeMember (config, seen) members = ofMembers config members := by
  induction members generalizing config seen with
  | nil => rfl
  | cons entry rest ih =>
      obtain ⟨name, value⟩ := entry
      rw [fieldsOf_cons] at honce hnew
      rw [takeMembers, ofMembers, takeMember]
      cases hfield : Field.ofName? name with
      | none =>
          rw [hfield] at honce hnew
          exact ih honce hnew
      | some field =>
          rw [hfield] at honce hnew
          obtain ⟨hfresh, hrest⟩ := List.nodup_cons.1 honce
          have hunseen : seen.contains field = false :=
            Bool.eq_false_iff.2 fun h => hnew field List.mem_cons_self (List.contains_iff_mem.1 h)
          dsimp only
          rw [hunseen, if_neg Bool.false_ne_true]
          cases settingOf [.member name] value field with
          | error fault => rfl
          | ok setting =>
              refine ih hrest fun other hmem hseen => ?_
              rcases List.mem_cons.1 hseen with rfl | hseen
              · exact hfresh hmem
              · exact hnew other (List.mem_cons_of_mem _ hmem) hseen

/-- What is taken has its known members once. -/
theorem nodup_of_takeMembers {members : List (String × Json)} {config : Config} {seen : List Field}
    {result : Config × List Field} (h : takeMembers takeMember (config, seen) members = .ok result) :
    (fieldsOf members).Nodup ∧ ∀ field ∈ fieldsOf members, field ∉ seen := by
  induction members generalizing config seen with
  | nil => exact ⟨List.nodup_nil, fun _ hmem => nomatch hmem⟩
  | cons entry rest ih =>
      obtain ⟨name, value⟩ := entry
      rw [takeMembers, takeMember] at h
      rw [fieldsOf_cons]
      cases hfield : Field.ofName? name with
      | none =>
          rw [hfield] at h
          exact ih h
      | some field =>
          rw [hfield] at h
          dsimp only at h
          split at h
          · cases h
          · next after hafter =>
            split at hafter
            · cases hafter
            · next hunseen =>
              cases hsetting : settingOf [.member name] value field with
              | error fault =>
                  rw [hsetting] at hafter
                  cases hafter
              | ok setting =>
                  rw [hsetting] at hafter
                  obtain rfl := Except.ok.inj hafter
                  -- the field is in the state from here on, so the rest does not have it
                  obtain ⟨hrest, hnew⟩ := ih h
                  refine ⟨List.nodup_cons.2 ⟨fun hmem => hnew field hmem List.mem_cons_self, hrest⟩, ?_⟩
                  intro other hmem hseen
                  rcases List.mem_cons.1 hmem with rfl | hmem
                  · exact hunseen (List.contains_iff_mem.2 hseen)
                  · exact hnew other hmem (List.mem_cons_of_mem _ hseen)

/-- **TAKING A CONFIGURATION** that has its known members once is taking it. -/
theorem ofJsonOnce_eq_ok_iff (value : Json) (config : Config) :
    ofJsonOnce value = .ok config ↔ FieldsOnce value ∧ ofJson value = .ok config := by
  cases value with
  | object members =>
      have hnew : ∀ field ∈ fieldsOf members, field ∉ ([] : List Field) := fun _ _ h => nomatch h
      constructor
      · intro h
        have honce : (fieldsOf members).Nodup := by
          cases htaken : takeMembers takeMember ({}, []) members with
          | error fault =>
              rw [ofJsonOnce, htaken] at h
              exact nomatch h
          | ok result => exact (nodup_of_takeMembers htaken).1
        exact ⟨honce, (takeMembers_eq_ofMembers honce hnew).symm.trans h⟩
      · rintro ⟨honce, h⟩
        exact (takeMembers_eq_ofMembers honce hnew).trans h
  | null | bool | integer | float | string | array => exact (and_iff_right trivial).symm

/-- The check for repeated members does not interfere where none is repeated. -/
theorem ofJsonOnce_of_fieldsOnce {value : Json} (h : FieldsOnce value) :
    ofJsonOnce value = ofJson value := by
  cases value with
  | object members => exact takeMembers_eq_ofMembers h fun _ _ h => nomatch h
  | null | bool | integer | float | string | array => rfl

/-! ## Reading follows taking -/

variable {text more : Chars} {document : Document}

/-- Skipping takes a document off the front, with or without a value. -/
theorem skip_of_begins (h : Begins text document more) : Json.skip text = .ok ((), more) :=
  skipValue_of_begins _ h (by omega)

/-- The members of a configuration are read as they are taken. -/
theorem follows_readMember (done : Config × List Field) (name : String) {colon rest after : Chars}
    {document : Document} (separator : skipSpace colon = ':' :: rest) (here : Begins rest document after) :
    Follows (readMember done name colon) after ((seeMember? name document).map (takeMember done name)) := by
  have htake : takeMember done name = fun value => takeMember done name value := rfl
  rw [readMember, seeMember?, htake]
  unfold takeMember
  cases Field.ofName? name with
  | none =>
      dsimp only
      rw [readPair_eq separator, skip_of_begins here]
      rfl
  | some field =>
      dsimp only
      by_cases hseen : done.2.contains field = true
      · simp only [if_pos hseen]
        exact Follows.of_error rfl fun _ _ => ⟨_, rfl, rfl⟩
      · simp only [if_neg hseen]
        rw [readPair_eq separator]
        exact (readsAs_readSetting field).map (fun setting => (done.1.set setting, field :: done.2))
          [.member name] here

/-- What is made of the items of a list; too many are refused. -/
def settled (count : Nat) (taken : Except ConfigFault (Config × Bool)) : Except ConfigFault Config :=
  match taken with
  | .error fault => .error fault
  | .ok (config, false) => .ok config
  | .ok (_, true) => .error ⟨[], .tooManyItems count⟩

theorem readListEnd_done (closing : skipSpace text = ']' :: more) : readListEnd text = .ok ((), more) := by
  rw [readListEnd, closing]
  rfl

/-- Only the end of a list is one. -/
theorem exists_readListEnd_eq_error {c : Char} {rest : Chars} (opening : skipSpace text = c :: rest)
    (hc : c ≠ ']') : ∃ fault, readListEnd text = .error fault := by
  rw [readListEnd, opening]
  split
  · contradiction
  · next heq => exact absurd (List.cons.inj heq).1 hc
  · split
    · exact ⟨_, rfl⟩
    · exact ⟨_, rfl⟩
  · exact ⟨_, rfl⟩

theorem nextItem_done {first : Bool} (closing : skipSpace text = ']' :: more) :
    nextItem first text = .ok none := by
  rw [nextItem, closing]
  rfl

/-- Where an item starts, it is the next one. -/
theorem nextItem_of_starts {first : Bool} {start tail : Chars} {c : Char} (starts : Starts first text start)
    (opening : skipSpace start = c :: tail) (hc : c ≠ ']') : nextItem first text = .ok (some (c :: tail)) := by
  cases starts with
  | first =>
      rw [nextItem, opening]
      split
      · contradiction
      · next heq => exact absurd (List.cons.inj heq).1 hc
      · next heq =>
        obtain ⟨rfl, rfl⟩ := List.cons.inj heq
        rfl
  | next comma =>
      rw [nextItem, comma]
      show (if false = true then _ else if ',' = ',' then _ else _) = _
      rw [if_neg Bool.false_ne_true, if_pos rfl, opening]
      split
      · contradiction
      · next heq => exact absurd (List.cons.inj heq).1 hc
      · rfl

/-- The setting of an item is read where it begins, and then the others. -/
theorem readItems_of_item {position : Nat} {field : Field} {fields : List Field} {config : Config}
    {item : Chars} (hitem : nextItem (position == 0) text = .ok (some item)) :
    readItems position (field :: fields) config text
      = Except.bind (readSetting [.item position] field item) fun r =>
          readItems (position + 1) fields (config.set r.1) r.2 := by
  rw [readItems, hitem]
  dsimp only
  cases readSetting [.item position] field item with
  | error fault => rfl
  | ok r => rfl

/-- The items of a configuration are read as they are taken. -/
theorem follows_readItems {items : List Document} {fields : List Field} {position : Nat}
    (h : BeginsItems (position == 0) text items more) (config : Config) (count : Nat) :
    Follows (readItems position fields config text) more
      ((Document.values? items).map fun values => settled count (ofItems position config fields values)) := by
  induction fields generalizing position text items config with
  | nil =>
      cases h with
      | done closing =>
          rw [readItems, readListEnd_done closing]
          rfl
      | @item _ _ start _ _ item items starts here others =>
          -- there is no field left for the item, and it is no end of the list
          have hrefused : ∃ fault, readListEnd text = .error fault := by
            generalize (position == 0) = first at starts
            cases starts with
            | first =>
                obtain ⟨c, rest, hopen, hc⟩ := here.opens
                exact exists_readListEnd_eq_error hopen hc
            | next comma => exact exists_readListEnd_eq_error comma (by decide)
          obtain ⟨fault, hfault⟩ := hrefused
          rw [readItems, hfault]
          cases hvalues : Document.values? (item :: items) with
          | none => exact ⟨_, rfl⟩
          | some values =>
              obtain ⟨value, -, hrest⟩ := Option.bind_eq_some_iff.1 hvalues
              obtain ⟨others, -, rfl⟩ := Option.map_eq_some_iff.1 hrest
              exact ⟨_, rfl, rfl⟩
  | cons field fields ih =>
      cases h with
      | done closing =>
          rw [readItems, nextItem_done closing, readListEnd_done closing]
          rfl
      | @item _ _ start rest _ item items starts here others =>
          obtain ⟨c, tail, hopen, hc, hhere, -⟩ := here.at_opening
          rw [readItems_of_item (nextItem_of_starts starts hopen hc), Document.values?]
          have hothers : BeginsItems (position + 1 == 0) rest items more := others
          have hfollows : Follows (readSetting [.item position] field (c :: tail)) rest
              (item.value?.map fun value => settingOf [.item position] value field) :=
            readsAs_readSetting field [.item position] hhere
          have htake : ∀ value values,
              settled count (ofItems position config (field :: fields) (value :: values))
                = settingOf [.item position] value field >>= fun setting =>
                    settled count (ofItems (position + 1) (config.set setting) fields values) := by
            intro value values
            rw [ofItems]
            cases settingOf [.item position] value field with
            | error fault => rfl
            | ok setting => rfl
          simp only [Option.map_bind, Function.comp_def, Option.map_map, htake]
          exact hfollows.next fun setting => ih hothers (config.set setting)

/-- A configuration is neither a word nor a token: only lists and objects are looked into. -/
theorem read_of_kind_ne (h : Begins text document more) (harray : document.kind ≠ .array)
    (hobject : document.kind ≠ .object) : read text = refuse [] .config (skipSpace text) := by
  unfold read
  split
  · next opening => exact absurd (h.kind_of_opening opening) hobject
  · next opening => exact absurd (h.kind_of_opening opening) harray
  · rfl

/-- **CONFIGURATIONS ARE READ AS THEY ARE TAKEN**, from what is looked at in a document. -/
theorem follows_read (h : Begins text document more) :
    Follows (read text) more ((seen? document).map ofJsonOnce) := by
  by_cases hobject : document.kind = .object
  · cases h with
    | object opening inside =>
        rw [read, opening, seen?, Option.map_map]
        have hmembers := (@follows_readMembers _ [] _ _ _ follows_readMember _ _ _ _ _ inside
          (Nat.le_succ _) ({}, [])).map Prod.fst
        rw [Option.map_map] at hmembers
        exact hmembers
    | null | yes | no | string | negative | positive | array => exact nomatch hobject
  · have hseen : seen? document = document.value? := by
      cases document with
      | object => exact absurd rfl hobject
      | null | bool | number | string | array => rfl
    rw [hseen]
    by_cases harray : document.kind = .array
    · cases h with
      | @array _ rest _ items opening inside =>
          rw [read, opening, Document.value?, Option.map_map]
          -- the number of the items is known only where all of them have a value
          have hitems := fun count => @follows_readItems _ _ items Field.all 0 inside {} count
          cases hvalues : Document.values? items with
          | none =>
              have hfollows := hitems 0
              rw [hvalues] at hfollows
              exact hfollows
          | some values =>
              have hfollows := hitems values.length
              rw [hvalues] at hfollows
              exact hfollows
      | null | yes | no | string | negative | positive | object => exact nomatch harray
    · obtain ⟨fault, hfault, hplace⟩ := exists_refuse_eq [] .config Config (skipSpace text)
      refine Follows.of_error ((read_of_kind_ne h harray hobject).trans hfault) fun value hvalue => ?_
      have hkind := h.kind_eq hvalue
      cases value with
      | array => exact absurd hkind.symm harray
      | object => exact absurd hkind.symm hobject
      | null | bool | integer | float | string => exact ⟨_, rfl, hplace.symm⟩

/-! ## What is read is a document -/

/-- A reader takes nothing but documents off the front. -/
def TakesDocuments {α : Type} (readValue : FaultPlace → Chars → Step α) : Prop :=
  ∀ place {text more : Chars} {a : α}, readValue place text = .ok (a, more) →
    ∃ document, Begins text document more

theorem TakesDocuments.map {α β : Type} {readValue : FaultPlace → Chars → Step α}
    (h : TakesDocuments readValue) (f : α → β) :
    TakesDocuments fun place text => (readValue place text).map fun r => (f r.1, r.2) := by
  intro place text more b hb
  obtain ⟨a, ha, -⟩ := exists_of_map_ok hb
  exact h place ha

theorem ok_of_locate {α : Type} {place : FaultPlace} {reading : Reading α} {r : α × Chars}
    (h : locate place reading = .ok r) : reading = .ok r := by
  cases reading with
  | error fault => exact nomatch h
  | ok found => exact congrArg Except.ok (Except.ok.inj h)

theorem refuse_ne_ok {α : Type} (place : FaultPlace) (expected : Expected) (text : Chars) (r : α × Chars) :
    (refuse place expected text : Step α) ≠ .ok r := by
  obtain ⟨fault, hfault, -⟩ := exists_refuse_eq place expected α text
  rw [hfault]
  exact fun h => nomatch h

/-- A string is taken where a document begins that is a string. -/
theorem takesDocuments_readString : TakesDocuments readString := by
  intro place text more value h
  unfold readString at h
  split at h
  · next opening => exact ⟨_, .string opening (skipString_of_readString (ok_of_locate h))⟩
  · exact absurd h (refuse_ne_ok _ _ _ _)

/-- A boolean value is taken where a document begins that is one. -/
theorem takesDocuments_readBool : TakesDocuments readBool := by
  intro place text more value h
  unfold readBool at h
  split at h
  · next opening =>
    obtain ⟨_, hword, -⟩ := exists_of_map_ok (f := fun _ => true) (ok_of_locate h)
    exact ⟨_, .yes opening hword⟩
  · next opening =>
    obtain ⟨_, hword, -⟩ := exists_of_map_ok (f := fun _ => false) (ok_of_locate h)
    exact ⟨_, .no opening hword⟩
  · exact absurd h (refuse_ne_ok _ _ _ _)

/-- Where no key is left, the object ends. -/
theorem skipSpace_of_readKey_none {first : Bool} (h : readKey first text = .ok (none, more)) :
    skipSpace text = '\x7d' :: more := by
  unfold readKey at h
  split at h
  · exact nomatch h
  · next closing =>
    obtain rfl : _ = more := congrArg Prod.snd (Except.ok.inj h)
    exact closing
  · split at h
    · split at h
      · obtain ⟨_, -, hname⟩ := exists_of_map_ok (f := some) h
        exact nomatch hname
      · exact nomatch h
    · split at h
      · split at h
        · exact nomatch h
        · obtain ⟨_, -, hname⟩ := exists_of_map_ok (f := some) h
          exact nomatch hname
        · exact nomatch h
        · exact nomatch h
      · exact nomatch h

/-- Where a key is read, a member starts with it. -/
theorem exists_of_readKey_some {first : Bool} {name : String} (h : readKey first text = .ok (some name, more)) :
    ∃ start key, Starts first text start ∧ skipSpace start = '"' :: key
      ∧ Json.readString key = .ok (name, more) := by
  unfold readKey at h
  split at h
  · exact nomatch h
  · exact nomatch h
  · next c rest _ hopen =>
    split at h
    -- the first key stands alone, any later one behind a comma
    · next hfirst =>
      split at h
      · next hquote =>
        obtain ⟨value, hread, hname⟩ := exists_of_map_ok (f := some) h
        obtain rfl : value = name := Option.some.inj hname
        rw [hquote] at hopen
        exact ⟨text, rest, hfirst ▸ .first, hopen, hread⟩
      · exact nomatch h
    · next hfirst =>
      split at h
      · next hcomma =>
        rw [hcomma] at hopen
        split at h
        · exact nomatch h
        · next key quote =>
          obtain ⟨value, hread, hname⟩ := exists_of_map_ok (f := some) h
          obtain rfl : value = name := Option.some.inj hname
          exact ⟨rest, key, Bool.eq_false_iff.2 hfirst ▸ .next hopen, quote, hread⟩
        · exact nomatch h
        · exact nomatch h
      · exact nomatch h

/-- After a key there is a colon, and then the value. -/
theorem exists_of_readPair {α : Type} {place : FaultPlace} {readValue : FaultPlace → Chars → Step α}
    {name : String} {r : α × Chars} (h : readPair place readValue name text = .ok r) :
    ∃ rest, skipSpace text = ':' :: rest ∧ readValue (place ++ [.member name]) rest = .ok r := by
  unfold readPair at h
  split at h
  · cases h
  · next rest hcolon => exact ⟨rest, skipSpace_of_readColon hcolon, h⟩

/-- If the reader of a member takes a document after the colon, the members of an object
    are what is read. -/
theorem begins_of_readMembers {σ : Type} {place : FaultPlace} {readMember : σ → String → Chars → Step σ}
    (hmember : ∀ state name {colon after : Chars} {next : σ},
      readMember state name colon = .ok (next, after) →
        ∃ rest document, skipSpace colon = ':' :: rest ∧ Begins rest document after)
    {budget : Nat} {first : Bool} {state result : σ}
    (h : readMembers place readMember budget first state text = .ok (result, more)) :
    ∃ members, BeginsMembers first text members more := by
  induction budget generalizing first state text with
  | zero => cases h
  | succ budget ih =>
      unfold readMembers at h
      split at h
      · cases h
      · next hkey =>
        obtain rfl : _ = more := congrArg Prod.snd (Except.ok.inj h)
        exact ⟨[], .done (skipSpace_of_readKey_none hkey)⟩
      · next name colon hkey =>
        split at h
        · cases h
        · next after hafter =>
          obtain ⟨start, key, starts, quote, hread⟩ := exists_of_readKey_some hkey
          obtain ⟨rest, document, separator, here⟩ := hmember _ _ hafter
          obtain ⟨members, others⟩ := ih h
          exact ⟨_, .member starts quote (.intro (skipString_of_readString hread) separator here) others⟩

/-- **A MAP IS TAKEN AS AN OBJECT**, if its values are taken as documents. -/
theorem takesDocuments_readMap {α : Type} {readValue : FaultPlace → Chars → Step α}
    (hvalue : TakesDocuments readValue) : TakesDocuments (readMap readValue) := by
  intro place text more values h
  unfold readMap at h
  split at h
  · next opening =>
    refine (begins_of_readMembers ?_ h).elim fun members inside => ⟨_, .object opening inside⟩
    intro done name colon after next hnext
    obtain ⟨a, ha, -⟩ := exists_of_map_ok (f := Members.put done name) hnext
    obtain ⟨rest, separator, hread⟩ := exists_of_readPair ha
    obtain ⟨document, here⟩ := hvalue _ hread
    exact ⟨rest, document, separator, here⟩
  · exact absurd h (refuse_ne_ok _ _ _ _)

/-- Every known member takes one document. -/
theorem takesDocuments_readSetting (field : Field) :
    TakesDocuments fun place text => readSetting place field text := by
  cases field with
  | locale => exact takesDocuments_readString.map Setting.locale
  | abortEarly => exact takesDocuments_readBool.map Setting.abortEarly
  | allowUnknownFields => exact takesDocuments_readBool.map Setting.allowUnknownFields
  | messages =>
      exact (takesDocuments_readMap (takesDocuments_readMap takesDocuments_readString)).map Setting.messages

/-- A member takes one document, known or not. -/
theorem exists_of_readMember (done : Config × List Field) (name : String) {colon after : Chars}
    {next : Config × List Field} (h : readMember done name colon = .ok (next, after)) :
    ∃ rest document, skipSpace colon = ':' :: rest ∧ Begins rest document after := by
  unfold readMember at h
  split at h
  · obtain ⟨_, hpair, -⟩ := exists_of_map_ok (f := fun _ => done) h
    obtain ⟨rest, separator, hskip⟩ := exists_of_readPair hpair
    obtain ⟨document, here⟩ := begins_of_skipValue _ (ok_of_locate hskip)
    exact ⟨rest, document, separator, here⟩
  · next field _ =>
    split at h
    · exact nomatch h
    · obtain ⟨_, hpair, -⟩ :=
        exists_of_map_ok (f := fun setting => (done.1.set setting, field :: done.2)) h
      obtain ⟨rest, separator, hread⟩ := exists_of_readPair hpair
      obtain ⟨document, here⟩ := takesDocuments_readSetting field _ hread
      exact ⟨rest, document, separator, here⟩

/-- Nothing but a bracket ends a list. -/
theorem skipSpace_of_readListEnd (h : readListEnd text = .ok ((), more)) :
    skipSpace text = ']' :: more := by
  unfold readListEnd at h
  split at h
  · cases h
  · next closing =>
    obtain rfl : _ = more := congrArg Prod.snd (Except.ok.inj h)
    exact closing
  · split at h
    · cases h
    · cases h
  · cases h

/-- The next item is what starts at once or after a comma. -/
theorem exists_of_nextItem {first : Bool} {item : Chars} (h : nextItem first text = .ok (some item)) :
    ∃ start, Starts first text start ∧ skipSpace start = item := by
  unfold nextItem at h
  split at h
  · cases h
  · cases h
  · next c rest _ hopen =>
    split at h
    · next hfirst =>
      obtain rfl : c :: rest = item := Option.some.inj (Except.ok.inj h)
      exact ⟨text, hfirst ▸ .first, hopen⟩
    · next hfirst =>
      split at h
      · next hcomma =>
        rw [hcomma] at hopen
        split at h
        · cases h
        · cases h
        · exact ⟨rest, Bool.eq_false_iff.2 hfirst ▸ .next hopen, Option.some.inj (Except.ok.inj h)⟩
      · cases h

/-- What is read as fields in order are the items of a list, the remaining ones being none. -/
theorem begins_of_readItems {position : Nat} {fields : List Field} {config result : Config}
    (h : readItems position fields config text = .ok (result, more)) :
    ∃ items, BeginsItems (position == 0) text items more := by
  induction fields generalizing position config text with
  | nil =>
      obtain ⟨_, hend, -⟩ := exists_of_map_ok (f := fun _ => config) h
      exact ⟨[], .done (skipSpace_of_readListEnd (ok_of_locate hend))⟩
  | cons field fields ih =>
      unfold readItems at h
      split at h
      · exact nomatch h
      · obtain ⟨_, hend, -⟩ := exists_of_map_ok (f := fun _ => config) h
        exact ⟨[], .done (skipSpace_of_readListEnd (ok_of_locate hend))⟩
      · next item hitem =>
        split at h
        · exact nomatch h
        · next hread =>
          obtain ⟨start, starts, rfl⟩ := exists_of_nextItem hitem
          obtain ⟨document, here⟩ := takesDocuments_readSetting field _ hread
          obtain ⟨items, others⟩ := ih h
          exact ⟨document :: items, .item starts (here.congr (skipSpace_skipSpace start).symm) others⟩

/-- **WHAT IS READ IS A DOCUMENT.** -/
theorem begins_of_read {config : Config} (h : read text = .ok (config, more)) :
    ∃ document, Begins text document more := by
  unfold read at h
  split at h
  · next opening =>
    obtain ⟨_, hmembers, -⟩ := exists_of_map_ok (f := Prod.fst (β := List Field)) h
    obtain ⟨members, inside⟩ := begins_of_readMembers exists_of_readMember hmembers
    exact ⟨_, .object opening inside⟩
  · next opening =>
    obtain ⟨items, inside⟩ := begins_of_readItems h
    exact ⟨_, .array opening inside⟩
  · exact absurd h (refuse_ne_ok _ _ _ _)

end Conform.Config
