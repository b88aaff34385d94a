import Mathlib.Data.List.Forall2
import Mathlib.Data.List.Nodup
import Conform.Proofs.Configuring
import Conform.Proofs.Nulls

/-! # Readers — one configuration from a text and from its value

    A configuration can be read from a text, or taken from the value that the text was
    parsed to.  A parsed value has one member of each name, since its members were merged.
    Where the names of a document differ there is nothing to merge, and the two readers
    come to the same.  Where they do not, what is read from the text can also be taken
    from the parsed value (`ofJson_merged`), but not the other way round.

    The main result is `config_readers_agree`. -/

namespace Conform

open Conform.Json

/-! ## Merging -/

namespace Members

variable {α : Type}

/-- Where names differ, a member is put after those before it. -/
theorem put_of_nodup_names {base rest : Members α} {name : String} {value : α}
    (h : (names (base ++ (name, value) :: rest)).Nodup) (other : α) :
    put base name other = base ++ [(name, other)] := by
  rw [names, List.map_append, List.nodup_append] at h
  refine put_of_ne other fun earlier hmem heq => ?_
  exact h.2.2 earlier.1 (List.mem_map_of_mem hmem) name List.mem_cons_self heq

/-- Members whose names differ are merged by putting them after one another. -/
theorem merge_eq_append {base extra : Members α} (h : (names (base ++ extra)).Nodup) :
    merge base extra = base ++ extra := by
  induction extra generalizing base with
  | nil => exact (List.append_nil base).symm
  | cons entry rest ih =>
      show merge (put base entry.1 entry.2) rest = _
      rw [put_of_nodup_names h entry.2, ih (by rwa [List.append_assoc]), List.append_assoc]
      rfl

/-- Putting a member makes no name occur twice. -/
theorem nodup_names_put {members : Members α} (h : (names members).Nodup) (name : String) (value : α) :
    (names (put members name value)).Nodup := by
  rw [names_put]
  split
  · exact h
  · next habsent =>
    refine List.nodup_append.2 ⟨h, List.nodup_singleton name, ?_⟩
    intro other hmem _ hname heq
    obtain rfl := List.mem_singleton.1 hname
    exact habsent (hasName_iff_mem_names.2 (heq ▸ hmem))

theorem nodup_names_merge {base : Members α} (h : (names base).Nodup) (extra : Members α) :
    (names (merge base extra)).Nodup := by
  induction extra generalizing base with
  | nil => exact h
  | cons entry rest ih => exact ih (nodup_names_put h entry.1 entry.2)

end Members

namespace Json

mutual

/-- Where names differ there is nothing to merge. -/
theorem merged_of_namesDiffer : ∀ value : Json, value.NamesDiffer → value.merged = value
  | .null, _ | .bool _, _ | .integer _, _ | .float _, _ | .string _, _ => rfl
  | .array items, h => congrArg Json.array (mergedItems_of_namesDiffer items fun _ hmem => h.inside hmem)
  | .object members, h => by
      have hmembers := mergedMembers_of_namesDiffer members fun _ hmem => h.inside hmem
      have hnames : (Members.names ([] ++ members)).Nodup := h.here
      rw [merged, hmembers, Members.merge_eq_append hnames]
      rfl
termination_by structural value => value

theorem mergedItems_of_namesDiffer : ∀ items : List Json, (∀ item ∈ items, item.NamesDiffer) →
    mergedItems items = items
  | [], _ => rfl
  | item :: rest, h => by
      rw [mergedItems, merged_of_namesDiffer item (h item List.mem_cons_self),
        mergedItems_of_namesDiffer rest fun other hmem => h other (List.mem_cons_of_mem _ hmem)]
termination_by structural items => items

theorem mergedMembers_of_namesDiffer : ∀ members : List (String × Json),
    (∀ value ∈ members.map Prod.snd, value.NamesDiffer) → mergedMembers members = members
  | [], _ => rfl
  | (name, value) :: rest, h => by
      rw [mergedMembers, merged_of_namesDiffer value (h value List.mem_cons_self),
        mergedMembers_of_namesDiffer rest fun other hmem => h other (List.mem_cons_of_mem _ hmem)]
termination_by structural members => members

end

end Json

namespace Config

/-! ## What merging leaves -/

/-- What is taken from a value is taken from it after its members were merged. -/
def Survives {α : Type} (valueOf : FaultPlace → Json → Except ConfigFault α) : Prop :=
  ∀ place value a, valueOf place value = .ok a → valueOf place value.merged = .ok a

/-- What survives merging survives it after a change to the result. -/
theorem Survives.map {α β : Type} {valueOf : FaultPlace → Json → Except ConfigFault α}
    (h : Survives valueOf) (f : α → β) : Survives fun place value => f <$> valueOf place value := by
  intro place value b hb
  dsimp only at hb ⊢
  cases ha : valueOf place value with
  | error fault =>
      rw [ha] at hb
      exact nomatch hb
  | ok a =>
      rw [ha] at hb
      rw [h place value a ha]
      exact hb

/-- A string has nothing to merge. -/
theorem survives_stringOf : Survives stringOf := by
  intro place value a h
  cases value with
  | string text => exact h
  | null | bool | integer | float | array | object => exact nomatch h

/-- A boolean value has nothing to merge. -/
theorem survives_boolOf : Survives boolOf := by
  intro place value a h
  cases value with
  | bool b => exact h
  | null | string | integer | float | array | object => exact nomatch h

section Maps

variable {α : Type} {place : FaultPlace} {valueOf : FaultPlace → Json → Except ConfigFault α}

/-- Members and what is taken from them, one by one. -/
def Aligned (place : FaultPlace) (valueOf : FaultPlace → Json → Except ConfigFault α) :
    Members Json → Members α → Prop :=
  List.Forall₂ fun member entry =>
    member.1 = entry.1 ∧ valueOf (place ++ [.member member.1]) member.2 = .ok entry.2

/-- Putting a member and what is taken from it keeps both in line. -/
theorem Aligned.put {members : Members Json} {entries : Members α} (h : Aligned place valueOf members entries)
    {name : String} {value : Json} {a : α} (ha : valueOf (place ++ [.member name]) value = .ok a) :
    Aligned place valueOf (Members.put members name value) (Members.put entries name a) := by
  induction h with
  | nil => exact .cons ⟨rfl, ha⟩ .nil
  | @cons member entry members entries hentry hrest ih =>
      obtain ⟨key, old⟩ := member
      obtain ⟨other, b⟩ := entry
      obtain rfl : key = other := hentry.1
      rw [Members.put, Members.put]
      by_cases hkey : key = name
      · rw [if_pos hkey, if_pos hkey]
        subst hkey
        exact .cons ⟨rfl, ha⟩ hrest
      · rw [if_neg hkey, if_neg hkey]
        exact .cons hentry ih

theorem Aligned.names_eq {members : Members Json} {entries : Members α}
    (h : Aligned place valueOf members entries) : Members.names members = Members.names entries := by
  induction h with
  | nil => rfl
  | cons hentry _ ih => exact congrArg₂ List.cons hentry.1 ih

/-- From members of different names all is taken in order. -/
theorem Aligned.membersOf_eq {members : Members Json} {entries : Members α}
    (h : Aligned place valueOf members entries) :
    ∀ done, (Members.names (done ++ entries)).Nodup →
      membersOf place valueOf done members = .ok (done ++ entries) := by
  induction h with
  | nil =>
      intro done _
      rw [List.append_nil]
      rfl
  | @cons member entry members entries hentry hrest ih =>
      intro done hnames
      obtain ⟨name, value⟩ := member
      obtain ⟨other, a⟩ := entry
      obtain rfl : name = other := hentry.1
      rw [membersOf, hentry.2]
      show membersOf place valueOf (Members.put done name a) members = _
      rw [Members.put_of_nodup_names hnames a, ih _ (by rwa [List.append_assoc]), List.append_assoc]
      rfl

/-- Merging members and then taking from them is taking from them one after the other. -/
theorem aligned_merge (hvalue : Survives valueOf) {members : List (String × Json)} :
    ∀ {base : Members Json} {done entries : Members α}, Aligned place valueOf base done →
      membersOf place valueOf done members = .ok entries →
      Aligned place valueOf (Members.merge base (mergedMembers members)) entries := by
  induction members with
  | nil =>
      intro base done entries h htaken
      obtain rfl : done = entries := Except.ok.inj htaken
      exact h
  | cons member rest ih =>
      intro base done entries h htaken
      obtain ⟨name, value⟩ := member
      rw [membersOf] at htaken
      cases ha : valueOf (place ++ [.member name]) value with
      | error fault =>
          rw [ha] at htaken
          cases htaken
      | ok a =>
          rw [ha] at htaken
          exact ih (h.put (hvalue _ _ _ ha)) htaken

/-- **A MAP SURVIVES MERGING**: of two members with one name the later one counts either way. -/
theorem survives_mapOf (hvalue : Survives valueOf) : Survives (mapOf valueOf) := by
  intro place value entries h
  cases value with
  | object members =>
      -- the entries are those of the merged members, and these have different names
      have haligned : Aligned place valueOf (Members.merge [] (mergedMembers members)) entries :=
        aligned_merge hvalue .nil h
      have hnames : (Members.names entries).Nodup := by
        rw [← haligned.names_eq]
        exact Members.nodup_names_merge (show (Members.names []).Nodup from List.nodup_nil) _
      exact haligned.membersOf_eq [] hnames
  | null | bool | string | integer | float | array => exact nomatch h

end Maps

/-- Every setting survives merging. -/
theorem survives_settingOf (field : Field) : Survives fun place value => settingOf place value field := by
  cases field with
  | locale => exact survives_stringOf.map Setting.locale
  | abortEarly => exact survives_boolOf.map Setting.abortEarly
  | allowUnknownFields => exact survives_boolOf.map Setting.allowUnknownFields
  | messages => exact (survives_mapOf (survives_mapOf survives_stringOf)).map Setting.messages

theorem name_of_ofName? {name : String} {field : Field} (h : Field.ofName? name = some field) :
    field.name = name := by
  simpa using List.find?_some h

theorem fieldsOf_append (members more : List (String × Json)) :
    fieldsOf (members ++ more) = fieldsOf members ++ fieldsOf more := List.filterMap_append

/-- A field is among the known members if its name is among the names. -/
theorem mem_fieldsOf {members : Members Json} {name : String} {field : Field}
    (hfield : Field.ofName? name = some field) (h : name ∈ Members.names members) :
    field ∈ fieldsOf members := by
  obtain ⟨member, hmem, rfl⟩ := List.mem_map.1 h
  exact List.mem_filterMap.2 ⟨member, hmem, hfield⟩

theorem ofMembers_cons (config : Config) (name : String) (value : Json) (rest : List (String × Json)) :
    ofMembers config ((name, value) :: rest)
      = match Field.ofName? name with
        | none => ofMembers config rest
        | some field =>
            match settingOf [.member name] value field with
            | .error fault => .error fault
            | .ok setting => ofMembers (config.set setting) rest := rfl

/-- Members in a row set a configuration one after another. -/
theorem ofMembers_append (members more : List (String × Json)) :
    ∀ {config between : Config}, ofMembers config members = .ok between →
      ofMembers config (members ++ more) = ofMembers between more := by
  induction members with
  | nil =>
      intro config between h
      obtain rfl : config = between := Except.ok.inj h
      rfl
  | cons member rest ih =>
      intro config between h
      obtain ⟨name, value⟩ := member
      rw [ofMembers] at h
      rw [List.cons_append, ofMembers]
      split at h
      · exact ih h
      · split at h
        · cases h
        · exact ih h

/-- A member that is not known leaves the configuration as it is. -/
theorem ofMembers_put_unknown {name : String} (hname : Field.ofName? name = none) (value : Json)
    (members : Members Json) :
    (∀ config, ofMembers config (Members.put members name value) = ofMembers config members)
      ∧ fieldsOf (Members.put members name value) = fieldsOf members := by
  induction members with
  | nil =>
      refine ⟨fun config => ?_, ?_⟩
      · rw [Members.put, ofMembers_cons, hname]
      · rw [Members.put, fieldsOf_cons, hname]
  | cons member rest ih =>
      obtain ⟨key, old⟩ := member
      rw [Members.put]
      by_cases hkey : key = name
      · rw [if_pos hkey, hkey]
        refine ⟨fun config => ?_, ?_⟩
        · rw [ofMembers, ofMembers, hname]
        · rw [fieldsOf_cons, fieldsOf_cons, hname]
      · rw [if_neg hkey]
        refine ⟨fun config => ?_, ?_⟩
        · rw [ofMembers, ofMembers]
          cases Field.ofName? key with
          | none => exact ih.1 config
          | some field =>
              dsimp only
              cases settingOf [.member key] old field with
              | error fault => rfl
              | ok setting => exact ih.1 (config.set setting)
        · rw [fieldsOf_cons, fieldsOf_cons, ih.2]

/-- With known members once, what is taken from the members is taken from them merged. -/
theorem ofMembers_merge {members : List (String × Json)} (honce : (fieldsOf members).Nodup) :
    ∀ {base : Members Json} {start between config : Config}, ofMembers start base = .ok between →
      (∀ field ∈ fieldsOf members, field ∉ fieldsOf base) → ofMembers between members = .ok config →
      ofMembers start (Members.merge base (mergedMembers members)) = .ok config := by
  induction members with
  | nil =>
      intro base start between config hbase _ h
      obtain rfl : between = config := Except.ok.inj h
      exact hbase
  | cons member rest ih =>
      intro base start between config hbase hnew h
      obtain ⟨name, value⟩ := member
      rw [fieldsOf_cons] at honce hnew
      rw [ofMembers] at h
      show ofMembers start (Members.merge (Members.put base name value.merged) (mergedMembers rest)) = _
      cases hfield : Field.ofName? name with
      | none =>
          rw [hfield] at honce hnew h
          obtain ⟨hput, hfields⟩ := ofMembers_put_unknown hfield value.merged base
          exact ih honce ((hput start).trans hbase) (hfields ▸ hnew) h
      | some field =>
          rw [hfield] at honce hnew h
          dsimp only at honce hnew h
          obtain ⟨hfresh, hrest⟩ := List.nodup_cons.1 honce
          -- the field is new to the base, and so is its name
          have hput : Members.put base name value.merged = base ++ [(name, value.merged)] := by
            refine Members.put_of_ne _ fun other hmem heq => ?_
            exact hnew field List.mem_cons_self (mem_fieldsOf hfield (heq ▸ List.mem_map_of_mem hmem))
          cases hsetting : settingOf [.member name] value field with
          | error fault =>
              rw [hsetting] at h
              cases h
          | ok setting =>
              rw [hsetting] at h
              rw [hput]
              have hmerged : settingOf [.member name] value.merged field = .ok setting :=
                survives_settingOf field _ _ _ hsetting
              refine ih hrest ?_ ?_ h
              · rw [ofMembers_append _ _ hbase, ofMembers_cons, hfield]
                dsimp only
                rw [hmerged]
                rfl
              · intro other hmem hseen
                rw [fieldsOf_append, fieldsOf_cons, hfield] at hseen
                rcases List.mem_append.1 hseen with hbefore | hhere
                · exact hnew other (List.mem_cons_of_mem _ hmem) hbefore
                · obtain rfl : other = field := List.mem_singleton.1 hhere
                  exact hfresh hmem

/-- Fields that stand in order are taken alike after merging. -/
theorem ofItems_merged {fields : List Field} {items : List Json} :
    ∀ {position : Nat} {config : Config} {result : Config × Bool},
      ofItems position config fields items = .ok result →
      ofItems position config fields (mergedItems items) = .ok result := by
  induction items generalizing fields with
  | nil => exact fun h => h
  | cons item rest ih =>
      intro position config result h
      cases fields with
      | nil => exact h
      | cons field fields =>
          rw [ofItems] at h
          rw [mergedItems, ofItems]
          cases hsetting : settingOf [.item position] item field with
          | error fault =>
              rw [hsetting] at h
              cases h
          | ok setting =>
              have hmerged : settingOf [.item position] item.merged field = .ok setting :=
                survives_settingOf field _ _ _ hsetting
              rw [hsetting] at h
              rw [hmerged]
              exact ih h

/-- **WHAT IS TAKEN FROM A VALUE** with its known members once is taken from the parsed one. -/
theorem ofJson_merged {value : Json} {config : Config} (honce : FieldsOnce value)
    (h : ofJson value = .ok config) : ofJson value.merged = .ok config := by
  cases value with
  | object members =>
      have hbase : ofMembers {} [] = .ok ({} : Config) := rfl
      exact ofMembers_merge honce hbase (fun _ _ hmem => nomatch hmem) h
  | array items =>
      rw [ofJson] at h
      rw [merged, ofJson]
      cases hitems : ofItems 0 {} Field.all items with
      | error fault =>
          rw [hitems] at h
          exact nomatch h
      | ok result =>
          obtain ⟨taken, goesOn⟩ := result
          rw [hitems] at h
          rw [ofItems_merged hitems]
          cases goesOn with
          | false => exact h
          | true => exact nomatch h
  | null | bool | string | integer | float => exact nomatch h

/-! ## What is looked at -/

/-- Where a document has a value, what is looked at comes to the same configuration. -/
theorem exists_seenMembers? {members : List (Option String × Document)} :
    ∀ {values : List (String × Json)}, Document.memberValues? members = some values →
      ∃ seen, seenMembers? seeMember? members = some seen ∧ fieldsOf seen = fieldsOf values
        ∧ ∀ config, ofMembers config seen = ofMembers config values := by
  induction members with
  | nil =>
      rintro _ ⟨rfl⟩
      exact ⟨[], rfl, rfl, fun _ => rfl⟩
  | cons entry rest ih =>
      intro values h
      obtain ⟨key, document⟩ := entry
      obtain ⟨name, rfl, hdocument⟩ := Option.bind_eq_some_iff.1 h
      obtain ⟨value, hvalue, hrest⟩ := Option.bind_eq_some_iff.1 hdocument
      obtain ⟨others, hothers, rfl⟩ := Option.map_eq_some_iff.1 hrest
      obtain ⟨seen, hseen, hfields, hmembers⟩ := ih hothers
      rw [seenMembers?, Option.bind_some, seeMember?, fieldsOf_cons, hseen]
      -- members that no field takes are seen as null, and their value matters to nobody
      cases hfield : Field.ofName? name with
      | none =>
          refine ⟨(name, .null) :: seen, rfl, ?_, fun config => ?_⟩
          · rw [fieldsOf_cons, hfield]
            exact hfields
          · rw [ofMembers, ofMembers, hfield]
            exact hmembers config
      | some field =>
          refine ⟨(name, value) :: seen, ?_, ?_, fun config => ?_⟩
          · dsimp only
            rw [hvalue]
            rfl
          · rw [fieldsOf_cons, hfield, hfields]
          · rw [ofMembers, ofMembers, hfield]
            dsimp only
            cases settingOf [.member name] value field with
            | error fault => rfl
            | ok setting => exact hmembers (config.set setting)

/-- Where a document has a value, what is looked at gives the same configuration. -/
theorem exists_seen? {document : Document} {value : Json} (h : document.value? = some value) :
    ∃ seen, seen? document = some seen ∧ (FieldsOnce seen ↔ FieldsOnce value)
      ∧ ofJson seen = ofJson value := by
  cases document with
  | object members =>
      obtain ⟨values, hvalues, rfl⟩ := Option.map_eq_some_iff.1 h
      obtain ⟨seen, hseen, hfields, hmembers⟩ := exists_seenMembers? hvalues
      refine ⟨.object seen, ?_, ?_, hmembers {}⟩
      · rw [seen?, hseen]
        rfl
      · show (fieldsOf seen).Nodup ↔ (fieldsOf values).Nodup
        rw [hfields]
  | null | bool | number | string | array => exact ⟨value, h, Iff.rfl, rfl⟩

/-- Where names differ no field is set twice. -/
theorem fieldsOnce_of_namesDiffer {value : Json} (h : value.NamesDiffer) : FieldsOnce value := by
  cases value with
  | object members =>
      have hnames : (Members.names members).Nodup := h.here
      have hfields : fieldsOf members = (Members.names members).filterMap Field.ofName? := by
        rw [Members.names, List.filterMap_map]
        rfl
      show (fieldsOf members).Nodup
      rw [hfields]
      refine hnames.filterMap fun name other field hname hother => ?_
      exact (name_of_ofName? hname).symm.trans (name_of_ofName? hother)
  | null | bool | integer | float | string | array => trivial

/-! ## The two readers -/

/-- The same configuration, or faults at the same place. -/
inductive SameOutcome : Except ConfigFault Config → Except ConfigFault Config → Prop
  | config (config : Config) : SameOutcome (.ok config) (.ok config)
  | fault {fault other : ConfigFault} (place : fault.place = other.place) :
      SameOutcome (.error fault) (.error other)

theorem sameOutcome_of_follows {step : Step Config} {more : Text.Chars}
    {taken : Except ConfigFault Config} (h : Follows step more (some taken)) :
    SameOutcome (step.map Prod.fst) taken := by
  cases taken with
  | ok config =>
      rw [show step = .ok (config, more) from h]
      exact .config config
  | error fault =>
      obtain ⟨other, rfl, hplace⟩ := h
      exact .fault hplace

/-- **A CONFIGURATION IS READ EXACTLY IF IT CAN BE TAKEN** from what is looked at, and no field
    occurs twice. -/
theorem ofText_eq_ok_iff_of_begins {text : String} {document : Document} {more : Text.Chars}
    (h : Begins text.toList document more) (config : Config) :
    ofText text = .ok config
      ↔ ∃ value, seen? document = some value ∧ FieldsOnce value ∧ ofJson value = .ok config := by
  have hfollows := follows_read h
  rw [ofText]
  cases hseen : seen? document with
  | none =>
      rw [hseen] at hfollows
      obtain ⟨other, hother⟩ := hfollows
      rw [hother]
      exact ⟨fun h => (nomatch h), fun ⟨_, h, _⟩ => (nomatch h)⟩
  | some value =>
      rw [hseen] at hfollows
      have hiff : (read text.toList).map Prod.fst = .ok config ↔ ofJsonOnce value = .ok config := by
        have hsame := sameOutcome_of_follows hfollows
        generalize (read text.toList).map Prod.fst = outcome at hsame ⊢
        generalize ofJsonOnce value = taken at hsame ⊢
        cases hsame with
        | config => exact Iff.rfl
        | fault => exact ⟨fun h => (nomatch h), fun h => (nomatch h)⟩
      rw [hiff, ofJsonOnce_eq_ok_iff]
      constructor
      · exact fun h => ⟨value, rfl, h⟩
      · rintro ⟨_, ⟨rfl⟩, h⟩
        exact h

/-- How reading a configuration from a text and taking it from a value go together. -/
structure ReadersAgree (text : String) : Prop where
  /-- A configuration is read only where a text begins with a document. -/
  begins : ∀ config, ofText text = .ok config →
    ∃ document rest, Begins text.toList document rest
  /-- From a document it is read exactly if known members occur once and it can be taken from
      what is looked at. -/
  ok_iff : ∀ document, IsDocument text document → ∀ config, ofText text = .ok config
    ↔ ∃ value, seen? document = some value ∧ FieldsOnce value ∧ ofJson value = .ok config
  /-- A document whose names differ is parsed to its value, and both readers come to the same
      configuration or name the same place. -/
  same : ∀ document value, IsDocument text document → document.value? = some value →
    value.NamesDiffer → Json.ofText text = .ok value ∧ SameOutcome (ofText text) (ofJson value)
  /-- Whatever the names are, what is read from a text can be taken from the parsed value. -/
  parsed : ∀ config value, ofText text = .ok config → Json.ofText text = .ok value →
    ofJson value = .ok config

/-- **THE READERS OF CONFIGURATIONS AGREE**, on every text. -/
theorem config_readers_agree (text : String) : ReadersAgree text where
  begins := by
    intro config h
    rw [ofText] at h
    cases hread : read text.toList with
    | error fault =>
        rw [hread] at h
        exact nomatch h
    | ok result =>
        obtain ⟨document, hbegins⟩ := begins_of_read hread
        exact ⟨document, result.2, hbegins⟩
  ok_iff := by
    rintro document ⟨rest, hbegins, -⟩ config
    exact ofText_eq_ok_iff_of_begins hbegins config
  same := by
    intro document value hdocument hvalue hnames
    refine ⟨(Json.ofText_eq_ok_iff text value).2
      ⟨document, value, hdocument, hvalue, merged_of_namesDiffer value hnames⟩, ?_⟩
    obtain ⟨rest, hbegins, -⟩ := hdocument
    -- no name occurs twice, so the field that was seen last was seen only once
    obtain ⟨seen, hseen, honce, htaken⟩ := exists_seen? hvalue
    have hfollows := follows_read hbegins
    rw [hseen] at hfollows
    have hsame := sameOutcome_of_follows hfollows
    rw [ofJsonOnce_of_fieldsOnce (honce.2 (fieldsOnce_of_namesDiffer hnames)), htaken] at hsame
    exact hsame
  parsed := by
    intro config value hread hparsed
    obtain ⟨document, raw, ⟨rest, hbegins, -⟩, hraw, rfl⟩ := (Json.ofText_eq_ok_iff text value).1 hparsed
    obtain ⟨seen, hseen, honce, htaken⟩ := (ofText_eq_ok_iff_of_begins hbegins config).1 hread
    obtain ⟨other, hother, hfields, hsame⟩ := exists_seen? hraw
    obtain rfl : other = seen := Option.some.inj (hother.symm.trans hseen)
    exact ofJson_merged (hfields.1 honce) (hsame.symm.trans htaken)

/-- A text with two members of one name. -/
def twiceText : String := "\x7b\"a\":null,\"a\":null\x7d"

/-- The document that it is. -/
def twiceDocument : Document := .object [(some "a", .null), (some "a", .null)]

theorem begins_twiceText : Begins twiceText.toList twiceDocument [] := by
  have hmember : ∀ more : Text.Chars, BeginsMember ('a' :: '"' :: ':' :: 'n' :: 'u' :: 'l' :: 'l' :: more)
      (some "a", .null) more := fun more => .intro rfl rfl (.null rfl rfl)
  exact .object rfl (.member .first rfl (hmember _) (.member (.next rfl) rfl (hmember _) (.done rfl)))

/-- **MEMBERS THAT ARE NOT KNOWN MAY OCCUR TWICE**: a configuration is read from a text that is
    one document, but none whose names differ. -/
theorem twice_is_read :
    IsDocument twiceText twiceDocument ∧ ofText twiceText = .ok {}
      ∧ ¬ ∃ document value, IsDocument twiceText document ∧ document.value? = some value
          ∧ value.NamesDiffer := by
  have hdocument : IsDocument twiceText twiceDocument := ⟨[], begins_twiceText, rfl⟩
  have hunknown : Field.ofName? "a" = none := by decide
  refine ⟨hdocument, ?_, ?_⟩
  · refine (ofText_eq_ok_iff_of_begins begins_twiceText {}).2
      ⟨.object [("a", .null), ("a", .null)], ?_, ?_, ?_⟩
    · simp only [twiceDocument, seen?, seenMembers?, seeMember?]
      rfl
    · show (fieldsOf _).Nodup
      rw [fieldsOf_cons, fieldsOf_cons, hunknown]
      exact List.nodup_nil
    · rw [ofJson, ofMembers_cons, ofMembers_cons, hunknown]
      rfl
  · rintro ⟨document, value, hother, hvalue, hnames⟩
    obtain rfl := hother.unique hdocument
    obtain rfl := Option.some.inj hvalue
    have hnames : ["a", "a"].Nodup := hnames.here
    exact absurd hnames (by decide)

end Config

end Conform
