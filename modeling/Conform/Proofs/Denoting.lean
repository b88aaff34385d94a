import Conform.Proofs.Documents

/-! # Denotation — the value of a document

    A document has a value when all its tokens denote, with all its members as they
    stand.  Reading gives this value with its members merged, of two with one name the
    later one at the earlier place, and nothing where there is no value. -/

namespace Conform.Json

open Conform.Text (Chars isDigit)

/-! ## The value of a document -/

namespace Document

mutual

/-- The value of a document with all its members as they stand, if all its tokens denote. -/
def value? : Document → Option Json
  | .null => some .null
  | .bool value => some (.bool value)
  | .number value => value
  | .string value => value.map .string
  | .array items => (values? items).map .array
  | .object members => (memberValues? members).map .object
termination_by structural document => document

/-- The values of items, if all of them have one. -/
def values? : List Document → Option (List Json)
  | [] => some []
  | item :: rest => (value? item).bind fun value => (values? rest).map fun values => value :: values
termination_by structural items => items

/-- The members with their values, if all of them have a name and a value. -/
def memberValues? : List (Option String × Document) → Option (List (String × Json))
  | [] => some []
  | (name, document) :: rest =>
      name.bind fun name => (value? document).bind fun value =>
        (memberValues? rest).map fun members => (name, value) :: members
termination_by structural members => members

end

end Document

mutual

/-- The value with its members merged: of two with one name the later value counts, at the
    earlier place. -/
def merged : Json → Json
  | .array items => .array (mergedItems items)
  | .object members => .object (Members.merge [] (mergedMembers members))
  | value => value
termination_by structural value => value

/-- The items with their members merged. -/
def mergedItems : List Json → List Json
  | [] => []
  | item :: rest => merged item :: mergedItems rest
termination_by structural items => items

/-- All members, each with the members in it merged. -/
def mergedMembers : List (String × Json) → List (String × Json)
  | [] => []
  | (name, value) :: rest => (name, merged value) :: mergedMembers rest
termination_by structural members => members

end

/-! ## Reading -/

theorem toOption_map {ε α β : Type} (x : Except ε α) (f : α → β) :
    (x.map f).toOption = x.toOption.map f := by
  cases x <;> rfl

theorem eq_ok_of_toOption {ε α : Type} {x : Except ε α} {a : α} (h : x.toOption = some a) :
    x = .ok a := by
  cases x with
  | error error => exact nomatch h
  | ok b => exact congrArg Except.ok (Option.some.inj h)

/-- A reading that comes to what is found fails exactly if nothing is. -/
theorem cases_of_toOption {ε α β : Type} {x : Except ε α} {found : Option β} {f : β → α}
    (h : x.toOption = found.map f) :
    (found = none ∧ ∃ error, x = .error error) ∨ ∃ b, found = some b ∧ x = .ok (f b) := by
  cases found with
  | some b => exact .inr ⟨b, rfl, eq_ok_of_toOption h⟩
  | none => cases x with
    | error error => exact .inl ⟨rfl, error, rfl⟩
    | ok a => exact nomatch h

/-- What a numeral denotes is an integer or a double. -/
theorem cases_of_value {numeral : Numeral} {value : Json} (h : numeral.value = .ok value) :
    (∃ n, value = .integer n) ∨ ∃ x, value = .float x := by
  unfold Numeral.value at h
  dsimp only at h
  split at h
  · exact .inl ⟨_, (Except.ok.inj h).symm⟩
  · split at h
    · exact .inl ⟨_, (Except.ok.inj h).symm⟩
    · split at h
      · exact .inr ⟨_, (Except.ok.inj h).symm⟩
      · cases h

theorem merged_value {numeral : Numeral} {value : Json} (h : numeral.value = .ok value) :
    value.merged = value := by
  rcases cases_of_value h with ⟨n, rfl⟩ | ⟨x, rfl⟩
  · rfl
  · rfl

/-- A number is read to where its form ends, if it is in range. -/
theorem toOption_readNumber {negative : Bool} {text more : Chars} {numeral : Numeral}
    (h : readNumeral negative text = .ok (numeral, more)) :
    (readNumber negative text).toOption
      = numeral.value.toOption.map fun value => (value.merged, more) := by
  rw [readNumber, h]
  show (numeral.value >>= fun value => pure (value, more)).toOption = _
  cases hvalue : numeral.value with
  | error fault => rfl
  | ok value => exact congrArg (fun merged => some (merged, more)) (merged_value hvalue).symm

section Openings

variable {text rest : Chars} (budget : Nat)

/-- What begins with a digit is read as a number without a sign. -/
theorem readValue_digit {c : Char} (opening : skipSpace text = c :: rest) (digit : isDigit c = true) :
    readValue (budget + 1) text = readNumber false (c :: rest) := by
  rw [readValue, opening]
  split
  case h_1 => contradiction
  case h_9 heq =>
    obtain ⟨rfl, rfl⟩ := List.cons.inj heq
    exact if_pos digit
  all_goals next heq =>
    obtain ⟨rfl, -⟩ := List.cons.inj heq
    exact absurd digit (by decide)

/-- What begins with a bracket is read as a list, empty if the closing one follows. -/
theorem readValue_list (opening : skipSpace text = '[' :: rest) :
    readValue (budget + 1) text = match skipSpace rest with
      | [] => .error .endInList
      | ']' :: more => .ok (.array [], more)
      | more => (readItems budget more).map fun r => (.array r.1, r.2) := by
  rw [readValue, opening]
  rfl

/-- What begins with a brace is read as an object, empty if the closing one follows. -/
theorem readValue_object (opening : skipSpace text = '\x7b' :: rest) :
    readValue (budget + 1) text = match skipSpace rest with
      | [] => .error .endInObject
      | '\x7d' :: more => .ok (.object [], more)
      | '"' :: more => (readMembers budget more []).map fun r => (.object r.1, r.2)
      | _ => .error .keyNotString := by
  rw [readValue, opening]
  rfl

end Openings

section Separators

variable {text rest : Chars}

theorem listSeparator_done {more : Chars} (closing : skipSpace text = ']' :: more) :
    listSeparator text = .ok (.done more) := by
  rw [listSeparator, closing]
  rfl

/-- After a comma a list goes on with the next item, which is not its end. -/
theorem listSeparator_next {c : Char} {tail : Chars} (comma : skipSpace text = ',' :: rest)
    (opening : skipSpace rest = c :: tail) (hc : c ≠ ']') :
    listSeparator text = .ok (.next (c :: tail)) := by
  have hcomma : listSeparator text = match skipSpace rest with
      | [] => .error .endInValue
      | ']' :: _ => .error .trailingComma
      | more => .ok (.next more) := by
    rw [listSeparator, comma]
    rfl
  rw [hcomma, opening]
  split
  · contradiction
  · next heq => exact absurd (List.cons.inj heq).1 hc
  · rfl

theorem objectSeparator_done {more : Chars} (closing : skipSpace text = '\x7d' :: more) :
    objectSeparator text = .ok (.done more) := by
  rw [objectSeparator, closing]
  rfl

/-- After a comma an object goes on with the next key. -/
theorem objectSeparator_next {key : Chars} (comma : skipSpace text = ',' :: rest)
    (quote : skipSpace rest = '"' :: key) : objectSeparator text = .ok (.next key) := by
  have hcomma : objectSeparator text = match skipSpace rest with
      | [] => .error .endInValue
      | '\x7d' :: _ => .error .trailingComma
      | '"' :: more => .ok (.next more)
      | _ => .error .keyNotString := by
    rw [objectSeparator, comma]
    rfl
  rw [hcomma, quote]
  rfl

end Separators

open Document

mutual

/-- **READING GIVES THE VALUE OF THE DOCUMENT**, with its members merged, and nothing if
    it has none. -/
theorem toOption_readValue : ∀ (budget : Nat) {text more : Chars} {document : Document},
    Begins text document more → 2 * text.length ≤ budget + 2 * more.length →
      (readValue budget text).toOption = document.value?.map fun value => (value.merged, more)
  | 0, text, more, document, h, hbudget => absurd h.length_lt (by omega)
  | budget + 1, text, more, document, h, hbudget => by
      -- a bracket is one character, and pays for the two steps of the budget that its list takes
      cases h with
      | null opening word =>
          rw [readValue, opening]
          show ((readWord _ _).map _).toOption = _
          rw [word]
          rfl
      | yes opening word =>
          rw [readValue, opening]
          show ((readWord _ _).map _).toOption = _
          rw [word]
          rfl
      | no opening word =>
          rw [readValue, opening]
          show ((readWord _ _).map _).toOption = _
          rw [word]
          rfl
      | string opening skips =>
          rw [readValue, opening]
          show ((readString _).map _).toOption = _
          rw [toOption_map, toOption_readString skips, value?, Option.map_map, Option.map_map]
          rfl
      | negative opening reads =>
          rw [readValue, opening]
          exact toOption_readNumber reads
      | positive opening digit reads =>
          rw [readValue_digit budget opening digit]
          exact toOption_readNumber reads
      | array opening inside =>
          have hrest := length_lt_of_skipSpace opening
          rw [readValue_list budget opening]
          cases inside with
          | done closing => rw [closing]; rfl
          | item starts here others =>
              cases starts
              obtain ⟨c, tail, hopen, hc, hhere, hlength⟩ := here.at_opening
              rw [hopen]
              split
              · contradiction
              · next heq => exact absurd (List.cons.inj heq).1 hc
              · rw [toOption_map, toOption_readItems budget hhere others (by omega), value?,
                  Option.map_map, Option.map_map]
                rfl
      | @object _ rest _ _ opening inside =>
          have hrest := length_lt_of_skipSpace opening
          rw [readValue_object budget opening]
          cases inside with
          | done closing => rw [closing]; rfl
          | member starts quote here others =>
              cases starts
              have hquote := length_lt_of_skipSpace quote
              rw [quote]
              show ((readMembers budget _ []).map _).toOption = _
              rw [toOption_map, toOption_readMembers budget here others [] (by omega), value?,
                Option.map_map, Option.map_map]
              rfl
termination_by structural budget => budget

/-- The items after the first one are read up to the end of the list. -/
theorem toOption_readItems : ∀ (budget : Nat) {text rest more : Chars} {item : Document}
    {items : List Document}, Begins text item rest → BeginsItems false rest items more →
      2 * text.length ≤ budget + 2 * more.length →
      (readItems budget text).toOption
        = (values? (item :: items)).map fun values => (mergedItems values, more)
  | 0, _, _, _, _, _, here, others, hbudget =>
      absurd (Nat.lt_trans others.length_lt here.length_lt) (by omega)
  | budget + 1, text, rest, more, item, items, here, others, hbudget => by
      have hothers := others.length_lt
      rw [values?]
      -- an item without a value leaves the list without one, and the reading ends there as well
      rcases cases_of_toOption (toOption_readValue budget here (by omega)) with
        ⟨hitem, fault, hfault⟩ | ⟨value, hitem, hread⟩
      · rw [readItems, hfault, hitem]
        rfl
      · rw [readItems, hread, hitem]
        dsimp only
        cases others with
        | done closing =>
            rw [listSeparator_done closing]
            rfl
        | item starts next after =>
            cases starts with | next comma =>
            have hcomma := length_lt_of_skipSpace comma
            have hhere := here.length_lt
            obtain ⟨c, tail, hopen, hc, hnext, hlength⟩ := next.at_opening
            rw [listSeparator_next comma hopen hc]
            dsimp only
            rw [toOption_map, toOption_readItems budget hnext after (by omega), Option.bind_some,
              Option.map_map, Option.map_map]
            rfl
termination_by structural budget => budget

/-- The members are read up to the end of the object, and merged into those before them. -/
theorem toOption_readMembers : ∀ (budget : Nat) {key rest more : Chars}
    {entry : Option String × Document} {members : List (Option String × Document)},
    BeginsMember key entry rest → BeginsMembers false rest members more →
      ∀ done, 2 * key.length ≤ budget + 2 * more.length →
      (readMembers budget key done).toOption
        = (memberValues? (entry :: members)).map fun values =>
            (Members.merge done (mergedMembers values), more)
  | 0, _, _, _, _, _, here, others, _, hbudget =>
      absurd (Nat.lt_trans others.length_lt here.length_lt) (by omega)
  | budget + 1, key, rest, more, entry, members, here, others, done, hbudget => by
      have hothers := others.length_lt
      have hhere := here.length_lt
      obtain @⟨_, _, _, _, document, skips, separator, value⟩ := here
      have hcolon := length_lt_of_skipSpace separator
      have hkey := length_skipString_lt skips
      have hvalue := toOption_readValue budget value (by omega)
      rw [memberValues?]
      -- a key or a value that denotes nothing is a fault of the whole
      rcases cases_of_toOption (toOption_readString skips) with
        ⟨hname, fault, hfault⟩ | ⟨name, hname, hread⟩
      · rw [readMembers, hfault, hname]
        rfl
      · rw [readMembers, hread, hname]
        dsimp only
        rw [readColon_eq_ok separator]
        dsimp only
        rcases cases_of_toOption hvalue with ⟨hdocument, fault, hfault⟩ | ⟨json, hdocument, hread⟩
        · rw [hfault, hdocument]
          rfl
        · rw [hread, hdocument]
          dsimp only
          cases others with
          | done closing =>
              rw [objectSeparator_done closing]
              rfl
          | member starts quote next after =>
              cases starts with | next comma =>
              have hcomma := length_lt_of_skipSpace comma
              have hquote := length_lt_of_skipSpace quote
              rw [objectSeparator_next comma quote]
              dsimp only
              rw [toOption_readMembers budget next after _ (by omega), Option.bind_some,
                Option.bind_some, Option.map_map]
              rfl
termination_by structural budget => budget

end

theorem skipSpace_of_listSeparator_done {text more : Chars}
    (h : listSeparator text = .ok (.done more)) : skipSpace text = ']' :: more := by
  unfold listSeparator at h
  split at h
  · cases h
  · next closing =>
    obtain rfl : _ = more := Continuation.done.inj (Except.ok.inj h)
    exact closing
  · split at h
    · cases h
    · cases h
    · cases h
  · cases h

/-- A list goes on only after a comma. -/
theorem exists_comma_of_listSeparator {text next : Chars}
    (h : listSeparator text = .ok (.next next)) :
    ∃ rest, skipSpace text = ',' :: rest ∧ skipSpace rest = next := by
  unfold listSeparator at h
  split at h
  · cases h
  · cases h
  · next rest comma =>
    split at h
    · cases h
    · cases h
    · exact ⟨rest, comma, Continuation.next.inj (Except.ok.inj h)⟩
  · cases h

theorem skipSpace_of_objectSeparator_done {text more : Chars}
    (h : objectSeparator text = .ok (.done more)) : skipSpace text = '\x7d' :: more := by
  unfold objectSeparator at h
  split at h
  · cases h
  · next closing =>
    obtain rfl : _ = more := Continuation.done.inj (Except.ok.inj h)
    exact closing
  · split at h
    · cases h
    · cases h
    · cases h
    · cases h
  · cases h

/-- An object goes on only after a comma, and with a quote. -/
theorem exists_comma_of_objectSeparator {text next : Chars}
    (h : objectSeparator text = .ok (.next next)) :
    ∃ rest, skipSpace text = ',' :: rest ∧ skipSpace rest = '"' :: next := by
  unfold objectSeparator at h
  split at h
  · cases h
  · cases h
  · next rest comma =>
    split at h
    · cases h
    · cases h
    · next quote =>
      obtain rfl : _ = next := Continuation.next.inj (Except.ok.inj h)
      exact ⟨rest, comma, quote⟩
    · cases h
  · cases h

/-- A word that is read is followed by what is left. -/
theorem readWord_of_map_ok {word text more : Chars} {value result : Json}
    (h : ((readWord word text).map fun r => (value, r.2)) = .ok (result, more)) :
    readWord word text = .ok ((), more) := by
  obtain ⟨_, hword, -⟩ := exists_of_map_ok (f := fun _ => value) h
  exact hword

/-- Where a number is read there is a numeral. -/
theorem exists_of_readNumber {negative : Bool} {text more : Chars} {value : Json}
    (h : readNumber negative text = .ok (value, more)) :
    ∃ numeral, readNumeral negative text = .ok (numeral, more) := by
  obtain ⟨⟨numeral, rest⟩, hread, h⟩ := exists_of_bind_eq_ok h
  obtain ⟨found, -, h⟩ := exists_of_bind_eq_ok h
  obtain rfl : rest = more := congrArg Prod.snd (Except.ok.inj h)
  exact ⟨numeral, hread⟩

mutual

/-- What is read is a document. -/
theorem begins_of_readValue : ∀ (budget : Nat) {text more : Chars} {value : Json},
    readValue budget text = .ok (value, more) → ∃ document, Begins text document more
  | 0, _, _, _, h => nomatch h
  | budget + 1, text, more, value, h => by
      unfold readValue at h
      split at h
      · exact nomatch h
      · next opening => exact ⟨_, .null opening (readWord_of_map_ok h)⟩
      · next opening => exact ⟨_, .yes opening (readWord_of_map_ok h)⟩
      · next opening => exact ⟨_, .no opening (readWord_of_map_ok h)⟩
      · next opening =>
        obtain ⟨_, hread, -⟩ := exists_of_map_ok (f := Json.string) h
        exact ⟨_, .string opening (skipString_of_readString hread)⟩
      · next opening =>
        obtain ⟨_, hread⟩ := exists_of_readNumber h
        exact ⟨_, .negative opening hread⟩
      -- the items are read from after the blanks, where the same document begins
      · next rest opening =>
        split at h
        · exact nomatch h
        · next closing =>
          obtain rfl : _ = more := congrArg Prod.snd (Except.ok.inj h)
          exact ⟨_, .array opening (.done closing)⟩
        · obtain ⟨_, hread, -⟩ := exists_of_map_ok (f := Json.array) h
          obtain ⟨item, items, after, here, others⟩ := begins_of_readItems budget hread
          exact ⟨_, .array opening (.item .first (here.congr (skipSpace_skipSpace rest).symm) others)⟩
      · next rest opening =>
        split at h
        · exact nomatch h
        · next closing =>
          obtain rfl : _ = more := congrArg Prod.snd (Except.ok.inj h)
          exact ⟨_, .object opening (.done closing)⟩
        · next quote =>
          obtain ⟨_, hread, -⟩ := exists_of_map_ok (f := Json.object) h
          obtain ⟨entry, members, after, here, others⟩ := begins_of_readMembers budget hread
          exact ⟨_, .object opening (.member .first quote here others)⟩
        · exact nomatch h
      · next opening =>
        split at h
        · next digit =>
          obtain ⟨_, hread⟩ := exists_of_readNumber h
          exact ⟨_, .positive opening digit hread⟩
        · exact nomatch h
termination_by structural budget => budget

/-- Whatever is read as items are documents with commas between them. -/
theorem begins_of_readItems : ∀ (budget : Nat) {text more : Chars} {values : List Json},
    readItems budget text = .ok (values, more) → ∃ item items rest,
      Begins text item rest ∧ BeginsItems false rest items more
  | 0, _, _, _, h => nomatch h
  | budget + 1, text, more, values, h => by
      unfold readItems at h
      split at h
      · exact nomatch h
      · next rest hread =>
        obtain ⟨item, here⟩ := begins_of_readValue budget hread
        split at h
        · exact nomatch h
        · next hdone =>
          obtain rfl : _ = more := congrArg Prod.snd (Except.ok.inj h)
          exact ⟨item, [], rest, here, .done (skipSpace_of_listSeparator_done hdone)⟩
        · next hnext =>
          obtain ⟨_, hread, -⟩ := exists_of_map_ok (f := fun values => _ :: values) h
          obtain ⟨second, items, after, next, others⟩ := begins_of_readItems budget hread
          obtain ⟨start, comma, rfl⟩ := exists_comma_of_listSeparator hnext
          exact ⟨item, second :: items, rest, here,
            .item (.next comma) (next.congr (skipSpace_skipSpace start).symm) others⟩
termination_by structural budget => budget

/-- Whatever is read as members are documents after their keys, with commas between them. -/
theorem begins_of_readMembers : ∀ (budget : Nat) {key more : Chars} {done values : Members Json},
    readMembers budget key done = .ok (values, more) → ∃ entry members rest,
      BeginsMember key entry rest ∧ BeginsMembers false rest members more
  | 0, _, _, _, _, h => nomatch h
  | budget + 1, key, more, done, values, h => by
      unfold readMembers at h
      split at h
      · exact nomatch h
      · next colon hkey =>
        split at h
        · exact nomatch h
        · next hcolon =>
          split at h
          · exact nomatch h
          · next rest hread =>
            obtain ⟨value, hvalue⟩ := begins_of_readValue budget hread
            have here : BeginsMember key (stringAt? key, value) rest :=
              .intro (skipString_of_readString hkey) (skipSpace_of_readColon hcolon) hvalue
            split at h
            · exact nomatch h
            · next hdone =>
              obtain rfl : _ = more := congrArg Prod.snd (Except.ok.inj h)
              exact ⟨_, [], rest, here, .done (skipSpace_of_objectSeparator_done hdone)⟩
            · next hnext =>
              obtain ⟨entry, members, after, next, others⟩ := begins_of_readMembers budget h
              obtain ⟨start, comma, quote⟩ := exists_comma_of_objectSeparator hnext
              exact ⟨_, entry :: members, rest, here, .member (.next comma) quote next others⟩
termination_by structural budget => budget

end

/-! ## Whole texts -/

/-- **A TEXT IS READ EXACTLY IF IT IS A DOCUMENT THAT HAS A VALUE**, and to this value with
    its members merged. -/
theorem ofText_eq_ok_iff (text : String) (value : Json) :
    ofText text = .ok value
      ↔ ∃ document raw, IsDocument text document ∧ document.value? = some raw
          ∧ raw.merged = value := by
  have hbudget : ∀ more : Chars, 2 * text.toList.length ≤ 2 * text.length + 2 + 2 * more.length := by
    intro more
    rw [String.length_toList]
    omega
  constructor
  · intro h
    unfold ofText at h
    split at h
    · exact nomatch h
    · next found rest hread =>
      split at h
      · next hend =>
        obtain rfl : found = value := Except.ok.inj h
        obtain ⟨document, hbegins⟩ := begins_of_readValue _ hread
        have hvalue := toOption_readValue _ hbegins (hbudget rest)
        -- what was read is what the document denotes, since the budget was large enough
        rw [hread] at hvalue
        obtain ⟨raw, hraw, hmerged⟩ := Option.map_eq_some_iff.1 hvalue.symm
        exact ⟨document, raw, ⟨rest, hbegins, hend⟩, hraw, congrArg Prod.fst hmerged⟩
      · exact nomatch h
  · rintro ⟨document, raw, ⟨rest, hbegins, hend⟩, hraw, rfl⟩
    have hvalue := toOption_readValue _ hbegins (hbudget rest)
    rw [hraw] at hvalue
    rw [ofText, eq_ok_of_toOption hvalue]
    dsimp only
    rw [hend]

end Conform.Json
