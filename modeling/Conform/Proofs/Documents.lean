import Conform.Config.Reader
import Conform.Proofs.Tokens

/-! # Documents — what a text begins with

    A document is JSON by its form: tokens in nested lists and objects.  A text BEGINS
    with a document when the document can be taken off its front (`Begins`); it IS one
    when only blanks are left.  A token of the right form may denote nothing: a number out
    of range, a string with half of a surrogate pair.

    Main facts: the form alone is what skipping looks at, so skipping takes exactly
    documents off the front (`skipValue_of_begins`, `begins_of_skipValue`). -/

namespace Conform.Json

open Conform.Text (Chars isDigit)

/-! ## The form -/

/-- A document by its form, with what its tokens denote. -/
inductive Document where
  | null
  | bool (value : Bool)
  | number (value : Option Json)
  | string (value : Option String)
  | array (items : List Document)
  | object (members : List (Option String × Document))

/-- Where the next part of a list or an object starts: at once if it is the first one,
    and otherwise after a comma. -/
inductive Starts : Bool → Chars → Chars → Prop
  | first {text : Chars} : Starts true text text
  | next {text rest : Chars} (comma : skipSpace text = ',' :: rest) : Starts false text rest

mutual

/-- The text begins with the document, and goes on with the text after it. -/
inductive Begins : Chars → Document → Chars → Prop
  | null {text rest more : Chars} (opening : skipSpace text = 'n' :: rest)
      (word : readWord ['u', 'l', 'l'] rest = .ok ((), more)) : Begins text .null more
  | yes {text rest more : Chars} (opening : skipSpace text = 't' :: rest)
      (word : readWord ['r', 'u', 'e'] rest = .ok ((), more)) : Begins text (.bool true) more
  | no {text rest more : Chars} (opening : skipSpace text = 'f' :: rest)
      (word : readWord ['a', 'l', 's', 'e'] rest = .ok ((), more)) : Begins text (.bool false) more
  | string {text rest more : Chars} (opening : skipSpace text = '"' :: rest)
      (skips : skipString rest = .ok ((), more)) : Begins text (.string (stringAt? rest)) more
  | negative {text rest more : Chars} {numeral : Numeral} (opening : skipSpace text = '-' :: rest)
      (reads : readNumeral true rest = .ok (numeral, more)) :
      Begins text (.number numeral.value.toOption) more
  | positive {text rest more : Chars} {c : Char} {numeral : Numeral}
      (opening : skipSpace text = c :: rest) (digit : isDigit c = true)
      (reads : readNumeral false (c :: rest) = .ok (numeral, more)) :
      Begins text (.number numeral.value.toOption) more
  | array {text rest more : Chars} {items : List Document} (opening : skipSpace text = '[' :: rest)
      (inside : BeginsItems true rest items more) : Begins text (.array items) more
  | object {text rest more : Chars} {members : List (Option String × Document)}
      (opening : skipSpace text = '\x7b' :: rest) (inside : BeginsMembers true rest members more) :
      Begins text (.object members) more

/-- The items of a list up to its end, the first ones or those after an item. -/
inductive BeginsItems : Bool → Chars → List Document → Chars → Prop
  | done {first : Bool} {text more : Chars} (closing : skipSpace text = ']' :: more) :
      BeginsItems first text [] more
  | item {first : Bool} {text start rest more : Chars} {item : Document} {items : List Document}
      (starts : Starts first text start) (here : Begins start item rest)
      (others : BeginsItems false rest items more) : BeginsItems first text (item :: items) more

/-- The members of an object up to its end, the first ones or those after a member. -/
inductive BeginsMembers : Bool → Chars → List (Option String × Document) → Chars → Prop
  | done {first : Bool} {text more : Chars} (closing : skipSpace text = '\x7d' :: more) :
      BeginsMembers first text [] more
  | member {first : Bool} {text start key rest more : Chars} {entry : Option String × Document}
      {members : List (Option String × Document)} (starts : Starts first text start)
      (quote : skipSpace start = '"' :: key) (here : BeginsMember key entry rest)
      (others : BeginsMembers false rest members more) :
      BeginsMembers first text (entry :: members) more

/-- A member after the quote of its key. -/
inductive BeginsMember : Chars → Option String × Document → Chars → Prop
  | intro {key colon rest more : Chars} {value : Document} (skips : skipString key = .ok ((), colon))
      (separator : skipSpace colon = ':' :: rest) (here : Begins rest value more) :
      BeginsMember key (stringAt? key, value) more

end

/-- The text is the document, with blanks around it. -/
def IsDocument (text : String) (document : Document) : Prop :=
  ∃ rest, Begins text.toList document rest ∧ skipSpace rest = []

/-! ## What is left is less -/

/-- Starting takes nothing from a first part, and a comma from a later one. -/
theorem Starts.length_le {first : Bool} {text start : Chars} (h : Starts first text start) :
    start.length ≤ text.length := by
  cases h with
  | first => exact Nat.le_refl _
  | next comma => exact Nat.le_of_lt (length_lt_of_skipSpace comma)

mutual

theorem Begins.length_lt : ∀ {text more : Chars} {document : Document},
    Begins text document more → more.length < text.length
  | _, _, _, .null opening word =>
      Nat.lt_of_le_of_lt (length_readWord_le word) (length_lt_of_skipSpace opening)
  | _, _, _, .yes opening word =>
      Nat.lt_of_le_of_lt (length_readWord_le word) (length_lt_of_skipSpace opening)
  | _, _, _, .no opening word =>
      Nat.lt_of_le_of_lt (length_readWord_le word) (length_lt_of_skipSpace opening)
  | _, _, _, .string opening skips =>
      Nat.lt_trans (length_skipString_lt skips) (length_lt_of_skipSpace opening)
  | _, _, _, .negative opening reads =>
      Nat.lt_trans (length_readNumeral_lt reads) (length_lt_of_skipSpace opening)
  | _, _, _, .positive opening _ reads =>
      Nat.lt_of_lt_of_le (length_readNumeral_lt reads) (length_lt_of_skipSpace opening)
  | _, _, _, .array opening inside =>
      Nat.lt_trans inside.length_lt (length_lt_of_skipSpace opening)
  | _, _, _, .object opening inside =>
      Nat.lt_trans inside.length_lt (length_lt_of_skipSpace opening)

theorem BeginsItems.length_lt : ∀ {first : Bool} {text more : Chars} {items : List Document},
    BeginsItems first text items more → more.length < text.length
  | _, _, _, _, .done closing => length_lt_of_skipSpace closing
  | _, _, _, _, .item starts here others =>
      Nat.lt_of_lt_of_le (Nat.lt_trans others.length_lt here.length_lt) starts.length_le

theorem BeginsMembers.length_lt : ∀ {first : Bool} {text more : Chars}
    {members : List (Option String × Document)},
    BeginsMembers first text members more → more.length < text.length
  | _, _, _, _, .done closing => length_lt_of_skipSpace closing
  | _, _, _, _, .member starts quote here others => by
      have hkey := Nat.lt_of_lt_of_le (length_lt_of_skipSpace quote) starts.length_le
      exact Nat.lt_trans others.length_lt (Nat.lt_trans here.length_lt hkey)

theorem BeginsMember.length_lt : ∀ {key more : Chars} {entry : Option String × Document},
    BeginsMember key entry more → more.length < key.length
  | _, _, _, .intro skips separator here =>
      Nat.lt_trans here.length_lt
        (Nat.lt_trans (length_lt_of_skipSpace separator) (length_skipString_lt skips))

end

/-! ## Where a document begins -/

/-- What a document or a value is made of, at the top. -/
inductive Kind where
  | null
  | bool
  | number
  | string
  | array
  | object
deriving DecidableEq

/-- The kind of a document. -/
def Document.kind : Document → Kind
  | .null => .null
  | .bool _ => .bool
  | .number _ => .number
  | .string _ => .string
  | .array _ => .array
  | .object _ => .object

/-- The kind of what begins with a character. -/
def Kind.ofOpening : Char → Kind
  | 'n' => .null
  | 't' => .bool
  | 'f' => .bool
  | '"' => .string
  | '[' => .array
  | '\x7b' => .object
  | _ => .number

/-- What begins with a digit is a number. -/
theorem Kind.ofOpening_of_isDigit {c : Char} (digit : isDigit c = true) : ofOpening c = .number := by
  unfold ofOpening
  split
  case h_7 => rfl
  all_goals exact absurd digit (by decide)

/-- The first character of a document shows its kind. -/
theorem Begins.kind_of_opening {text rest more : Chars} {document : Document} {c : Char}
    (h : Begins text document more) (hopen : skipSpace text = c :: rest) :
    document.kind = .ofOpening c := by
  cases h with
  | positive opening digit _ =>
      obtain ⟨rfl, -⟩ := List.cons.inj (opening.symm.trans hopen)
      exact (Kind.ofOpening_of_isDigit digit).symm
  | null opening | yes opening | no opening | string opening | negative opening
  | array opening | object opening =>
      obtain ⟨rfl, -⟩ := List.cons.inj (opening.symm.trans hopen)
      rfl

/-- Only what follows the blanks counts. -/
theorem Begins.congr {text other more : Chars} {document : Document}
    (h : Begins text document more) (hother : skipSpace other = skipSpace text) :
    Begins other document more := by
  cases h with
  | null opening word => exact .null (hother.trans opening) word
  | yes opening word => exact .yes (hother.trans opening) word
  | no opening word => exact .no (hother.trans opening) word
  | string opening skips => exact .string (hother.trans opening) skips
  | negative opening reads => exact .negative (hother.trans opening) reads
  | positive opening digit reads => exact .positive (hother.trans opening) digit reads
  | array opening inside => exact .array (hother.trans opening) inside
  | object opening inside => exact .object (hother.trans opening) inside

/-- A document begins with something, and not with the end of a list. -/
theorem Begins.opens {text more : Chars} {document : Document} (h : Begins text document more) :
    ∃ c rest, skipSpace text = c :: rest ∧ c ≠ ']' := by
  cases h with
  | positive opening digit _ =>
      refine ⟨_, _, opening, ?_⟩
      rintro rfl
      exact absurd digit (by decide)
  | null opening | yes opening | no opening | string opening | negative opening
  | array opening | object opening => exact ⟨_, _, opening, by decide⟩

/-- A part starts at one place only. -/
theorem Starts.unique {first : Bool} {text start other : Chars} (h : Starts first text start)
    (hother : Starts first text other) : start = other := by
  cases h with
  | first => cases hother with
    | first => rfl
  | next comma => cases hother with
    | next hcomma => exact (List.cons.inj (comma.symm.trans hcomma)).2

/-- Where a part starts that is no end, the text does not begin with an end. -/
theorem Starts.ne_closing {first : Bool} {text start : Chars} {closing : Char} (h : Starts first text start)
    (hopens : ∃ c rest, skipSpace start = c :: rest ∧ c ≠ closing) {more : Chars} (hcomma : ',' ≠ closing) :
    skipSpace text ≠ closing :: more := by
  cases h with
  | first =>
      obtain ⟨c, rest, hopen, hc⟩ := hopens
      exact fun heq => hc (List.cons.inj (hopen.symm.trans heq)).1
  | next comma => exact fun heq => hcomma (List.cons.inj (comma.symm.trans heq)).1

/-- The same document begins where the blanks end, which is no end of a list. -/
theorem Begins.at_opening {text more : Chars} {document : Document} (h : Begins text document more) :
    ∃ c rest, skipSpace text = c :: rest ∧ c ≠ ']' ∧ Begins (c :: rest) document more
      ∧ (c :: rest).length ≤ text.length := by
  obtain ⟨c, rest, hopen, hc⟩ := h.opens
  have hlength := length_skipSpace_le text
  rw [hopen] at hlength
  exact ⟨c, rest, hopen, hc, h.congr ((skipSpace_of_skipSpace_eq hopen).trans hopen.symm), hlength⟩

theorem readColon_eq_ok {text rest : Chars} (h : skipSpace text = ':' :: rest) :
    readColon text = .ok ((), rest) := by
  rw [readColon, h]
  rfl

theorem skipSpace_of_readColon {text rest : Chars} (h : readColon text = .ok ((), rest)) :
    skipSpace text = ':' :: rest := by
  unfold readColon at h
  split at h
  · exact nomatch h
  · next found hcolon =>
    obtain rfl : found = rest := congrArg Prod.snd (Except.ok.inj h)
    exact hcolon
  · exact nomatch h

/-! ## One document -/

theorem ok_unique {ε : Type} {outcome : Except ε (Unit × Chars)} {more other : Chars}
    (h : outcome = .ok ((), more)) (hother : outcome = .ok ((), other)) : more = other :=
  congrArg Prod.snd (Except.ok.inj (h.symm.trans hother))

mutual

/-- **A TEXT BEGINS WITH ONE DOCUMENT**, which ends in one place. -/
theorem Begins.unique : ∀ {text more after : Chars} {document other : Document},
    Begins text document more → Begins text other after → document = other ∧ more = after
  | text, more, after, _, other, .null opening word, h => by
      -- the first character leaves one way to begin, here and in every case below
      have hkind := h.kind_of_opening opening
      cases h with
      | null hopening hword =>
          obtain ⟨-, rfl⟩ := List.cons.inj (opening.symm.trans hopening)
          exact ⟨rfl, ok_unique word hword⟩
      | yes | no | string | negative | positive | array | object => exact nomatch hkind
  | text, more, after, _, other, .yes opening word, h => by
      have hkind := h.kind_of_opening opening
      cases h with
      | yes hopening hword =>
          obtain ⟨-, rfl⟩ := List.cons.inj (opening.symm.trans hopening)
          exact ⟨rfl, ok_unique word hword⟩
      | no hopening => exact nomatch opening.symm.trans hopening
      | null | string | negative | positive | array | object => exact nomatch hkind
  | text, more, after, _, other, .no opening word, h => by
      have hkind := h.kind_of_opening opening
      cases h with
      | no hopening hword =>
          obtain ⟨-, rfl⟩ := List.cons.inj (opening.symm.trans hopening)
          exact ⟨rfl, ok_unique word hword⟩
      | yes hopening => exact nomatch opening.symm.trans hopening
      | null | string | negative | positive | array | object => exact nomatch hkind
  | text, more, after, _, other, .string opening skips, h => by
      have hkind := h.kind_of_opening opening
      cases h with
      | string hopening hskips =>
          obtain ⟨-, rfl⟩ := List.cons.inj (opening.symm.trans hopening)
          exact ⟨rfl, ok_unique skips hskips⟩
      | null | yes | no | negative | positive | array | object => exact nomatch hkind
  | text, more, after, _, other, .negative opening reads, h => by
      have hkind := h.kind_of_opening opening
      cases h with
      | negative hopening hreads =>
          obtain ⟨-, rfl⟩ := List.cons.inj (opening.symm.trans hopening)
          obtain ⟨rfl, rfl⟩ := Prod.mk.inj (Except.ok.inj (reads.symm.trans hreads))
          exact ⟨rfl, rfl⟩
      | positive hopening digit =>
          obtain ⟨rfl, -⟩ := List.cons.inj (opening.symm.trans hopening)
          exact absurd digit (by decide)
      | null | yes | no | string | array | object => exact nomatch hkind
  | text, more, after, _, other, .positive opening digit reads, h => by
      have hkind := h.kind_of_opening opening
      rw [Kind.ofOpening_of_isDigit digit] at hkind
      cases h with
      | positive hopening _ hreads =>
          obtain ⟨rfl, rfl⟩ := List.cons.inj (opening.symm.trans hopening)
          obtain ⟨rfl, rfl⟩ := Prod.mk.inj (Except.ok.inj (reads.symm.trans hreads))
          exact ⟨rfl, rfl⟩
      | negative hopening =>
          obtain ⟨rfl, -⟩ := List.cons.inj (opening.symm.trans hopening)
          exact absurd digit (by decide)
      | null | yes | no | string | array | object => exact nomatch hkind
  | text, more, after, _, other, .array opening inside, h => by
      have hkind := h.kind_of_opening opening
      cases h with
      | array hopening hinside =>
          obtain ⟨-, rfl⟩ := List.cons.inj (opening.symm.trans hopening)
          obtain ⟨rfl, rfl⟩ := inside.unique hinside
          exact ⟨rfl, rfl⟩
      | null | yes | no | string | negative | positive | object => exact nomatch hkind
  | text, more, after, _, other, .object opening inside, h => by
      have hkind := h.kind_of_opening opening
      cases h with
      | object hopening hinside =>
          obtain ⟨-, rfl⟩ := List.cons.inj (opening.symm.trans hopening)
          obtain ⟨rfl, rfl⟩ := inside.unique hinside
          exact ⟨rfl, rfl⟩
      | null | yes | no | string | negative | positive | array => exact nomatch hkind
termination_by structural _ _ _ _ _ h => h

/-- A text begins with the items of one list at most. -/
theorem BeginsItems.unique : ∀ {first : Bool} {text more after : Chars} {items others : List Document},
    BeginsItems first text items more → BeginsItems first text others after → items = others ∧ more = after
  | first, text, more, after, _, others, .done closing, h => by
      cases h with
      | done hclosing =>
          obtain ⟨-, rfl⟩ := List.cons.inj (closing.symm.trans hclosing)
          exact ⟨rfl, rfl⟩
      | item starts here => exact absurd closing (starts.ne_closing here.opens (by decide))
  | first, text, more, after, _, others, .item starts here rest, h => by
      cases h with
      | done hclosing => exact absurd hclosing (starts.ne_closing here.opens (by decide))
      | item hstarts hhere hrest =>
          obtain rfl := starts.unique hstarts
          obtain ⟨rfl, rfl⟩ := here.unique hhere
          obtain ⟨rfl, rfl⟩ := rest.unique hrest
          exact ⟨rfl, rfl⟩
termination_by structural _ _ _ _ _ _ h => h

/-- A text begins with the members of one object at most. -/
theorem BeginsMembers.unique : ∀ {first : Bool} {text more after : Chars}
    {members others : List (Option String × Document)}, BeginsMembers first text members more →
      BeginsMembers first text others after → members = others ∧ more = after
  | first, text, more, after, _, others, .done closing, h => by
      cases h with
      | done hclosing =>
          obtain ⟨-, rfl⟩ := List.cons.inj (closing.symm.trans hclosing)
          exact ⟨rfl, rfl⟩
      | member starts quote => exact absurd closing (starts.ne_closing ⟨_, _, quote, by decide⟩ (by decide))
  | first, text, more, after, _, others, .member starts quote here rest, h => by
      cases h with
      | done hclosing => exact absurd hclosing (starts.ne_closing ⟨_, _, quote, by decide⟩ (by decide))
      | member hstarts hquote hhere hrest =>
          obtain rfl := starts.unique hstarts
          obtain ⟨-, rfl⟩ := List.cons.inj (quote.symm.trans hquote)
          obtain ⟨rfl, rfl⟩ := here.unique hhere
          obtain ⟨rfl, rfl⟩ := rest.unique hrest
          exact ⟨rfl, rfl⟩
termination_by structural _ _ _ _ _ _ h => h

/-- A text begins with one member at most. -/
theorem BeginsMember.unique : ∀ {key more after : Chars} {entry other : Option String × Document},
    BeginsMember key entry more → BeginsMember key other after → entry = other ∧ more = after
  | key, more, after, _, other, .intro skips separator here, h => by
      cases h with
      | intro hskips hseparator hhere =>
          obtain rfl := ok_unique skips hskips
          obtain ⟨-, rfl⟩ := List.cons.inj (separator.symm.trans hseparator)
          obtain ⟨rfl, rfl⟩ := here.unique hhere
          exact ⟨rfl, rfl⟩
termination_by structural _ _ _ _ _ h => h

end

/-- A text is one document at most. -/
theorem IsDocument.unique {text : String} {document other : Document} (h : IsDocument text document)
    (hother : IsDocument text other) : document = other := by
  obtain ⟨_, hbegins, -⟩ := h
  obtain ⟨_, hotherBegins, -⟩ := hother
  exact (hbegins.unique hotherBegins).1

/-! ## Skipping -/

section Openings

variable {text rest : Chars} (budget : Nat)

/-- What begins with a digit is skipped as a number. -/
theorem skipValue_digit {c : Char} (opening : skipSpace text = c :: rest) (digit : isDigit c = true) :
    skipValue (budget + 1) text = skipNumber (c :: rest) := by
  rw [skipValue, opening]
  split
  case h_1 => contradiction
  case h_9 heq =>
    obtain ⟨rfl, rfl⟩ := List.cons.inj heq
    exact if_pos digit
  all_goals next heq =>
    obtain ⟨rfl, -⟩ := List.cons.inj heq
    exact absurd digit (by decide)

theorem skipValue_list (opening : skipSpace text = '[' :: rest) :
    skipValue (budget + 1) text = match skipSpace rest with
      | [] => .error .endInList
      | ']' :: more => .ok ((), more)
      | more => skipItems budget more := by
  rw [skipValue, opening]
  rfl

theorem skipValue_object (opening : skipSpace text = '\x7b' :: rest) :
    skipValue (budget + 1) text = match skipSpace rest with
      | [] => .error .endInObject
      | '\x7d' :: more => .ok ((), more)
      | more => skipMembers budget more := by
  rw [skipValue, opening]
  rfl

end Openings

mutual

/-- Skipping takes a document off the front, if the budget is large enough. -/
theorem skipValue_of_begins : ∀ (budget : Nat) {text more : Chars} {document : Document},
    Begins text document more → 2 * text.length ≤ budget + 2 * more.length →
      skipValue budget text = .ok ((), more)
  -- a step goes into a value or past an item, so two for each character are enough
  | 0, text, more, document, h, hbudget => absurd h.length_lt (by omega)
  | budget + 1, text, more, document, h, hbudget => by
      cases h with
      | null opening word => rw [skipValue, opening]; exact word
      | yes opening word => rw [skipValue, opening]; exact word
      | no opening word => rw [skipValue, opening]; exact word
      | string opening skips => rw [skipValue, opening]; exact skips
      | negative opening reads =>
          rw [skipValue, opening]
          exact skipNumber_of_readNumeral reads
      | positive opening digit reads =>
          rw [skipValue_digit budget opening digit]
          exact skipNumber_of_readNumeral reads
      | array opening inside =>
          have hrest := length_lt_of_skipSpace opening
          rw [skipValue_list budget opening]
          cases inside with
          | done closing => rw [closing]; rfl
          | item starts here others =>
              cases starts
              obtain ⟨c, tail, hopen, hc, hhere, hlength⟩ := here.at_opening
              rw [hopen]
              split
              · contradiction
              · next heq => exact absurd (List.cons.inj heq).1 hc
              · exact skipItems_of_begins budget hhere others (by omega)
      | @object _ rest _ _ opening inside =>
          have hrest := length_lt_of_skipSpace opening
          rw [skipValue_object budget opening]
          cases inside with
          | done closing => rw [closing]; rfl
          | member starts quote here others =>
              cases starts
              rw [quote]
              refine skipMembers_of_begins budget (skipSpace_of_skipSpace_eq quote) here others ?_
              have hquote := length_skipSpace_le rest
              rw [quote] at hquote
              omega
termination_by structural budget => budget

/-- The items of a list are skipped up to its end. -/
theorem skipItems_of_begins : ∀ (budget : Nat) {text rest more : Chars} {item : Document}
    {items : List Document}, Begins text item rest → BeginsItems false rest items more →
      2 * text.length ≤ budget + 2 * more.length → skipItems budget text = .ok ((), more)
  | 0, _, _, _, _, _, here, others, hbudget =>
      absurd (Nat.lt_trans others.length_lt here.length_lt) (by omega)
  | budget + 1, text, rest, more, item, items, here, others, hbudget => by
      have hothers := others.length_lt
      rw [skipItems, skipValue_of_begins budget here (by omega)]
      dsimp only
      cases others with
      | done closing => rw [closing]; rfl
      | item starts next after =>
          cases starts with | next comma =>
          have hcomma := length_lt_of_skipSpace comma
          have hhere := here.length_lt
          rw [comma]
          exact skipItems_of_begins budget next after (by omega)
termination_by structural budget => budget

/-- The members of an object are skipped up to its end. -/
theorem skipMembers_of_begins : ∀ (budget : Nat) {text key rest more : Chars}
    {entry : Option String × Document} {members : List (Option String × Document)},
    skipSpace text = '"' :: key → BeginsMember key entry rest → BeginsMembers false rest members more →
      2 * text.length ≤ budget + 2 * more.length → skipMembers budget text = .ok ((), more)
  | 0, _, _, _, _, _, _, quote, here, others, hbudget =>
      absurd (Nat.lt_trans (Nat.lt_trans others.length_lt here.length_lt) (length_lt_of_skipSpace quote))
        (by omega)
  | budget + 1, text, key, rest, more, entry, members, quote, here, others, hbudget => by
      have hquote := length_lt_of_skipSpace quote
      have hothers := others.length_lt
      have hhere := here.length_lt
      obtain ⟨skips, separator, value⟩ := here
      have hcolon := length_lt_of_skipSpace separator
      have hkey := length_skipString_lt skips
      have hvalue := skipValue_of_begins budget value (by omega)
      simp only [skipMembers, quote, skips, readColon_eq_ok separator, hvalue]
      cases others with
      | done closing => rw [closing]; rfl
      | member starts quote next after =>
          cases starts with | next comma =>
          have hcomma := length_lt_of_skipSpace comma
          rw [comma]
          exact skipMembers_of_begins budget quote next after (by omega)
termination_by structural budget => budget

end

mutual

/-- What is skipped is a document. -/
theorem begins_of_skipValue : ∀ (budget : Nat) {text more : Chars},
    skipValue budget text = .ok ((), more) → ∃ document, Begins text document more
  | 0, _, _, h => nomatch h
  | budget + 1, text, more, h => by
      unfold skipValue at h
      split at h
      · exact nomatch h
      · next opening => exact ⟨_, .null opening h⟩
      · next opening => exact ⟨_, .yes opening h⟩
      · next opening => exact ⟨_, .no opening h⟩
      · next opening => exact ⟨_, .string opening h⟩
      · next opening =>
        obtain ⟨numeral, hread⟩ := exists_of_skipNumber true h
        exact ⟨_, .negative opening hread⟩
      · next rest opening =>
        split at h
        · exact nomatch h
        · next closing =>
          obtain rfl : _ = more := congrArg Prod.snd (Except.ok.inj h)
          exact ⟨_, .array opening (.done closing)⟩
        · -- the items were skipped from after the blanks, where the same items begin
          obtain ⟨item, items, after, here, others⟩ := begins_of_skipItems budget h
          exact ⟨_, .array opening (.item .first (here.congr (skipSpace_skipSpace rest).symm) others)⟩
      · next rest opening =>
        split at h
        · exact nomatch h
        · next closing =>
          obtain rfl : _ = more := congrArg Prod.snd (Except.ok.inj h)
          exact ⟨_, .object opening (.done closing)⟩
        · obtain ⟨key, entry, members, after, quote, here, others⟩ := begins_of_skipMembers budget h
          rw [skipSpace_skipSpace] at quote
          exact ⟨_, .object opening (.member .first quote here others)⟩
      · next opening =>
        split at h
        · next digit =>
          obtain ⟨numeral, hread⟩ := exists_of_skipNumber false h
          exact ⟨_, .positive opening digit hread⟩
        · exact nomatch h
termination_by structural budget => budget

/-- Whatever is skipped as items are documents with commas between them. -/
theorem begins_of_skipItems : ∀ (budget : Nat) {text more : Chars},
    skipItems budget text = .ok ((), more) → ∃ item items rest,
      Begins text item rest ∧ BeginsItems false rest items more
  | 0, _, _, h => nomatch h
  | budget + 1, text, more, h => by
      unfold skipItems at h
      split at h
      · exact nomatch h
      · next rest hskip =>
        obtain ⟨item, here⟩ := begins_of_skipValue budget hskip
        split at h
        · exact nomatch h
        · next closing =>
          obtain rfl : _ = more := congrArg Prod.snd (Except.ok.inj h)
          exact ⟨item, [], rest, here, .done closing⟩
        · next comma =>
          obtain ⟨second, items, after, next, others⟩ := begins_of_skipItems budget h
          exact ⟨item, second :: items, rest, here, .item (.next comma) next others⟩
        · exact nomatch h
termination_by structural budget => budget

/-- Whatever is skipped as members are documents after their keys, with commas between them. -/
theorem begins_of_skipMembers : ∀ (budget : Nat) {text more : Chars},
    skipMembers budget text = .ok ((), more) → ∃ key entry members rest,
      skipSpace text = '"' :: key ∧ BeginsMember key entry rest ∧ BeginsMembers false rest members more
  | 0, _, _, h => nomatch h
  | budget + 1, text, more, h => by
      unfold skipMembers at h
      split at h
      · exact nomatch h
      · next key quote =>
        split at h
        · exact nomatch h
        · next colon skips =>
          split at h
          · exact nomatch h
          · next hcolon =>
            split at h
            · exact nomatch h
            · next rest hskip =>
              obtain ⟨value, hvalue⟩ := begins_of_skipValue budget hskip
              have here : BeginsMember key (stringAt? key, value) rest :=
                .intro skips (skipSpace_of_readColon hcolon) hvalue
              split at h
              · exact nomatch h
              · next closing =>
                obtain rfl : _ = more := congrArg Prod.snd (Except.ok.inj h)
                exact ⟨key, _, [], rest, quote, here, .done closing⟩
              · next comma =>
                obtain ⟨second, entry, members, after, nextQuote, next, others⟩ :=
                  begins_of_skipMembers budget h
                exact ⟨key, _, entry :: members, rest, quote, here,
                  .member (.next comma) nextQuote next others⟩
              · exact nomatch h
      · exact nomatch h
termination_by structural budget => budget

end

end Conform.Json
