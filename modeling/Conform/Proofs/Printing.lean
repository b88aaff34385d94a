import Conform.Proofs.PrintedTokens
import Conform.Proofs.Readers

/-! # Printing — compact JSON is read as what was printed

    A value is printed as a document that has this value, and the document ends where the
    printed text does: nothing is printed but tokens, brackets, commas and colons.  So the
    printed text is read to the value again (`ofText_render`).

    Two things are asked of the value that every value of a document satisfies: an integer
    has 64 bits, and the names in an object differ.  Of two members with one name both are
    printed, and the later one is read. -/

namespace Conform.Json

open Text

/-- No integer in the value takes more than 64 bits, with its sign if it has one. -/
def IntegersFit (value : Json) : Prop :=
  value.Every fun value => ∀ n, value = .integer n → -2 ^ 63 ≤ n ∧ n < 2 ^ 64

/-- Whatever ends a number may follow: the text begins with a document of this value, and
    the document takes all of the printed text. -/
def Prints (value : Json) (text : Chars) : Prop :=
  ∀ rest, EndsNumber rest → ∃ document, Begins (text ++ rest) document rest ∧ document.value? = some value

/-! ## Tokens -/

/-- A numeral begins with a digit. -/
theorem Numeral.IsWritten.exists_digit {n : Numeral} (h : n.IsWritten) :
    ∃ c more, n.unsigned = c :: more ∧ isDigit c = true := by
  have hcons : ∀ c more, n.whole = c :: more → ∃ c more, n.unsigned = c :: more ∧ isDigit c = true := by
    intro c more hwhole
    refine ⟨c, more ++ (fractionText n.fraction ++ exponentText n.exponent), ?_, h.whole c ?_⟩
    · rw [unsigned, hwhole]
      rfl
    · rw [hwhole]
      exact List.mem_cons_self
  rcases h.leading with hzero | ⟨c, more, hwhole, -⟩
  · exact hcons '0' [] hzero
  · exact hcons c more hwhole

/-- No blank is a digit. -/
theorem skipSpace_digit {c : Char} (h : isDigit c = true) (rest : Chars) :
    skipSpace (c :: rest) = c :: rest := by
  refine List.dropWhile_cons_of_neg fun hspace => ?_
  unfold isSpace at hspace
  simp only [Bool.or_eq_true, decide_eq_true_eq] at hspace
  rcases hspace with ((rfl | rfl) | rfl) | rfl <;> exact absurd h (by decide)

/-- A written numeral prints its value, negative or not. -/
theorem prints_numeral {n : Numeral} {value : Json} (h : n.IsWritten) (hvalue : n.value = .ok value) :
    Prints value (sign n.negative ++ n.unsigned) := by
  intro rest hrest
  have hread := Numeral.readNumeral_unsigned h hrest
  refine ⟨.number n.value.toOption, ?_, by rw [hvalue]; rfl⟩
  rw [List.append_assoc]
  cases hnegative : n.negative with
  | true =>
      rw [hnegative] at hread
      exact .negative rfl hread
  | false =>
      obtain ⟨c, more, htext, hdigit⟩ := h.exists_digit
      rw [hnegative, htext] at hread
      rw [htext]
      exact .positive (skipSpace_digit hdigit _) hdigit hread

/-- What is put around a text stands around its characters. -/
theorem toList_between (front inside back : String) (rest : Chars) :
    (front ++ inside ++ back).toList ++ rest
      = front.toList ++ (inside.toList ++ (back.toList ++ rest)) := by
  rw [String.toList_append, String.toList_append, List.append_assoc, List.append_assoc]

theorem toList_quote (text : String) (rest : Chars) :
    (quote text).toList ++ rest = '"' :: (text.toList.flatMap escape ++ '"' :: rest) := by
  rw [quote, toList_between, String.toList_ofList (l := text.toList.flatMap escape)]
  rfl

/-- The inside of a quoted string is skipped up to its end, and is the string. -/
theorem readString_inside (text : String) (rest : Chars) :
    skipString (text.toList.flatMap escape ++ '"' :: rest) = .ok ((), rest)
      ∧ stringAt? (text.toList.flatMap escape ++ '"' :: rest) = some text := by
  have hread := readString_escaped text rest
  refine ⟨skipString_of_readString hread, ?_⟩
  rw [stringAt?, hread]
  rfl

/-- A quoted string prints the string. -/
theorem prints_string (text : String) : Prints (.string text) (quote text).toList := by
  intro rest _
  obtain ⟨hskip, hstring⟩ := readString_inside text rest
  refine ⟨.string (stringAt? (text.toList.flatMap escape ++ '"' :: rest)), ?_, by rw [hstring]; rfl⟩
  rw [toList_quote]
  exact .string rfl hskip

/-! ## Lists -/

theorem endsNumber_cons {c : Char} (h : c = ',' ∨ c = ']' ∨ c = '\x7d') (rest : Chars) : EndsNumber (c :: rest) := by
  rintro other hother
  rwa [← Option.some.inj hother]

theorem toList_renderItems_next (item next : Json) (more : List Json) (rest : Chars) :
    (renderItems (item :: next :: more)).toList ++ rest
      = item.render.toList ++ ',' :: ((renderItems (next :: more)).toList ++ rest) := by
  rw [renderItems, toList_between]
  rfl

/-- From where the first item starts, the items are read up to the bracket after them. -/
theorem exists_beginsItems {items : List Json} (hne : items ≠ [])
    (hitems : ∀ item ∈ items, Prints item item.render.toList) {first : Bool} {text rest : Chars}
    (hstarts : Starts first text ((renderItems items).toList ++ ']' :: rest)) :
    ∃ documents, BeginsItems first text documents rest ∧ Document.values? documents = some items := by
  induction items generalizing first text with
  | nil => exact absurd rfl hne
  | cons item items ih =>
      obtain ⟨hitem, hitems⟩ := List.forall_mem_cons.1 hitems
      cases items with
      | nil =>
          obtain ⟨document, hhere, hvalue⟩ := hitem _ (endsNumber_cons (.inr (.inl rfl)) rest)
          refine ⟨[document], .item hstarts hhere (.done rfl), ?_⟩
          rw [Document.values?, hvalue]
          rfl
      | cons next more =>
          rw [toList_renderItems_next] at hstarts
          obtain ⟨document, hhere, hvalue⟩ := hitem _
            (endsNumber_cons (.inl rfl) ((renderItems (next :: more)).toList ++ ']' :: rest))
          have hnext : Starts false (',' :: ((renderItems (next :: more)).toList ++ ']' :: rest)) _ := .next rfl
          obtain ⟨documents, hothers, hvalues⟩ := ih (List.cons_ne_nil _ _) hitems hnext
          refine ⟨document :: documents, .item hstarts hhere hothers, ?_⟩
          rw [Document.values?, hvalue, hvalues]
          rfl

/-- **A LIST OF PRINTED ITEMS IS PRINTED.** -/
theorem prints_array {items : List Json} (hitems : ∀ item ∈ items, Prints item item.render.toList) :
    Prints (.array items) (render (.array items)).toList := by
  intro rest _
  have htext : (render (.array items)).toList ++ rest = '[' :: ((renderItems items).toList ++ ']' :: rest) := by
    rw [render, toList_between]
    rfl
  rw [htext]
  cases items with
  | nil => exact ⟨.array [], .array rfl (.done rfl), rfl⟩
  | cons item items =>
      obtain ⟨documents, hinside, hvalues⟩ := exists_beginsItems (List.cons_ne_nil _ _) hitems .first
      refine ⟨.array documents, .array rfl hinside, ?_⟩
      rw [Document.value?, hvalues]
      rfl

/-! ## Objects -/

/-- A member is read up to what follows its value. -/
theorem exists_beginsMember {value : Json} (hvalue : Prints value value.render.toList) (name : String)
    {rest : Chars} (hrest : EndsNumber rest) :
    ∃ key document, skipSpace ((quote name).toList ++ ':' :: (value.render.toList ++ rest)) = '"' :: key
      ∧ BeginsMember key (some name, document) rest ∧ document.value? = some value := by
  obtain ⟨document, hhere, hvalue⟩ := hvalue rest hrest
  obtain ⟨hskip, hname⟩ := readString_inside name (':' :: (value.render.toList ++ rest))
  have hmember := BeginsMember.intro hskip rfl hhere
  rw [hname] at hmember
  refine ⟨_, document, ?_, hmember, hvalue⟩
  rw [toList_quote]
  rfl

theorem toList_renderMembers_one (name : String) (value : Json) (rest : Chars) :
    (renderMembers [(name, value)]).toList ++ rest
      = (quote name).toList ++ ':' :: (value.render.toList ++ rest) := by
  rw [renderMembers, toList_between]
  rfl

theorem toList_renderMembers_next (name : String) (value : Json) (next : String × Json)
    (more : List (String × Json)) (rest : Chars) :
    (renderMembers ((name, value) :: next :: more)).toList ++ rest
      = (quote name).toList
        ++ ':' :: (value.render.toList ++ ',' :: ((renderMembers (next :: more)).toList ++ rest)) := by
  rw [renderMembers, toList_between, toList_between]
  rfl

/-- From where the first member starts, the members are read up to the brace after them. -/
theorem exists_beginsMembers {members : List (String × Json)} (hne : members ≠ [])
    (hmembers : ∀ value ∈ members.map Prod.snd, Prints value value.render.toList) {first : Bool}
    {text rest : Chars} (hstarts : Starts first text ((renderMembers members).toList ++ '\x7d' :: rest)) :
    ∃ documents, BeginsMembers first text documents rest
      ∧ Document.memberValues? documents = some members := by
  induction members generalizing first text with
  | nil => exact absurd rfl hne
  | cons member members ih =>
      obtain ⟨name, value⟩ := member
      obtain ⟨hmember, hmembers⟩ := List.forall_mem_cons.1 hmembers
      cases members with
      | nil =>
          rw [toList_renderMembers_one] at hstarts
          obtain ⟨key, document, hquote, hhere, hvalue⟩ :=
            exists_beginsMember hmember name (endsNumber_cons (.inr (.inr rfl)) rest)
          refine ⟨[(some name, document)], .member hstarts hquote hhere (.done rfl), ?_⟩
          rw [Document.memberValues?, Option.bind_some, hvalue]
          rfl
      | cons next more =>
          rw [toList_renderMembers_next] at hstarts
          obtain ⟨key, document, hquote, hhere, hvalue⟩ := exists_beginsMember hmember name
            (endsNumber_cons (.inl rfl) ((renderMembers (next :: more)).toList ++ '\x7d' :: rest))
          have hnext : Starts false (',' :: ((renderMembers (next :: more)).toList ++ '\x7d' :: rest)) _ :=
            .next rfl
          obtain ⟨documents, hothers, hvalues⟩ := ih (List.cons_ne_nil _ _) hmembers hnext
          refine ⟨(some name, document) :: documents, .member hstarts hquote hhere hothers, ?_⟩
          rw [Document.memberValues?, Option.bind_some, hvalue, Option.bind_some, hvalues]
          rfl

/-- **AN OBJECT OF PRINTED MEMBERS IS PRINTED.** -/
theorem prints_object {members : List (String × Json)}
    (hmembers : ∀ value ∈ members.map Prod.snd, Prints value value.render.toList) :
    Prints (.object members) (render (.object members)).toList := by
  intro rest _
  have htext : (render (.object members)).toList ++ rest
      = '\x7b' :: ((renderMembers members).toList ++ '\x7d' :: rest) := by
    rw [render, toList_between]
    rfl
  rw [htext]
  cases members with
  | nil => exact ⟨.object [], .object rfl (.done rfl), rfl⟩
  | cons member members =>
      obtain ⟨documents, hinside, hvalues⟩ := exists_beginsMembers (List.cons_ne_nil _ _) hmembers .first
      refine ⟨.object documents, .object rfl hinside, ?_⟩
      rw [Document.value?, hvalues]
      rfl

/-! ## Values -/

/-- **A VALUE IS PRINTED AS A DOCUMENT OF THIS VALUE**, whatever its names are. -/
theorem prints_render {value : Json} (h : value.IntegersFit) : Prints value value.render.toList := by
  induction h with
  | @intro value here _ ih =>
      cases value with
      | null => exact fun rest _ => ⟨.null, .null rfl rfl, rfl⟩
      | bool value =>
          cases value with
          | true => exact fun rest _ => ⟨.bool true, .yes rfl rfl, rfl⟩
          | false => exact fun rest _ => ⟨.bool false, .no rfl rfl, rfl⟩
      | integer n =>
          obtain ⟨hlow, hhigh⟩ := here n rfl
          obtain ⟨numeral, hwritten, htext, hvalue⟩ := exists_numeral_integer hlow hhigh
          rw [render, htext]
          exact prints_numeral hwritten hvalue
      | float x =>
          obtain ⟨numeral, hwritten, htext, hvalue⟩ := exists_numeral_float x
          rw [render, htext]
          exact prints_numeral hwritten hvalue
      | string text => exact prints_string text
      | array items => exact prints_array ih
      | object members => exact prints_object ih

/-- **COMPACT JSON IS READ AS WHAT WAS PRINTED.** -/
theorem ofText_render {value : Json} (hfit : value.IntegersFit) (hnames : value.NamesDiffer) :
    ofText value.render = .ok value := by
  obtain ⟨document, hbegins, hvalue⟩ := prints_render hfit [] nofun
  rw [List.append_nil] at hbegins
  exact (ofText_eq_ok_iff _ _).2
    ⟨document, value, ⟨[], hbegins, rfl⟩, hvalue, merged_of_namesDiffer value hnames⟩

end Conform.Json
