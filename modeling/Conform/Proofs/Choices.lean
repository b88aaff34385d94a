import Conform.Dsl.Choices
import Conform.Proofs.Numerals

/-! # Choices as they are written

    Choices are written as booleans, as numerals or as words, with bars between
    them.  Reading gives their literals back (`choicesOf_texts`): of the type that
    is asked for, or, if none is, of the type that the writing shows.  Words show
    that they are strings unless all of them could be read as booleans, or all as
    numerals. -/

namespace Conform.Dsl

open Conform.Text

/-- Choices as they are written. -/
inductive WrittenChoices where
  | booleans (values : List Bool)
  | numbers (numerals : List Numeral)
  | words (spelled : List Chars)

/-- A boolean as it is written. -/
def booleanText (value : Bool) : Chars :=
  if value then ['t', 'r', 'u', 'e'] else ['f', 'a', 'l', 's', 'e']

/-- Whether the text can stand as a member: it is not empty, and all its characters
    are ASCII characters that stand for themselves. -/
def IsMember (text : Chars) : Prop := text ≠ [] ∧ ∀ c ∈ text, c.toNat < 128 ∧ isBare c = true

instance (text : Chars) : Decidable (IsMember text) :=
  @instDecidableAnd _ _ inferInstance (List.decidableBAll _ text)

namespace WrittenChoices

/-- The texts of the members. -/
def texts : WrittenChoices → List Chars
  | .booleans values => values.map booleanText
  | .numbers numerals => numerals.map Numeral.text
  | .words spelled => spelled

/-- The literals that are meant. -/
def literals : WrittenChoices → List Literal
  | .booleans values => values.map Literal.boolean
  | .numbers numerals => numerals.map fun numeral => .number numeral.value
  | .words spelled => spelled.map fun word => .string (String.ofList word)

/-- There are two members at least, and each can stand as one. -/
def WellFormed : WrittenChoices → Prop
  | .booleans values => 2 ≤ values.length
  | .numbers numerals => 2 ≤ numerals.length ∧ ∀ numeral ∈ numerals, numeral.IsPlain
  | .words spelled => 2 ≤ spelled.length ∧ ∀ word ∈ spelled, IsMember word

/-- Whether the choices can be taken as choices of the type. -/
def Are : ChoiceType → WrittenChoices → Prop
  | .string, .words _ => True
  | .number, .numbers _ => True
  | .integer, .numbers numerals => ∀ numeral ∈ numerals, numeral.value.isIntegral = true
  | .boolean, .booleans _ => True
  | _, _ => False

/-- The type that the choices are of if no other is asked for. -/
def ownType : WrittenChoices → ChoiceType
  | .booleans _ => .boolean
  | .numbers _ => .number
  | .words _ => .string

/-- Choices are of the type that their forms show. -/
theorem are_ownType (choices : WrittenChoices) : choices.Are choices.ownType := by
  cases choices with
  | booleans values => exact trivial
  | numbers numerals => exact trivial
  | words spelled => exact trivial

/-- Whether the writing shows the type: not all of the words are booleans, and not all
    are numerals. -/
def ShowType : WrittenChoices → Prop
  | .words spelled =>
      (∃ word ∈ spelled, ∀ value, word ≠ booleanText value)
        ∧ ∃ word ∈ spelled, ∀ numeral : Numeral, numeral.IsPlain → word ≠ numeral.text
  | _ => True

/-! ## Members -/

/-- There are two choices at least, as one alone is no listing. -/
theorem length_texts {choices : WrittenChoices} (h : choices.WellFormed) : 2 ≤ choices.texts.length := by
  cases choices with
  | booleans values =>
      show 2 ≤ (values.map booleanText).length
      rw [List.length_map]
      exact h
  | numbers numerals =>
      show 2 ≤ (numerals.map Numeral.text).length
      rw [List.length_map]
      exact h.1
  | words spelled => exact h.1

theorem texts_ne_nil {choices : WrittenChoices} (h : choices.WellFormed) : choices.texts ≠ [] :=
  List.ne_nil_of_length_pos (Nat.lt_of_succ_lt (length_texts h))

/-- Every choice is written bare. -/
theorem bare_texts {choices : WrittenChoices} (h : choices.WellFormed) :
    ∀ text ∈ choices.texts, text ≠ [] ∧ ∀ c ∈ text, isBare c = true := by
  intro text hmem
  cases choices with
  | booleans values =>
      obtain ⟨value, -, rfl⟩ := List.mem_map.1 hmem
      cases value with
      | true => exact ⟨by decide, List.all_eq_true.1 (by decide)⟩
      | false => exact ⟨by decide, List.all_eq_true.1 (by decide)⟩
  | numbers numerals =>
      obtain ⟨numeral, hnumeral, rfl⟩ := List.mem_map.1 hmem
      exact ⟨Numeral.text_ne_nil (h.2 numeral hnumeral), fun c hc =>
        Numeral.isBare_of_mem_text (h.2 numeral hnumeral) hc⟩
  | words spelled => exact ⟨(h.2 text hmem).1, fun c hc => ((h.2 text hmem).2 c hc).2⟩

end WrittenChoices

/-- Whether the text can stand between bars at all: it is not empty, and no comparison is
    written in it. -/
def CanStand (text : Chars) : Prop := text ≠ [] ∧ ∀ c ∈ text, c ≠ '<' ∧ c ≠ '>' ∧ c ≠ '='

instance (text : Chars) : Decidable (CanStand text) :=
  @instDecidableAnd _ _ inferInstance (List.decidableBAll _ text)

theorem canStand_of_isBare {text : Chars} (hne : text ≠ []) (hbare : ∀ c ∈ text, isBare c = true) :
    CanStand text :=
  ⟨hne, fun c hc => ⟨ne_of_isBare (hbare c hc) (by decide), ne_of_isBare (hbare c hc) (by decide),
    ne_of_isBare (hbare c hc) (by decide)⟩⟩

/-- Where all members can stand there is no fault. -/
theorem memberFault?_eq_none (body : Chars) {members : List Chars}
    (h : ∀ text ∈ members, CanStand text) : memberFault? body members = none := by
  induction members with
  | nil => rfl
  | cons member rest ih =>
      obtain ⟨hne, hunmarked⟩ := h member List.mem_cons_self
      have hoperator : ¬(member.any fun c => c = '<' || c = '>' || c = '=') = true := by
        rw [List.any_eq_true]
        rintro ⟨c, hc, hspecial⟩
        simp only [Bool.or_eq_true, decide_eq_true_eq, or_assoc] at hspecial
        obtain ⟨hbelow, habove, hequal⟩ := hunmarked c hc
        exact hspecial.elim hbelow fun hrest => hrest.elim habove hequal
      rw [memberFault?, if_neg fun hempty => hne (List.isEmpty_iff.1 hempty), if_neg hoperator,
        ih fun text hmem => h text (List.mem_cons_of_mem _ hmem)]

/-- Members that each denote a literal denote their literals. -/
theorem choicesFrom_map {α : Type} {type : ChoiceType} {text : α → Chars} {literal : α → Literal}
    {l : List α} (h : ∀ a ∈ l, choiceOf type (text a) = .ok (literal a)) :
    choicesFrom type (l.map text) = .ok (l.map literal) := by
  induction l with
  | nil => rfl
  | cons a rest ih =>
      show (choiceOf type (text a) >>= _) = _
      rw [h a List.mem_cons_self]
      show (choicesFrom type (rest.map text) >>= _) = _
      rw [ih fun b hb => h b (List.mem_cons_of_mem _ hb)]
      rfl

theorem booleanMember?_booleanText (value : Bool) :
    booleanMember? (booleanText value) = some value := by
  cases value <;> rfl

/-- Only the words of the two boolean values are read as boolean. -/
theorem eq_booleanText_of_booleanMember? {member : Chars} {value : Bool}
    (h : booleanMember? member = some value) : member = booleanText value := by
  unfold booleanMember? at h
  split at h
  · next htrue =>
      obtain rfl := Option.some.inj h
      rw [← String.toList_ofList (l := member), htrue]
      rfl
  · split at h
    · next hfalse =>
        obtain rfl := Option.some.inj h
        rw [← String.toList_ofList (l := member), hfalse]
        rfl
    · exact nomatch h

/-- A numeral spells no boolean. -/
theorem booleanMember?_text {numeral : Numeral} (h : numeral.IsPlain) :
    booleanMember? numeral.text = none := by
  cases hm : booleanMember? numeral.text with
  | none => rfl
  | some value =>
      have htext := eq_booleanText_of_booleanMember? hm
      have hread := Numeral.numeral?_text h
      rw [htext] at hread
      cases value with
      | true => exact nomatch hread
      | false => exact nomatch hread

/-! ## Types -/

/-- A listing of boolean words is one of booleans. -/
theorem commonType_booleans (values : List Bool) :
    commonType (values.map booleanText) = .boolean := by
  unfold commonType
  rw [if_pos]
  rw [List.all_eq_true]
  intro text hmem
  obtain ⟨value, -, rfl⟩ := List.mem_map.1 hmem
  rw [booleanMember?_booleanText]
  rfl

/-- A listing of plain numerals is one of numbers. -/
theorem commonType_numbers {numerals : List Numeral} (hne : numerals ≠ [])
    (h : ∀ numeral ∈ numerals, numeral.IsPlain) : commonType (numerals.map Numeral.text) = .number := by
  obtain ⟨first, rest, rfl⟩ := List.exists_cons_of_ne_nil hne
  unfold commonType
  rw [if_neg, if_pos]
  · rw [List.all_eq_true]
    intro text hmem
    obtain ⟨numeral, hnumeral, rfl⟩ := List.mem_map.1 hmem
    rw [Numeral.numeral?_text (h numeral hnumeral)]
    rfl
  · intro hall
    have hfirst := List.all_eq_true.1 hall first.text (List.mem_map_of_mem List.mem_cons_self)
    rw [booleanMember?_text (h first List.mem_cons_self)] at hfirst
    exact nomatch hfirst

/-- A listing of words is one of strings, unless all of them are boolean words or all are
    numerals. -/
theorem commonType_words {spelled : List Chars} (hmembers : ∀ word ∈ spelled, IsMember word)
    (h : (WrittenChoices.words spelled).ShowType) : commonType spelled = .string := by
  obtain ⟨⟨unboolean, hu, hunboolean⟩, unnumeral, hn, hunnumeral⟩ := h
  unfold commonType
  rw [if_neg, if_neg]
  · intro hall
    obtain ⟨numeral, hread⟩ := Option.isSome_iff_exists.1 (List.all_eq_true.1 hall unnumeral hn)
    obtain ⟨htext, hplain⟩ :=
      Numeral.isPlain_of_numeral? (fun c hc => ((hmembers unnumeral hn).2 c hc).1) hread
    exact hunnumeral numeral hplain htext.symm
  · intro hall
    obtain ⟨value, hread⟩ := Option.isSome_iff_exists.1 (List.all_eq_true.1 hall unboolean hu)
    exact hunboolean value (eq_booleanText_of_booleanMember? hread)

/-! ## Reading -/

namespace WrittenChoices

variable {choices : WrittenChoices} {type : ChoiceType}

/-- **THE TYPE OF A LISTING SHOWS IN ITS TEXT**, unless words were written that look like
    values. -/
theorem commonType_texts (h : choices.WellFormed) (hshow : choices.ShowType) :
    commonType choices.texts = choices.ownType := by
  cases choices with
  | booleans values => exact commonType_booleans values
  | numbers numerals =>
      refine commonType_numbers ?_ h.2
      rintro rfl
      exact absurd h.1 (by decide)
  | words spelled => exact commonType_words h.2 hshow

theorem choiceOf_number {numeral : Numeral} (h : numeral.IsPlain) :
    choiceOf .number numeral.text = .ok (.number numeral.value) := by
  unfold choiceOf
  rw [Numeral.numeral?_text h, Option.bind_some, Numeral.toBinary64?_of_isPlain h]

/-- Under a hint for integers a whole numeral stands for its double. -/
theorem choiceOf_integer {numeral : Numeral} (h : numeral.IsPlain)
    (hintegral : numeral.value.isIntegral = true) :
    choiceOf .integer numeral.text = .ok (.number numeral.value) := by
  unfold choiceOf
  rw [Numeral.numeral?_text h, Option.bind_some, Numeral.toBinary64?_of_isPlain h]
  exact if_pos hintegral

/-- Every text of a listing is read as its own literal, in order. -/
theorem choicesFrom_texts (h : choices.WellFormed) (hare : choices.Are type) :
    choicesFrom type choices.texts = .ok choices.literals := by
  cases choices with
  | booleans values =>
      cases type with
      | boolean => exact choicesFrom_map fun value _ => by cases value <;> rfl
      | string => exact hare.elim
      | number => exact hare.elim
      | integer => exact hare.elim
  | numbers numerals =>
      cases type with
      | number => exact choicesFrom_map fun numeral hmem => choiceOf_number (h.2 numeral hmem)
      | integer =>
          exact choicesFrom_map fun numeral hmem =>
            choiceOf_integer (h.2 numeral hmem) (hare numeral hmem)
      | string => exact hare.elim
      | boolean => exact hare.elim
  | words spelled =>
      cases type with
      | string =>
          have hwords : choicesFrom .string (spelled.map id)
              = .ok (spelled.map fun word => .string (String.ofList word)) :=
            choicesFrom_map fun word _ => rfl
          rw [List.map_id] at hwords
          exact hwords
      | number => exact hare.elim
      | integer => exact hare.elim
      | boolean => exact hare.elim

/-- The pieces of separated members are the members. -/
theorem pieces_texts (h : choices.WellFormed) :
    (pieces '|' (separated '|' choices.texts)).map trim = choices.texts := by
  rw [pieces_separated (texts_ne_nil h)]
  · refine (List.map_congr_left fun text hmem => ?_).trans (List.map_id choices.texts)
    exact trim_eq_self (unblank_of_isBare (bare_texts h text hmem).2)
  · intro text hmem hbar
    exact absurd ((bare_texts h text hmem).2 '|' hbar) (by decide)

/-- **WRITTEN CHOICES ARE READ AS THEY ARE MEANT.** -/
theorem choicesOf_texts (h : choices.WellFormed) {hint : Option ChoiceType}
    (hare : choices.Are (hint.getD choices.ownType)) (hshow : hint = none → choices.ShowType) :
    choicesOf hint (separated '|' choices.texts)
      = .ok (hint.getD choices.ownType, choices.literals) := by
  have hlength := length_texts h
  have htype : hint.getD (commonType choices.texts) = hint.getD choices.ownType := by
    cases hint with
    | some type => rfl
    | none => exact commonType_texts h (hshow rfl)
  have hstand : ∀ text ∈ choices.texts, CanStand text := fun text hmem =>
    canStand_of_isBare (bare_texts h text hmem).1 (bare_texts h text hmem).2
  unfold choicesOf
  rw [pieces_texts h]
  dsimp only
  rw [if_neg (Nat.not_lt.2 hlength), memberFault?_eq_none _ hstand, htype]
  show (choicesFrom (hint.getD choices.ownType) choices.texts >>= _) = _
  rw [choicesFrom_texts h hare]
  rfl

theorem choicesOf_texts_hinted (h : choices.WellFormed) (hare : choices.Are type) :
    choicesOf (some type) (separated '|' choices.texts) = .ok (type, choices.literals) :=
  choicesOf_texts h hare nofun

theorem choicesOf_texts_own (h : choices.WellFormed) (hshow : choices.ShowType) :
    choicesOf none (separated '|' choices.texts) = .ok (choices.ownType, choices.literals) :=
  choicesOf_texts h choices.are_ownType fun _ => hshow

end WrittenChoices

end Conform.Dsl
