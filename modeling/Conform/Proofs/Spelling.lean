import Conform.Proofs.Comparing
import Conform.Proofs.Limits
import Conform.Proofs.Magnitudes

/-! # Spelling — choices whose type is not asked for

    A list of choices for which no type is asked shows its type: it is boolean if every
    member spells a boolean, number if every member can be read as a number, string
    otherwise.  A text can have the form of a number and yet not be readable as one, for
    its digits may be those of another script.  Where no list is lost on that, each list
    is read (`unhinted_choices_hold`), and a type with its choices accepts exactly the
    values that equal one of them, its own choices among them. -/

namespace Conform

/-! ## Values of a literal -/

namespace Binary64

/-- An integer that is a double is rounded to itself. -/
theorem roundInt_of_scaled {x : Finite} {n : Int} (h : n * unit = x.scaled) : roundInt n = n := by
  have hmagnitude : n.natAbs * unit = x.magnitude := by
    have habs : x.scaled.natAbs = x.magnitude := by
      unfold Finite.scaled
      split_ifs <;> omega
    rw [← habs, ← h, Int.natAbs_mul, Int.natAbs_natCast]
  unfold roundInt
  rw [hmagnitude, nearest_of_onGrid (onGrid_magnitude x), ← hmagnitude, Nat.mul_div_cancel _ unit_pos]
  split_ifs <;> omega

/-- An integer of 53 bits is a double. -/
theorem scaled_of_ofInt {x : Finite} {n : Int} (h : n.natAbs ≤ 2 ^ 53) (hx : ofInt n = .finite x) :
    x.scaled = n * unit := by
  obtain ⟨y, hy, hscaled⟩ := exists_ofInt_eq (Nat.le_trans h (by decide))
  obtain rfl : x = y := Binary64.finite.inj (hx.symm.trans hy)
  rw [hscaled, roundInt_of_natAbs_le h]

end Binary64

namespace Literal

/-- The value is of the type of the literal and equal to it.  An integer of more than 53
    bits equals also the number that it is rounded to. -/
inductive Equals : Literal → Json → Prop where
  | string (text : String) : Equals (.string text) (.string text)
  | boolean (truth : Bool) : Equals (.boolean truth) (.bool truth)
  | float {x y : Binary64.Finite} (h : y.scaled = x.scaled) :
      Equals (.number (.finite x)) (.float y)
  | integer {x : Binary64.Finite} {n : Int} (h : n * Binary64.unit = x.scaled) :
      Equals (.number (.finite x)) (.integer n)
  | rounded {x : Binary64.Finite} {n : Int} (hlarge : 2 ^ 53 < n.natAbs)
      (h : Binary64.roundInt n * Binary64.unit = x.scaled) : Equals (.number (.finite x)) (.integer n)

variable {literal : Literal} {value : Json}

/-- A literal number is met by a double that equals it. -/
theorem equals_float_iff {x : Binary64} {y : Binary64.Finite} :
    (Literal.number x).Equals (.float y) ↔ Binary64.eq (.finite y) x = true := by
  constructor
  · rintro (_ | _ | hscaled | _ | _)
    exact decide_eq_true hscaled
  · intro heq
    cases x with
    | nan => exact nomatch heq
    | infinite negative => exact nomatch heq
    | finite x => exact .float (of_decide_eq_true heq)

/-- What an integer is rounded to equals it. -/
theorem equals_of_roundInt {x : Binary64.Finite} {n : Int}
    (h : Binary64.roundInt n * Binary64.unit = x.scaled) : (Literal.number (.finite x)).Equals (.integer n) := by
  rcases Nat.lt_or_ge (2 ^ 53) n.natAbs with hlarge | hsmall
  · exact .rounded hlarge h
  · rw [Binary64.roundInt_of_natAbs_le hsmall] at h
    exact .integer h

/-- A literal number is met by an integer whose nearest double equals it. -/
theorem equals_integer_iff {x : Binary64} {n : Int} (hbits : n.natAbs ≤ 2 ^ 64) :
    (Literal.number x).Equals (.integer n) ↔ Binary64.eq (.ofInt n) x = true := by
  obtain ⟨y, hy, hround⟩ := Binary64.exists_ofInt_eq hbits
  rw [hy]
  constructor
  · rintro (_ | _ | _ | hscaled | ⟨_, hscaled⟩)
    · rw [Binary64.roundInt_of_scaled hscaled] at hround
      exact decide_eq_true (hround.trans hscaled)
    · exact decide_eq_true (hround.trans hscaled)
  · intro heq
    cases x with
    | nan => exact nomatch heq
    | infinite negative => exact nomatch heq
    | finite x => exact equals_of_roundInt (hround.symm.trans (of_decide_eq_true heq))

/-- **A LITERAL ACCEPTS THE VALUES THAT EQUAL IT.** -/
theorem accepts_iff_equals (hvalue : value.IsDatum) :
    literal.accepts value = true ↔ literal.Equals value := by
  fun_cases Literal.accepts literal value with
  | case1 text other =>
      rw [beq_iff_eq]
      constructor
      · rintro rfl
        exact .string text
      · rintro (_ | _ | _ | _ | _)
        rfl
  | case2 x n =>
      obtain ⟨hlow, hhigh⟩ : -2 ^ 63 ≤ n ∧ n < 2 ^ 64 := hvalue
      exact (equals_integer_iff (by omega)).symm
  | case3 x y => exact equals_float_iff.symm
  | case4 truth other =>
      rw [beq_iff_eq]
      constructor
      · rintro rfl
        exact .boolean truth
      · rintro (_ | _ | _ | _ | _)
        rfl
  | case5 literal value hstring hinteger hfloat hbool =>
      -- kinds differ here, and every way to be equal needs one kind
      refine ⟨nofun, fun hequals => ?_⟩
      cases hequals with
      | string text => exact (hstring text text rfl rfl).elim
      | boolean truth => exact (hbool truth truth rfl rfl).elim
      | float h => exact (hfloat _ _ rfl rfl).elim
      | integer h => exact (hinteger _ _ rfl rfl).elim
      | rounded hlarge h => exact (hinteger _ _ rfl rfl).elim

/-- An integer that a double is written as has 64 bits. -/
theorem isSigned64_of_toSigned64? {x : Binary64} {n : Int} (h : x.toSigned64? = some n) : IsSigned64 n := by
  cases x with
  | nan => exact nomatch h
  | infinite negative => exact nomatch h
  | finite x =>
      obtain ⟨-, hclamp⟩ := Option.ite_none_right_eq_some.1 h
      obtain rfl := Option.some.inj hclamp
      unfold Binary64.clamp
      split_ifs with hlow hhigh
      · exact ⟨by decide, by decide⟩
      · exact ⟨by decide, by decide⟩
      · exact ⟨Int.not_lt.1 hlow, Int.lt_add_one_of_le (Int.not_lt.1 hhigh)⟩

/-- **A LITERAL EQUALS ITS OWN JSON FORM**, if its number is finite. -/
theorem equals_toJson (hfinite : literal.IsFinite) :
    literal.toJson.IsDatum ∧ literal.Equals literal.toJson := by
  cases literal with
  | string text => exact ⟨trivial, .string text⟩
  | boolean truth => exact ⟨trivial, .boolean truth⟩
  | number x =>
      obtain ⟨x, rfl⟩ : x.IsFinite := hfinite
      obtain ⟨y, hy, hscaled⟩ := Json.asBinary64?_ofNumber x
      show (Json.ofNumber (.finite x)).IsDatum ∧ Equals _ (Json.ofNumber (.finite x))
      unfold Json.ofNumber at hy ⊢
      cases hn : (Binary64.finite x).toSigned64? with
      | none => exact ⟨trivial, .float rfl⟩
      | some n =>
          rw [hn] at hy
          have hbits := isSigned64_of_toSigned64? hn
          obtain ⟨z, hz, hround⟩ := Binary64.exists_ofInt_eq hbits.natAbs_le
          obtain rfl : y = z := Binary64.finite.inj ((Option.some.inj hy).symm.trans hz)
          refine ⟨⟨hbits.1, by have := hbits.2; omega⟩, equals_of_roundInt (hround.symm.trans hscaled)⟩

end Literal

/-! ## What members show -/

namespace Dsl

open Conform.Text

/-- The body lists two members at least, and each can stand between bars. -/
structure IsList (body : Chars) : Prop where
  two_le : 2 ≤ (listed body).length
  canStand : ∀ text ∈ listed body, CanStand text

/-- The text spells a boolean. -/
def SpellsBoolean (text : Chars) : Prop := ∃ truth, booleanText truth = text

/-- The text has the form of a number, in the digits of whatever scripts. -/
def HasNumberForm (text : Chars) : Prop := ∃ numeral : Numeral, numeral.IsSpelled ∧ numeral.text = text

/-- The text can be read as a number. -/
def ReadsAsNumber (text : Chars) : Prop := ∃ numeral : Numeral, numeral.IsPlain ∧ numeral.text = text

/-- The members show the type. -/
def Show (members : List Chars) : ChoiceType → Prop
  | .boolean => ∀ text ∈ members, SpellsBoolean text
  | .number => ∀ text ∈ members, ReadsAsNumber text
  | .string => ¬(∀ text ∈ members, SpellsBoolean text) ∧ ¬∀ text ∈ members, ReadsAsNumber text
  | .integer => False

/-- What a member stands for in a list of the type. -/
inductive StandsFor : ChoiceType → Chars → Literal → Prop where
  | word (text : Chars) : StandsFor .string text (.string (String.ofList text))
  | number {numeral : Numeral} (h : numeral.IsPlain) :
      StandsFor .number numeral.text (.number numeral.value)
  | boolean (truth : Bool) : StandsFor .boolean (booleanText truth) (.boolean truth)

section

variable {type : ChoiceType} {text : Chars} {literal : Literal} {members : List Chars}

/-- A text spells a boolean value exactly if it is read as one. -/
theorem spellsBoolean_iff : SpellsBoolean text ↔ (booleanMember? text).isSome = true := by
  constructor
  · rintro ⟨truth, rfl⟩
    rw [booleanMember?_booleanText]
    rfl
  · intro h
    obtain ⟨truth, hread⟩ := Option.isSome_iff_exists.1 h
    exact ⟨truth, (eq_booleanText_of_booleanMember? hread).symm⟩

/-- A text has the form of a number exactly if it is read as a numeral. -/
theorem hasNumberForm_iff : HasNumberForm text ↔ (numeral? text).isSome = true := by
  constructor
  · rintro ⟨numeral, hspelled, rfl⟩
    rw [Numeral.numeral?_of_isSpelled hspelled]
    rfl
  · intro h
    obtain ⟨numeral, hread⟩ := Option.isSome_iff_exists.1 h
    obtain ⟨htext, hspelled⟩ := Numeral.isSpelled_of_numeral? hread
    exact ⟨numeral, hspelled, htext⟩

theorem ReadsAsNumber.hasNumberForm (h : ReadsAsNumber text) : HasNumberForm text := by
  obtain ⟨numeral, hplain, htext⟩ := h
  exact ⟨numeral, hplain.isSpelled, htext⟩

instance (text : Chars) : Decidable (SpellsBoolean text) := decidable_of_iff _ spellsBoolean_iff.symm

instance (text : Chars) : Decidable (HasNumberForm text) := decidable_of_iff _ hasNumberForm_iff.symm

/-- No boolean has the form of a number. -/
theorem not_hasNumberForm_of_spellsBoolean (h : SpellsBoolean text) : ¬HasNumberForm text := by
  obtain ⟨truth, rfl⟩ := h
  rw [hasNumberForm_iff]
  cases truth with
  | true => exact nofun
  | false => exact nofun

/-- **MEMBERS ARE OF THE TYPE THAT THEY SHOW**, if all can be read as numbers once all have
    the form of one. -/
theorem show_commonType (hne : members ≠ [])
    (hdigits : (∀ text ∈ members, HasNumberForm text) → ∀ text ∈ members, ReadsAsNumber text) :
    Show members (commonType members) := by
  obtain ⟨first, hfirst⟩ := List.exists_mem_of_ne_nil members hne
  have hboolean : (members.all fun member => (booleanMember? member).isSome) = true
      ↔ ∀ text ∈ members, SpellsBoolean text := by
    simp only [List.all_eq_true, spellsBoolean_iff]
  have hnumber : (members.all fun member => (numeral? member).isSome) = true
      ↔ ∀ text ∈ members, HasNumberForm text := by
    simp only [List.all_eq_true, hasNumberForm_iff]
  unfold commonType
  by_cases hb : ∀ text ∈ members, SpellsBoolean text
  · rw [if_pos (hboolean.2 hb)]
    exact hb
  · rw [if_neg (mt hboolean.1 hb)]
    by_cases hn : ∀ text ∈ members, HasNumberForm text
    · rw [if_pos (hnumber.2 hn)]
      exact hdigits hn
    · rw [if_neg (mt hnumber.1 hn)]
      exact ⟨hb, fun hall => hn fun text hmem => (hall text hmem).hasNumberForm⟩

/-- Members show one type only. -/
theorem Show.eq {other : ChoiceType} (hne : members ≠ []) (h : Show members type)
    (hother : Show members other) : type = other := by
  obtain ⟨first, hfirst⟩ := List.exists_mem_of_ne_nil members hne
  have hapart : (∀ text ∈ members, SpellsBoolean text) → ¬∀ text ∈ members, ReadsAsNumber text :=
    fun hb hn => not_hasNumberForm_of_spellsBoolean (hb first hfirst) (hn first hfirst).hasNumberForm
  cases type with
  | integer => exact h.elim
  | boolean =>
      cases other with
      | boolean => rfl
      | number => exact absurd hother (hapart h)
      | string => exact absurd h hother.1
      | integer => exact hother.elim
  | number =>
      cases other with
      | boolean => exact absurd h (hapart hother)
      | number => rfl
      | string => exact absurd h hother.2
      | integer => exact hother.elim
  | string =>
      cases other with
      | boolean => exact absurd hother h.1
      | number => exact absurd hother h.2
      | string => rfl
      | integer => exact hother.elim

/-! ## Literals -/

/-- A member of the shown type stands for a literal. -/
theorem exists_standsFor (h : Show members type) (hmem : text ∈ members) :
    ∃ literal, StandsFor type text literal := by
  cases type with
  | string => exact ⟨_, .word text⟩
  | number =>
      obtain ⟨numeral, hplain, rfl⟩ := h text hmem
      exact ⟨_, .number hplain⟩
  | boolean =>
      obtain ⟨truth, rfl⟩ := h text hmem
      exact ⟨_, .boolean truth⟩
  | integer => exact h.elim

/-- A member is read as the literal that it stands for. -/
theorem StandsFor.choiceOf_eq (h : StandsFor type text literal) : choiceOf type text = .ok literal := by
  cases h with
  | word text => rfl
  | number hplain => exact WrittenChoices.choiceOf_number hplain
  | boolean truth =>
      unfold choiceOf
      rw [booleanMember?_booleanText]

/-- **MEMBERS ARE READ AS THE LITERALS THAT THEY STAND FOR.** -/
theorem exists_choicesFrom (h : ∀ text ∈ members, ∃ literal, StandsFor type text literal) :
    ∃ literals, choicesFrom type members = .ok literals
      ∧ List.Forall₂ (StandsFor type) members literals := by
  induction members with
  | nil => exact ⟨[], rfl, .nil⟩
  | cons text rest ih =>
      obtain ⟨literal, hliteral⟩ := h text List.mem_cons_self
      obtain ⟨literals, hread, hall⟩ := ih fun other hmem => h other (List.mem_cons_of_mem _ hmem)
      refine ⟨literal :: literals, ?_, .cons hliteral hall⟩
      show (choiceOf type text >>= _) = _
      rw [hliteral.choiceOf_eq]
      show (choicesFrom type rest >>= _) = _
      rw [hread]
      rfl

/-- The values that equal a literal are of the type. -/
theorem StandsFor.fits (h : StandsFor type text literal) {value : Json} (hequals : literal.Equals value) :
    (BaseType.primitive type.primitive).fits value = true := by
  cases h with
  | word text =>
      cases hequals
      rfl
  | boolean truth =>
      cases hequals
      rfl
  | @number numeral hplain =>
      generalize numeral.value = x at hequals
      cases hequals with
      | float hscaled => rfl
      | integer hscaled => rfl
      | rounded hlarge hscaled => rfl

/-- Every literal of a listing has a member that stands for it. -/
theorem exists_standsFor_of_mem {literals : List Literal}
    (hall : List.Forall₂ (StandsFor type) members literals) (hmem : literal ∈ literals) :
    ∃ text, StandsFor type text literal := by
  induction hall with
  | nil => exact nomatch hmem
  | @cons text first _ _ hfirst _ ih =>
      rcases List.mem_cons.1 hmem with rfl | hrest
      · exact ⟨text, hfirst⟩
      · exact ih hrest

/-- **A LIST IS READ**, as the type that it shows. -/
theorem choicesOf_list {body : Chars} (hlist : IsList body)
    (hdigits : (∀ text ∈ listed body, HasNumberForm text) → ∀ text ∈ listed body, ReadsAsNumber text) :
    ∃ type literals, choicesOf none body = .ok (type, literals)
      ∧ (∀ other, Show (listed body) other ↔ other = type)
      ∧ List.Forall₂ (StandsFor type) (listed body) literals := by
  have hne : listed body ≠ [] := List.ne_nil_of_length_pos (Nat.lt_of_succ_lt hlist.two_le)
  have hshow := show_commonType hne hdigits
  obtain ⟨literals, hread, hall⟩ := exists_choicesFrom fun text hmem => exists_standsFor hshow hmem
  have honly : ∀ other, Show (listed body) other ↔ other = commonType (listed body) := by
    intro other
    constructor
    · intro hother
      exact hother.eq hne hshow
    · rintro rfl
      exact hshow
  refine ⟨commonType (listed body), literals, ?_, honly, hall⟩
  have hchoices : choicesOf none body
      = choicesFrom (commonType (listed body)) (listed body)
          >>= fun literals => pure (commonType (listed body), literals) := by
    have hlength : ¬((pieces '|' body).map trim).length < 2 := Nat.not_lt.2 hlist.two_le
    have hfault : memberFault? body ((pieces '|' body).map trim) = none :=
      memberFault?_eq_none body hlist.canStand
    unfold choicesOf
    dsimp only
    rw [if_neg hlength, hfault]
    rfl
  rw [hchoices, hread]
  rfl

end

end Dsl

/-! ## What choices accept -/

section

open Dsl

variable {schema : Schema} {type : ChoiceType} {members : List Text.Chars} {literals : List Literal}
  {required : Bool}

/-- **CHOICES ACCEPT WHAT EQUALS ONE OF THEM.** -/
theorem Schema.check_literals_iff (hall : List.Forall₂ (StandsFor type) members literals)
    (hne : literals ≠ [])
    (hnode : schema.node = .leaf type.primitive { required := required, choices := literals })
    {value : Json} (hvalue : value.IsDatum) :
    (schema.check value).value = true ↔ ∃ literal ∈ literals, literal.Equals value := by
  have hformat : OwnFault.ofFormat? (.primitive type.primitive) value = none := by
    cases type <;> cases value <;> rfl
  rw [Schema.check_choices_iff hne hnode hvalue.isNull hformat]
  constructor
  · rintro ⟨-, literal, hmem, haccepts⟩
    exact ⟨literal, hmem, (Literal.accepts_iff_equals hvalue).1 haccepts⟩
  · rintro ⟨literal, hmem, hequals⟩
    obtain ⟨text, hstands⟩ := exists_standsFor_of_mem hall hmem
    exact ⟨hstands.fits hequals, literal, hmem, (Literal.accepts_iff_equals hvalue).2 hequals⟩

/-- Null is no choice: it stands for a value that is absent. -/
theorem Schema.check_null_iff
    (hnode : schema.node = .leaf type.primitive { required := required, choices := literals }) :
    (schema.check .null).value = true ↔ required = false := by
  have hnull : (Node.leaf type.primitive { required := required, choices := literals }).present?
      (.root .null) = none := by
    cases type <;> rfl
  have hfound : hasErrors (schema.rules.findings
      (.leaf type.primitive { required := required, choices := literals }) (.root .null)) = required :=
    Rules.hasErrors_siteFindings_of_absent hnull
  rw [Schema.value_check_eq_true_iff, hnode, hfound]
  exact and_iff_right rfl

/-- **EVERY CHOICE PASSES ITS OWN CHECK**, as the value that it is written as. -/
theorem Schema.check_toJson (hall : List.Forall₂ (StandsFor type) members literals)
    (hnode : schema.node = .leaf type.primitive { required := required, choices := literals })
    {literal : Literal} (hmem : literal ∈ literals) (hfinite : literal.IsFinite) :
    (schema.check literal.toJson).value = true := by
  obtain ⟨text, hstands⟩ := exists_standsFor_of_mem hall hmem
  obtain ⟨hdatum, hequals⟩ := Literal.equals_toJson hfinite
  exact (Schema.check_literals_iff hall (List.ne_nil_of_mem hmem) hnode hdatum).2
    ⟨literal, hmem, hequals⟩

/-- **CHOICES WITHOUT A TYPE ARE READ AND HOLD.**  A list is read as the type that it shows,
    member by member, unless all its members have the form of a number and some is none.  A
    type with its choices accepts each of them that is finite, and of the values that are
    there those that equal one of them. -/
theorem unhinted_choices_hold {body : Text.Chars} (hlist : IsList body)
    (hdigits : (∀ text ∈ listed body, HasNumberForm text) → ∀ text ∈ listed body, ReadsAsNumber text) :
    ∃ type literals, choicesOf none body = .ok (type, literals)
      ∧ (∀ other, Show (listed body) other ↔ other = type)
      ∧ List.Forall₂ (StandsFor type) (listed body) literals
      ∧ ∀ (schema : Schema) (required : Bool),
          schema.node = .leaf type.primitive { required := required, choices := literals } →
            (∀ literal ∈ literals, literal.IsFinite → (schema.check literal.toJson).value = true)
              ∧ (∀ value : Json, value.IsDatum →
                  ((schema.check value).value = true ↔ ∃ literal ∈ literals, literal.Equals value))
              ∧ ((schema.check .null).value = true ↔ required = false) := by
  obtain ⟨type, literals, hread, hshow, hall⟩ := choicesOf_list hlist hdigits
  have hne : literals ≠ [] := by
    rintro rfl
    have hlength := hall.length_eq ▸ hlist.two_le
    exact absurd hlength (by decide)
  refine ⟨type, literals, hread, hshow, hall, fun schema required hnode => ⟨?_, ?_, ?_⟩⟩
  · intro literal hmem hfinite
    exact Schema.check_toJson hall hnode hmem hfinite
  · intro value hvalue
    exact Schema.check_literals_iff hall hne hnode hvalue
  · exact Schema.check_null_iff hnode

/-- One member is a number in digits of another script, one is a word: both are texts. -/
theorem unhinted_choices_hold_four :
    ∃ literals, choicesOf none "٣ | four".toList = .ok (.string, literals)
      ∧ ∃ schema : Schema, schema.node = .leaf .string { choices := literals }
        ∧ (schema.check (.string "٣")).value = true ∧ ¬(schema.check (.integer 3)).value = true := by
  have hform : ¬∀ text ∈ listed "٣ | four".toList, HasNumberForm text := by decide
  have hlist : IsList "٣ | four".toList := ⟨by decide, by decide⟩
  obtain ⟨type, literals, hread, -, -, haccepts⟩ :=
    unhinted_choices_hold hlist fun h => absurd h hform
  obtain ⟨-, hequals, -⟩ := haccepts ⟨.leaf type.primitive { choices := literals }, {}, none⟩ false rfl
  have hwords : choicesOf none "٣ | four".toList = .ok (.string, [.string "٣", .string "four"]) := by rfl
  obtain ⟨rfl, rfl⟩ := Prod.mk.inj (Except.ok.inj (hread.symm.trans hwords))
  refine ⟨_, hwords, ⟨.leaf .string { choices := [.string "٣", .string "four"] }, {}, none⟩, rfl, ?_, ?_⟩
  · exact (hequals (.string "٣") trivial).2 ⟨_, List.mem_cons_self, .string "٣"⟩
  · intro hcheck
    obtain ⟨literal, hmem, hequal⟩ := (hequals (.integer 3) ⟨by decide, by decide⟩).1 hcheck
    rcases List.mem_cons.1 hmem with rfl | hrest
    · cases hequal
    · obtain rfl := List.mem_singleton.1 hrest
      cases hequal

/-- Integers are read as numbers. -/
theorem choicesOf_integers {choices : List Int} (hlength : 2 ≤ choices.length) :
    choicesOf none (Text.separated '|' (choices.map fun choice => (Numeral.ofInt choice).text))
        = .ok (.number, choices.map fun choice => .number (.ofInt choice))
      ∧ List.Forall₂ (StandsFor .number) (choices.map fun choice => (Numeral.ofInt choice).text)
          (choices.map fun choice => .number (.ofInt choice)) := by
  have hplain : ∀ numeral ∈ choices.map Numeral.ofInt, numeral.IsPlain := by
    intro numeral hmem
    obtain ⟨choice, -, rfl⟩ := List.mem_map.1 hmem
    exact Numeral.isPlain_ofInt choice
  have hwritten : (WrittenChoices.numbers (choices.map Numeral.ofInt)).WellFormed :=
    ⟨(List.length_map Numeral.ofInt).symm ▸ hlength, hplain⟩
  have hread := WrittenChoices.choicesOf_texts_own hwritten trivial
  simp only [WrittenChoices.texts, WrittenChoices.literals, List.map_map, Function.comp_def,
    Numeral.value_ofInt] at hread
  refine ⟨hread, ?_⟩
  rw [List.forall₂_map_left_iff, List.forall₂_map_right_iff, List.forall₂_same]
  intro choice hmem
  rw [← Numeral.value_ofInt]
  exact .number (Numeral.isPlain_ofInt choice)

/-- A power of ten is written as a one and zeros. -/
theorem text_pow_ten (places : Nat) :
    (Numeral.ofInt (10 ^ places)).text = Nat.toDigits 10 (10 ^ places) := by
  have hsize : ((10 : Int) ^ places).natAbs = 10 ^ places := Int.natAbs_pow 10 places
  have hsign : decide ((10 : Int) ^ places < 0) = false :=
    decide_eq_false (Int.not_lt.2 (Int.pow_nonneg (by decide)))
  rw [Numeral.ofInt, hsize, hsign, ← Place.toList_toString]
  exact List.append_nil _

/-- A list of numbers in digits of another script is refused, an integer beyond 53 bits
    passes for the choice that it is rounded to, null passes where nothing is required, and
    a number too long for a double does not pass itself. -/
theorem unhinted_choices_lost :
    (IsList "٣|٤".toList ∧ ∃ fault, choicesOf none "٣|٤".toList = .error fault)
      ∧ (∃ literals, choicesOf none "1|9007199254740992".toList = .ok (.number, literals)
          ∧ (∀ x, .number (.finite x) ∈ literals → x.scaled ≠ 9007199254740993 * (Binary64.unit : Int))
          ∧ ∃ schema : Schema, schema.node = .leaf .number { choices := literals }
            ∧ (schema.check (.integer 9007199254740993)).value = true
            ∧ (schema.check .null).value = true)
      ∧ (∃ literals, choicesOf none ("1|1".toList ++ List.replicate 309 '0') = .ok (.number, literals)
          ∧ ∃ schema : Schema, schema.node = .leaf .number { required := true, choices := literals }
            ∧ ∃ literal ∈ literals, ¬(schema.check literal.toJson).value = true) := by
  -- three texts: digits that are not ASCII, two integers that one double stands for, and a
  -- numeral that no double holds
  refine ⟨⟨⟨by decide, by decide⟩, ⟨_, rfl⟩⟩, ?_, ?_⟩
  · have htwo : 2 ≤ ([1, 9007199254740992] : List Int).length := by decide
    obtain ⟨hread, hall⟩ := choicesOf_integers htwo
    obtain ⟨x, hx, hscaled⟩ := Binary64.exists_ofInt_eq (a := 9007199254740992) (by decide)
    have hround : Binary64.roundInt 9007199254740993 = Binary64.roundInt 9007199254740992 := by
      decide +kernel
    have hequals : (Literal.number (.ofInt 9007199254740992)).Equals (.integer 9007199254740993) := by
      rw [← hround] at hscaled
      rw [hx]
      exact .rounded (by decide) hscaled.symm
    have hdatum : (Json.integer 9007199254740993).IsDatum := ⟨by decide, by decide⟩
    refine ⟨_, hread, ?_, ⟨.leaf .number { choices := _ }, {}, none⟩, rfl, ?_, ?_⟩
    · intro y hmem hlarger
      obtain ⟨choice, hchoice, hy⟩ := List.mem_map.1 hmem
      have hall : ∀ choice ∈ [1, 9007199254740992],
          choice.natAbs ≤ 2 ^ 53 ∧ choice ≠ (9007199254740993 : Int) := by decide
      have hsmall := hall choice hchoice
      refine hsmall.2 (Int.eq_of_mul_eq_mul_right (Int.natCast_ne_zero.2 Binary64.unit_pos.ne') ?_)
      rw [← hlarger, Binary64.scaled_of_ofInt hsmall.1 (Literal.number.inj hy)]
    · refine (Schema.check_literals_iff hall (List.cons_ne_nil _ _) rfl hdatum).2 ?_
      exact ⟨_, List.mem_cons_of_mem _ List.mem_cons_self, hequals⟩
    · exact (@Schema.check_null_iff _ .number _ _ rfl).2 rfl
  · have htwo : 2 ≤ ([1, 10 ^ 309] : List Int).length := by decide
    obtain ⟨hread, hall⟩ := choicesOf_integers htwo
    have hbody : "1|1".toList ++ List.replicate 309 '0'
        = Text.separated '|' ([1, 10 ^ 309].map fun choice => (Numeral.ofInt choice).text) := by
      have hdigits : Nat.toDigits 10 (10 ^ 309) = '1' :: List.replicate 309 '0' := by decide +kernel
      rw [List.map_cons, List.map_cons, List.map_nil, text_pow_ten, hdigits]
      rfl
    rw [hbody]
    refine ⟨_, hread, ⟨.leaf .number { required := true, choices := _ }, {}, none⟩, rfl,
      .number (.ofInt (10 ^ 309)), List.mem_cons_of_mem _ List.mem_cons_self, ?_⟩
    have hinfinite : Binary64.ofInt (10 ^ 309) = .infinite false := by decide +kernel
    rw [hinfinite]
    show ¬(Schema.check _ .null).value = true
    rw [@Schema.check_null_iff _ .number _ _ rfl]
    exact Bool.true_eq_false_eq_False

end

end Conform
