import Conform.Proofs.Bounding
import Conform.Proofs.Places

/-! # Comparing — clauses and choices on integers compare what integers are rounded to

    The bounds of a clause on numbers, the choices of a list and the integers that are
    checked are all rounded to doubles before they are compared.  So what is accepted is
    in the relation that is written, but of the rounded integers (`comparesRounded_clause`,
    `comparesRounded_choices`).  Rounding keeps the order; all that it can do is to let two
    integers fall together, and only if both have more than 53 bits
    (`Binary64.keepsApart_of`).  Elsewhere the relation is that of the integers
    themselves. -/

namespace Conform

open Binary64 (roundInt)

/-- Whether the integer is one of 64 bits with a sign. -/
def IsSigned64 (n : Int) : Prop := -2 ^ 63 ≤ n ∧ n < 2 ^ 63

instance (n : Int) : Decidable (IsSigned64 n) := inferInstanceAs (Decidable (_ ∧ _))

theorem IsSigned64.natAbs_le {n : Int} (h : IsSigned64 n) : n.natAbs ≤ 2 ^ 64 := by
  obtain ⟨hlow, hhigh⟩ := h
  omega

/-! ## Integers as they are written -/

namespace Dsl

open Conform.Text

/-- A natural number is written in digits. -/
theorem isDigit_of_mem_toString {n : Nat} : ∀ c ∈ (toString n).toList, isDigit c = true := by
  intro c hc
  rw [Place.toList_toString] at hc
  have hdigit := Nat.isDigit_of_mem_toDigits (by decide) (by decide) hc
  rw [Char.isDigit, Bool.and_eq_true, decide_eq_true_eq, decide_eq_true_eq] at hdigit
  rw [isDigit, Bool.and_eq_true, Nat.ble_eq, Nat.ble_eq]
  exact ⟨UInt32.le_iff_toNat_le.1 hdigit.1, UInt32.le_iff_toNat_le.1 hdigit.2⟩

/-- The digits that a natural number is written in are those of the number. -/
theorem digitsValue_toString (n : Nat) : digitsValue (toString n).toList = n := by
  rw [Place.toList_toString]
  exact Nat.ofDigitChars_toDigits (by decide) (by decide)

namespace Numeral

/-- The integer as a numeral. -/
def ofInt (n : Int) : Numeral := ⟨decide (n < 0), (toString n.natAbs).toList, none⟩

variable (n : Int)

/-- The numeral of an integer is written like the integer. -/
theorem text_ofInt : (ofInt n).text = (toString n).toList := by
  cases n with
  | ofNat n =>
      show [] ++ (toString n).toList ++ [] = (toString n).toList
      rw [List.nil_append, List.append_nil]
  | negSucc n =>
      have hsign : decide (Int.negSucc n < 0) = true := decide_eq_true (Int.negSucc_lt_zero n)
      unfold ofInt
      rw [hsign]
      show ['-'] ++ (toString (n + 1)).toList ++ [] = ("-" ++ toString (n + 1)).toList
      rw [List.append_nil, String.toList_append]
      rfl

/-- The numeral of an integer is plain. -/
theorem isPlain_ofInt : (ofInt n).IsPlain := by
  refine ⟨?_, isDigit_of_mem_toString, nofun, nofun⟩
  show (toString n.natAbs).toList ≠ []
  rw [Place.toList_toString]
  exact Nat.toDigits_ne_nil

/-- The numeral of an integer denotes the double nearest to the integer. -/
theorem value_ofInt : (ofInt n).value = .ofInt n := by
  unfold ofInt
  rw [value_whole, digitsValue_toString]
  rfl

end Numeral

end Dsl

/-! ## What rounding keeps -/

namespace Binary64

/-- Whether rounding keeps the two integers apart, unless they are one. -/
def KeepsApart (a b : Int) : Prop := roundInt a = roundInt b → a = b

/-- An integer of less than 53 bits is kept apart from all others. -/
theorem keepsApart_of {a b : Int} (h : a.natAbs < 2 ^ 53 ∨ b.natAbs < 2 ^ 53 ∨ KeepsApart a b) :
    KeepsApart a b := by
  intro hround
  rcases h with ha | hb | happart
  · exact (eq_of_roundInt_eq hround).resolve_right fun hlarge => Nat.not_le_of_lt ha hlarge.1
  · exact (eq_of_roundInt_eq hround).resolve_right fun hlarge => Nat.not_le_of_lt hb hlarge.2
  · exact happart hround

end Binary64

namespace Dsl

variable {x n : Int}

/-- Integers of 64 bits compare as doubles as their roundings do. -/
theorem comparesAs_roundInt (hx : x.natAbs ≤ 2 ^ 64) (hn : n.natAbs ≤ 2 ^ 64) :
    ComparesAs (.ofInt x) (.ofInt n) (roundInt x) (roundInt n) :=
  ⟨Binary64.isNan_ofScaled _ _ _, Binary64.isNan_ofScaled _ _ _, Binary64.lt_ofInt_iff hx hn,
    Binary64.lt_ofInt_iff hn hx⟩

/-- Integers that rounding keeps apart compare as doubles as they are. -/
theorem comparesAs_of_keepsApart (hx : x.natAbs ≤ 2 ^ 64) (hn : n.natAbs ≤ 2 ^ 64)
    (happart : Binary64.KeepsApart n x) : ComparesAs (.ofInt x) (.ofInt n) x n := by
  -- rounding keeps the order, so it could only have let the two fall together
  have hround {a b : Int} (hne : roundInt a = roundInt b → a = b) : roundInt a < roundInt b ↔ a < b := by
    constructor
    · intro hlt
      exact lt_of_not_ge fun hle => absurd (Binary64.roundInt_mono hle) (not_le_of_gt hlt)
    · intro hlt
      exact lt_of_le_of_ne (Binary64.roundInt_mono (le_of_lt hlt)) fun heq => absurd (hne heq) (ne_of_lt hlt)
  obtain ⟨hmeasured, hbound, hbelow, habove⟩ := comparesAs_roundInt hx hn
  exact ⟨hmeasured, hbound, hbelow.trans (hround fun heq => (happart heq.symm).symm),
    habove.trans (hround happart)⟩

end Dsl

/-! ## Clauses -/

/-- The text compiles, and a schema of what it compiles to accepts the integers of 64 bits
    that are in the relation once all is rounded.  An integer that rounding keeps apart
    from the bounds is accepted exactly if it is in the relation itself. -/
def ComparesRounded (source : String) (bounds : List Int) (relation : (Int → Int) → Int → Prop) : Prop :=
  ∃ node, Compiler.compiled (.text source) = .ok node
    ∧ ∀ schema : Schema, schema.node = node → ∀ x : Int, -2 ^ 63 ≤ x → x < 2 ^ 64 →
      ((schema.check (.integer x)).value = true ↔ relation roundInt x)
        ∧ ((∀ bound ∈ bounds, bound.natAbs < 2 ^ 53 ∨ x.natAbs < 2 ^ 53 ∨ Binary64.KeepsApart bound x) →
            ((schema.check (.integer x)).value = true ↔ relation id x))

/-- It is enough that what is accepted is in the relation of any numbers that compare as the
    doubles do: the rounded integers are such, and so are those that rounding keeps apart. -/
theorem ComparesRounded.of_comparesAs {source : String} {bounds : List Int}
    {relation : (Int → Int) → Int → Prop} {node : Node} (hsigned : ∀ bound ∈ bounds, IsSigned64 bound)
    (hcompiled : Compiler.compiled (.text source) = .ok node)
    (haccepts : ∀ schema : Schema, schema.node = node → ∀ (x : Int) (value : Int → Int),
      (∀ bound ∈ bounds, Dsl.ComparesAs (.ofInt x) (.ofInt bound) (value x) (value bound)) →
        ((schema.check (.integer x)).value = true ↔ relation value x)) :
    ComparesRounded source bounds relation := by
  refine ⟨node, hcompiled, fun schema hnode x hlow hhigh => ?_⟩
  have hx : x.natAbs ≤ 2 ^ 64 := by omega
  constructor
  · refine haccepts schema hnode x roundInt fun bound hmem => ?_
    exact Dsl.comparesAs_roundInt hx (hsigned bound hmem).natAbs_le
  · intro happart
    refine haccepts schema hnode x id fun bound hmem => ?_
    exact Dsl.comparesAs_of_keepsApart hx (hsigned bound hmem).natAbs_le
      (Binary64.keepsApart_of (happart bound hmem))

/-- Where the rounded relation is not the one that is meant, neither is what is accepted. -/
theorem ComparesRounded.exists_ne {source : String} {bounds : List Int}
    {relation : (Int → Int) → Int → Prop} (h : ComparesRounded source bounds relation) {x : Int}
    (hlow : -2 ^ 63 ≤ x) (hhigh : x < 2 ^ 64) {meant : Prop} (hne : ¬(relation roundInt x ↔ meant)) :
    ∃ schema : Schema, Compiler.compiled (.text source) = .ok schema.node
      ∧ ¬((schema.check (.integer x)).value = true ↔ meant) := by
  obtain ⟨node, hcompiled, haccepts⟩ := h
  refine ⟨⟨node, {}, none⟩, hcompiled, fun hmeant => hne ?_⟩
  exact (haccepts ⟨node, {}, none⟩ rfl x hlow hhigh).1.symm.trans hmeant

/-- Whether the type is that of numbers or of integers. -/
def Dsl.TypeName.IsNumeric (name : Dsl.TypeName) : Prop :=
  name.base = .primitive .number ∨ name.base = .primitive .integer

/-- Whether the clause is read: a range is not empty, and a bare greatest value has no
    sign. -/
def Dsl.ClauseForm.IsReadable : Dsl.ClauseForm Int → Prop
  | .between least most => least ≤ most
  | .greatest most => 0 ≤ most
  | _ => True

section

variable {name : Dsl.TypeName}

/-- Every integer has a numeric type, and no format is asked of it. -/
theorem Dsl.TypeName.IsNumeric.fits (h : name.IsNumeric) (x : Int) :
    name.base.fits (.integer x) = true ∧ OwnFault.ofFormat? name.base (.integer x) = none := by
  rcases h with hbase | hbase <;>
    · rw [hbase]
      exact ⟨rfl, rfl⟩

theorem Dsl.TypeName.IsNumeric.measure? (h : name.IsNumeric) : name.base.measure? = some .value := by
  rcases h with hbase | hbase <;>
    · rw [hbase]
      rfl

/-- A clause of integers is well formed. -/
theorem Dsl.ClauseForm.suits_ofInt {form : Dsl.ClauseForm Int} (hform : form.IsReadable)
    (hbounds : ∀ bound ∈ form.bounds, IsSigned64 bound) :
    (form.map Dsl.Numeral.ofInt).written.Suits .value := by
  have hplain (n : Int) : (Dsl.Numeral.ofInt n).Bounds .value :=
    ⟨Dsl.Numeral.isPlain_ofInt n, fun hmeasure => absurd rfl hmeasure⟩
  cases form with
  | compared comparison bound => exact ⟨hplain bound, fun _ hmeasure => absurd rfl hmeasure⟩
  | between least most =>
      have hleast := (hbounds least List.mem_cons_self).natAbs_le
      have hmost := (hbounds most (List.mem_cons_of_mem _ List.mem_cons_self)).natAbs_le
      refine ⟨hplain least, hplain most, ?_⟩
      rw [Dsl.Numeral.value_ofInt, Dsl.Numeral.value_ofInt]
      refine Binary64.le_of_not_lt (Binary64.isNan_ofScaled _ _ _) (Binary64.isNan_ofScaled _ _ _) ?_
      rw [(Dsl.comparesAs_roundInt hmost hleast).not_below]
      exact Binary64.roundInt_mono hform
  | onward least => exact hplain least
  | upward most => exact hplain most
  | greatest most => exact ⟨hplain most, decide_eq_false (Int.not_lt.2 hform)⟩

/-- **A CLAUSE ON NUMBERS COMPARES ROUNDED INTEGERS.** -/
theorem comparesRounded_clause (hname : name.IsNumeric) {form : Dsl.ClauseForm Int}
    (hform : form.IsReadable) (hbounds : ∀ bound ∈ form.bounds, IsSigned64 bound) :
    ComparesRounded (name.boundedText (form.map Dsl.Numeral.ofInt).written) form.bounds
      fun round x => (form.map round).Holds (round x) := by
  have hsuits := Dsl.ClauseForm.suits_ofInt hform hbounds
  have hcompiled := (Compiler.compiled_bounded_iff hname.measure? hsuits.isPlain).2 ⟨hsuits, rfl⟩
  refine .of_comparesAs hbounds hcompiled fun schema hnode x value hcompares => ?_
  obtain ⟨hfits, hformat⟩ := hname.fits x
  rw [Schema.check_bounded_iff hnode rfl hformat hname.measure? rfl, and_iff_right hfits]
  -- equality of numbers is not an exact count
  refine Dsl.ClauseForm.check_written (fun bound hmem => ?_) fun hmeasure => absurd rfl hmeasure
  rw [Dsl.Numeral.value_ofInt]
  exact hcompares bound hmem

end

/-! ## Choices -/

namespace Dsl

open Conform.Text (separated)

/-- The text of choices of integers. -/
def integersText (choices : List Int) : String :=
  "integer:" ++ String.ofList (separated '|' (choices.map fun choice => (toString choice).toList))

theorem integer_mem_builtin : ("integer", .primitive .integer) ∈ BaseType.builtin := by decide

/-- Choices of integers as a phrase. -/
def integersPhrase (choices : List Int) : Phrase :=
  .listed false (.typed ⟨"integer", .primitive .integer, integer_mem_builtin⟩)
    (.numbers (choices.map Numeral.ofInt))

/-- How a listing of integers is written. -/
theorem text_integersPhrase (choices : List Int) :
    String.ofList (integersPhrase choices).text = integersText choices := by
  have hbody : (integersPhrase choices).text
      = "integer:".toList ++ separated '|' ((choices.map Numeral.ofInt).map Numeral.text) :=
    Phrase.text_of_mark_eq_false rfl
  have htexts : (choices.map Numeral.ofInt).map Numeral.text
      = choices.map fun choice => (toString choice).toList := by
    rw [List.map_map]
    exact List.map_congr_left fun choice _ => Numeral.text_ofInt choice
  rw [hbody, htexts, String.ofList_append, String.ofList_toList]
  rfl

/-- The tree of a listing holds the nearest doubles. -/
theorem node_integersPhrase (choices : List Int) :
    (integersPhrase choices).node
      = nodeOf (.primitive .integer) { choices := choices.map fun choice => .number (.ofInt choice) } := by
  have hliterals : (choices.map Numeral.ofInt).map (fun numeral => Literal.number numeral.value)
      = choices.map fun choice => .number (.ofInt choice) := by
    rw [List.map_map]
    exact List.map_congr_left fun choice _ => congrArg Literal.number (Numeral.value_ofInt choice)
  rw [← hliterals]
  rfl

end Dsl

section

variable {choices : List Int} (hlength : 2 ≤ choices.length) (hsigned : ∀ choice ∈ choices, IsSigned64 choice)
include hlength hsigned

/-- A listing of two integers or more is well formed. -/
theorem Dsl.wellFormed_integersPhrase : (Dsl.integersPhrase choices).WellFormed := by
  refine ⟨⟨?_, ?_⟩, .integer, rfl, ?_⟩
  · rwa [List.length_map]
  · intro numeral hmem
    obtain ⟨choice, -, rfl⟩ := List.mem_map.1 hmem
    exact Dsl.Numeral.isPlain_ofInt choice
  · intro numeral hmem
    obtain ⟨choice, hchoice, rfl⟩ := List.mem_map.1 hmem
    rw [Dsl.Numeral.value_ofInt]
    exact Binary64.isIntegral_ofInt (hsigned choice hchoice).natAbs_le

/-- Choices of integers compile to the doubles of the integers. -/
theorem Compiler.compiled_integersText :
    compiled (.text (Dsl.integersText choices))
      = .ok (Dsl.nodeOf (.primitive .integer) { choices := choices.map fun choice => .number (.ofInt choice) }) := by
  rw [← Dsl.text_integersPhrase, ← Dsl.node_integersPhrase]
  exact compiled_text_iff.2 (Dsl.Phrase.denotesAlone _ (Dsl.wellFormed_integersPhrase hlength hsigned))

/-- **CHOICES OF INTEGERS COMPARE ROUNDED INTEGERS.** -/
theorem comparesRounded_choices :
    ComparesRounded (Dsl.integersText choices) choices
      fun round x => ∃ choice ∈ choices, round x = round choice := by
  refine .of_comparesAs hsigned (Compiler.compiled_integersText hlength hsigned) ?_
  intro schema hnode x value hcompares
  have hne : choices.map (fun choice => Literal.number (.ofInt choice)) ≠ [] := by
    intro hnil
    rw [List.map_eq_nil_iff.1 hnil] at hlength
    exact absurd hlength (by decide)
  have hmember : (∃ literal ∈ choices.map (fun choice => Literal.number (.ofInt choice)),
      literal.accepts (.integer x) = true)
        ↔ ∃ choice ∈ choices, Binary64.eq (.ofInt x) (.ofInt choice) = true := by
    simp only [List.mem_map, exists_exists_and_eq_and]
    rfl
  have hfits : (BaseType.primitive .integer).fits (.integer x) = true := rfl
  rw [Schema.check_choices_iff hne hnode rfl rfl, and_iff_right hfits, hmember]
  exact exists_congr fun choice => and_congr_right fun hchoice => (hcompares choice hchoice).eq

end

/-! ## Texts of clauses on integers -/

section

open Dsl (Numeral)
open Dsl.ClauseForm (map)

variable {name : Dsl.TypeName}

/-- How a range of integers is written after a type. -/
theorem Dsl.TypeName.boundedText_between (name : Dsl.TypeName) (low high : Int) :
    name.boundedText (map Numeral.ofInt (.between low high)).written
      = name.text ++ ":" ++ toString low ++ "-" ++ toString high := by
  show name.text ++ ":" ++ String.ofList ((Numeral.ofInt low).text ++ '-' :: (Numeral.ofInt high).text) = _
  rw [Numeral.text_ofInt, Numeral.text_ofInt, List.append_cons, String.ofList_append,
    String.ofList_append, String.ofList_toList, String.ofList_toList, ← String.append_assoc,
    ← String.append_assoc]

theorem Dsl.TypeName.boundedText_compared (name : Dsl.TypeName) (comparison : Dsl.Comparison) (bound : Int) :
    name.boundedText (map Numeral.ofInt (.compared comparison bound)).written
      = name.text ++ ":" ++ String.ofList comparison.text ++ toString bound := by
  show name.text ++ ":" ++ String.ofList (comparison.text ++ (Numeral.ofInt bound).text) = _
  rw [Numeral.text_ofInt, String.ofList_append, String.ofList_toList, ← String.append_assoc]

/-- **A RANGE COMPARES ROUNDED INTEGERS**, both ends and the value. -/
theorem comparesRounded_between (hname : name.IsNumeric) {low high : Int} (hlow : IsSigned64 low)
    (hhigh : IsSigned64 high) (h : low ≤ high) :
    ComparesRounded (name.text ++ ":" ++ toString low ++ "-" ++ toString high) [low, high]
      fun round x => round low ≤ round x ∧ round x ≤ round high := by
  have hform : Dsl.ClauseForm.IsReadable (.between low high) := h
  have hbounds : ∀ bound ∈ [low, high], IsSigned64 bound :=
    List.forall_mem_cons.2 ⟨hlow, List.forall_mem_singleton.2 hhigh⟩
  rw [← name.boundedText_between]
  exact comparesRounded_clause hname hform hbounds

/-- **A COMPARISON COMPARES ROUNDED INTEGERS**, the bound and the value. -/
theorem comparesRounded_compared (hname : name.IsNumeric) (comparison : Dsl.Comparison) {bound : Int}
    (hbound : IsSigned64 bound) :
    ComparesRounded (name.text ++ ":" ++ String.ofList comparison.text ++ toString bound) [bound]
      fun round x => comparison.Holds (round x) (round bound) := by
  have hform : Dsl.ClauseForm.IsReadable (.compared comparison bound) := trivial
  rw [← name.boundedText_compared]
  exact comparesRounded_clause hname hform (List.forall_mem_singleton.2 hbound)

end

/-! ## Integers that are checked -/

/-- **INTEGERS ARE COMPARED AS THEY ARE ROUNDED**, by ranges, by operators and by choices. -/
theorem integers_compare_rounded :
    (∀ name : Dsl.TypeName, name.IsNumeric → ∀ low high : Int, IsSigned64 low → IsSigned64 high →
        low ≤ high →
          ComparesRounded (name.text ++ ":" ++ toString low ++ "-" ++ toString high) [low, high]
            fun round x => round low ≤ round x ∧ round x ≤ round high)
      ∧ (∀ name : Dsl.TypeName, name.IsNumeric → ∀ (comparison : Dsl.Comparison) (bound : Int),
          IsSigned64 bound →
            ComparesRounded (name.text ++ ":" ++ String.ofList comparison.text ++ toString bound) [bound]
              fun round x => comparison.Holds (round x) (round bound))
      ∧ (∀ choices : List Int, 2 ≤ choices.length → (∀ choice ∈ choices, IsSigned64 choice) →
          ComparesRounded (Dsl.integersText choices) choices
            fun round x => ∃ choice ∈ choices, round x = round choice) := by
  refine ⟨?_, ?_, ?_⟩
  · intro name hname low high hlow hhigh h
    exact comparesRounded_between hname hlow hhigh h
  · intro name hname comparison bound hbound
    exact comparesRounded_compared hname comparison hbound
  · intro choices hlength hsigned
    exact comparesRounded_choices hlength hsigned

/-- A range, an operator and a list of choices on both sides of 53 bits. -/
theorem integers_compare_rounded_past_53_bits :
    (∃ schema : Schema, Compiler.compiled (.text "number:-5-9007199254740993") = .ok schema.node
        ∧ (schema.check (.integer (-5))).value = true
        ∧ ¬(schema.check (.integer 9007199254740994)).value = true)
      ∧ (∃ schema : Schema, Compiler.compiled (.text "integer:>9007199254740991") = .ok schema.node
          ∧ (schema.check (.integer 9007199254740993)).value = true)
      ∧ (∃ schema : Schema, Compiler.compiled (.text "integer:7|9007199254740993") = .ok schema.node
          ∧ (schema.check (.integer 7)).value = true) := by
  obtain ⟨hranges, hoperators, hchoices⟩ := integers_compare_rounded
  refine ⟨?_, ?_, ?_⟩
  · obtain ⟨node, hcompiled, haccepts⟩ := hranges ⟨"number", .primitive .number, by decide⟩ (.inl rfl)
      (-5) 9007199254740993 (by decide) (by decide) (by decide)
    refine ⟨⟨node, {}, none⟩, hcompiled, ?_, ?_⟩
    · exact (haccepts ⟨node, {}, none⟩ rfl (-5) (by decide) (by decide)).1.2 (by decide +kernel)
    · intro hcheck
      have hround := (haccepts ⟨node, {}, none⟩ rfl _ (by decide) (by decide)).1.1 hcheck
      exact absurd hround (by decide +kernel)
  · obtain ⟨node, hcompiled, haccepts⟩ := hoperators ⟨"integer", .primitive .integer, by decide⟩ (.inr rfl)
      .above 9007199254740991 (by decide)
    refine ⟨⟨node, {}, none⟩, hcompiled, ?_⟩
    -- the bound has 53 bits, so nothing falls together with it
    refine ((haccepts ⟨node, {}, none⟩ rfl _ (by decide) (by decide)).2 ?_).2 (by decide)
    exact List.forall_mem_singleton.2 (.inl (by decide))
  · obtain ⟨node, hcompiled, haccepts⟩ := hchoices [7, 9007199254740993] (by decide) (by decide)
    refine ⟨⟨node, {}, none⟩, hcompiled, ?_⟩
    refine ((haccepts ⟨node, {}, none⟩ rfl 7 (by decide) (by decide)).2 ?_).2 ⟨7, by decide, rfl⟩
    exact fun bound _ => .inr (.inl (by decide))

/-- Two integers past 53 bits that are rounded to one fall together in a range, for each of
    the operators, and in a list of choices. -/
theorem large_integers_fall_together :
    (∃ schema : Schema,
        Compiler.compiled (.text "number:9007199254740993-9007199254740994") = .ok schema.node
          ∧ ¬((schema.check (.integer 9007199254740992)).value = true
            ↔ (9007199254740993 : Int) ≤ 9007199254740992 ∧ (9007199254740992 : Int) ≤ 9007199254740994))
      ∧ (∃ schema : Schema, Compiler.compiled (.text "integer:>9007199254740992") = .ok schema.node
          ∧ ¬((schema.check (.integer 9007199254740993)).value = true
            ↔ (9007199254740992 : Int) < 9007199254740993))
      ∧ (∃ schema : Schema, Compiler.compiled (.text "integer:>=9007199254740993") = .ok schema.node
          ∧ ¬((schema.check (.integer 9007199254740992)).value = true
            ↔ (9007199254740993 : Int) ≤ 9007199254740992))
      ∧ (∃ schema : Schema, Compiler.compiled (.text "integer:<9007199254740993") = .ok schema.node
          ∧ ¬((schema.check (.integer 9007199254740992)).value = true
            ↔ (9007199254740992 : Int) < 9007199254740993))
      ∧ (∃ schema : Schema, Compiler.compiled (.text "integer:<=9007199254740992") = .ok schema.node
          ∧ ¬((schema.check (.integer 9007199254740993)).value = true
            ↔ (9007199254740993 : Int) ≤ 9007199254740992))
      ∧ (∃ schema : Schema, Compiler.compiled (.text "integer:=9007199254740993") = .ok schema.node
          ∧ ¬((schema.check (.integer 9007199254740992)).value = true
            ↔ (9007199254740992 : Int) = 9007199254740993))
      ∧ (∃ schema : Schema, Compiler.compiled (.text "integer:0|9007199254740993") = .ok schema.node
          ∧ ¬((schema.check (.integer 9007199254740992)).value = true
            ↔ (9007199254740992 : Int) ∈ [0, 9007199254740993])) := by
  have hsmaller : IsSigned64 9007199254740992 := by decide
  have hlarger : IsSigned64 9007199254740993 := by decide
  have hlargest : IsSigned64 9007199254740994 := by decide
  have hlisted : ∀ choice ∈ [0, 9007199254740993], IsSigned64 choice :=
    List.forall_mem_cons.2 ⟨by decide, List.forall_mem_singleton.2 hlarger⟩
  have hnumber : Dsl.TypeName.IsNumeric ⟨"number", .primitive .number, by decide⟩ := .inl rfl
  have hinteger : Dsl.TypeName.IsNumeric ⟨"integer", .primitive .integer, by decide⟩ := .inr rfl
  -- each form compares nearest doubles, and 2^53 and 2^53 + 1 have the same one
  refine ⟨?_, ?_, ?_, ?_, ?_, ?_, ?_⟩
  · exact (comparesRounded_between hnumber hlarger hlargest (by decide)).exists_ne
      hsmaller.1 (by decide) (by decide +kernel)
  · exact (comparesRounded_compared hinteger .above hsmaller).exists_ne
      hlarger.1 (by decide) (by decide +kernel)
  · exact (comparesRounded_compared hinteger .atLeast hlarger).exists_ne
      hsmaller.1 (by decide) (by decide +kernel)
  · exact (comparesRounded_compared hinteger .below hlarger).exists_ne
      hsmaller.1 (by decide) (by decide +kernel)
  · exact (comparesRounded_compared hinteger .atMost hsmaller).exists_ne
      hlarger.1 (by decide) (by decide +kernel)
  · exact (comparesRounded_compared hinteger .equal hlarger).exists_ne
      hsmaller.1 (by decide) (by decide +kernel)
  · exact (comparesRounded_choices (by decide) hlisted).exists_ne
      hsmaller.1 (by decide) (by decide +kernel)

end Conform
