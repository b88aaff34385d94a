import Conform.Dsl.Clause
import Conform.Proofs.Numerals

/-! # Clauses as they are written

    A clause is written as a comparison, as a range that lacks at most one end, or
    as a bare greatest value.  Each way of writing denotes a clause, and reading
    gives it back (`clauseOf_text`), if the numerals are bounds of the measure: a
    count is bounded by whole numbers that are not negative.  A dash is a sign or a
    separator; which of both is settled by what stands before it. -/

namespace Conform.Dsl

open Conform.Text

/-- The operator as it is written. -/
def Comparison.text : Comparison → Chars
  | .atLeast => ['>', '=']
  | .atMost => ['<', '=']
  | .above => ['>']
  | .below => ['<']
  | .equal => ['=']

/-- A clause as it is written: a comparison; a range with both ends, with a lower or
    with an upper end; or a greatest value. -/
inductive WrittenClause where
  | compared (comparison : Comparison) (bound : Numeral)
  | between (least most : Numeral)
  | onward (least : Numeral)
  | upward (most : Numeral)
  | greatest (most : Numeral)

/-- Whether the numeral bounds the measure. -/
structure Numeral.Bounds (measure : Measure) (numeral : Numeral) : Prop where
  plain : numeral.IsPlain
  count : measure ≠ .value →
    Binary64.lt numeral.value .zero = false ∧ numeral.value.isIntegral = true

namespace WrittenClause

/-- The text of the clause. -/
def text : WrittenClause → Chars
  | .compared comparison bound => comparison.text ++ bound.text
  | .between least most => least.text ++ '-' :: most.text
  | .onward least => least.text ++ ['-']
  | .upward most => '-' :: most.text
  | .greatest most => most.text

/-- The clause that is meant. -/
def clause (measure : Measure) : WrittenClause → Clause
  | .compared .atLeast bound => .atLeast bound.value
  | .compared .atMost bound => .atMost bound.value
  | .compared .above bound => .above bound.value
  | .compared .below bound => .below bound.value
  | .compared .equal bound =>
      if measure = .value then .equalTo bound.value else .exactly bound.value.toUnsigned64
  | .between least most => .range (some least.value) (some most.value)
  | .onward least => .range (some least.value) none
  | .upward most => .range none (some most.value)
  | .greatest most => .range none (some most.value)

/-- Whether the clause is well formed for the measure: the numerals bound it, no count
    is below zero, the ends of a range are in order, and a bare greatest value has
    no sign. -/
def Suits (measure : Measure) : WrittenClause → Prop
  | .compared comparison bound =>
      bound.Bounds measure
        ∧ (comparison = .below → measure ≠ .value → Binary64.eq bound.value .zero = false)
  | .between least most =>
      least.Bounds measure ∧ most.Bounds measure ∧ Binary64.le least.value most.value = true
  | .onward least => least.Bounds measure
  | .upward most => most.Bounds measure
  | .greatest most => most.Bounds measure ∧ most.negative = false

/-- Whether the text can be read back: the numerals are plain, and a bare greatest
    value has no sign. -/
def IsPlain : WrittenClause → Prop
  | .compared _ bound => bound.IsPlain
  | .between least most => least.IsPlain ∧ most.IsPlain
  | .onward least => least.IsPlain
  | .upward most => most.IsPlain
  | .greatest most => most.IsPlain ∧ most.negative = false

/-- A clause that suits a measure is plain. -/
theorem Suits.isPlain {measure : Measure} {written : WrittenClause} (h : written.Suits measure) :
    written.IsPlain := by
  cases written with
  | compared comparison bound => exact h.1.plain
  | between least most => exact ⟨h.1.plain, h.2.1.plain⟩
  | onward least => exact Numeral.Bounds.plain h
  | upward most => exact Numeral.Bounds.plain h
  | greatest most => exact ⟨h.1.plain, h.2⟩

end WrittenClause

/-! ## Bounds -/

namespace Numeral

variable {measure : Measure} {numeral : Numeral}

/-- A numeral that can bound what is measured is read as its value. -/
theorem bound_eq (h : numeral.Bounds measure) : numeral.bound measure = .ok numeral.value := by
  unfold bound
  rw [toBinary64?_of_isPlain h.plain]
  refine if_neg ?_
  rintro ⟨hm, hbad⟩
  obtain ⟨hlt, hintegral⟩ := h.count hm
  rw [hlt, hintegral] at hbad
  exact nomatch hbad

/-- The text after the hyphen of a range is its upper end. -/
theorem upperEnd?_text (h : numeral.IsPlain) : upperEnd? numeral.text = some (some numeral) := by
  have hread := numeral?_text h
  unfold upperEnd?
  split
  · next hnil => exact absurd hnil (text_ne_nil h)
  · rw [hread]
    rfl

end Numeral

/-! ## Reading -/

/-- No operator starts with a dash or a digit. -/
theorem readComparison?_eq_none {c : Char} (more : Chars) (h : c = '-' ∨ isDigit c = true) :
    readComparison? (c :: more) = none := by
  have hc : c ≠ '>' ∧ c ≠ '<' ∧ c ≠ '=' := by
    refine ⟨?_, ?_, ?_⟩ <;>
      · rintro rfl
        exact absurd h (by decide)
  unfold readComparison?
  split
  · next heq => exact absurd (List.cons.inj heq).1 hc.1
  · next heq => exact absurd (List.cons.inj heq).1 hc.2.1
  · next heq => exact absurd (List.cons.inj heq).1 hc.1
  · next heq => exact absurd (List.cons.inj heq).1 hc.2.1
  · next heq => exact absurd (List.cons.inj heq).1 hc.2.2
  · rfl

namespace Numeral

variable {numeral : Numeral}

/-- A plain numeral starts with a dash or a digit. -/
theorem exists_text_eq_cons (h : numeral.IsPlain) :
    ∃ c more, numeral.text = c :: more ∧ (c = '-' ∨ isDigit c = true) := by
  obtain ⟨c, more, hc, hdigit⟩ := exists_unsigned_eq_cons h
  rw [text_eq, hc]
  cases numeral.negative with
  | true => exact ⟨'-', c :: more, rfl, Or.inl rfl⟩
  | false => exact ⟨c, more, rfl, Or.inr hdigit⟩

/-- An operator ends where the numeral begins. -/
theorem readComparison?_text (h : numeral.IsPlain) (comparison : Comparison) :
    readComparison? (comparison.text ++ numeral.text) = some (comparison, numeral.text) := by
  obtain ⟨c, more, hc, hstart⟩ := exists_text_eq_cons h
  -- so a bracket is not taken for the first half of a longer operator
  have hne : c ≠ '=' := by
    rintro rfl
    exact absurd hstart (by decide)
  rw [hc]
  cases comparison with
  | atLeast => rfl
  | atMost => rfl
  | equal => rfl
  | above =>
      show readComparison? ('>' :: c :: more) = _
      unfold readComparison?
      split
      · next heq => exact absurd (List.cons.inj (List.cons.inj heq).2).1 hne
      · next heq => exact absurd (List.cons.inj heq).1 (by decide)
      · next heq => rw [(List.cons.inj heq).2]
      · next heq => exact absurd (List.cons.inj heq).1 (by decide)
      · next heq => exact absurd (List.cons.inj heq).1 (by decide)
      · next _ _ hno _ _ => exact (hno (c :: more) rfl).elim
  | below =>
      show readComparison? ('<' :: c :: more) = _
      unfold readComparison?
      split
      · next heq => exact absurd (List.cons.inj heq).1 (by decide)
      · next heq => exact absurd (List.cons.inj (List.cons.inj heq).2).1 hne
      · next heq => exact absurd (List.cons.inj heq).1 (by decide)
      · next heq => rw [(List.cons.inj heq).2]
      · next heq => exact absurd (List.cons.inj heq).1 (by decide)
      · next _ _ _ hno _ => exact (hno (c :: more) rfl).elim

end Numeral

/-! ## Ends of ranges -/

section

variable {least most : Numeral}

/-- A range with both ends is read as them. -/
theorem ends?_between (hleast : least.IsPlain) (hmost : most.IsPlain) :
    ends? (least.text ++ '-' :: most.text) = some (some least, some most) := by
  unfold ends?
  rw [Numeral.readNumeral?_append hleast rfl]
  show (upperEnd? most.text).map _ = _
  rw [Numeral.upperEnd?_text hmost]
  rfl

theorem ends?_onward (hleast : least.IsPlain) :
    ends? (least.text ++ ['-']) = some (some least, none) := by
  unfold ends?
  rw [Numeral.readNumeral?_append hleast rfl]
  rfl

/-- A dash in front of a numeral is a separator: what it would be the sign of is
    not followed by another dash. -/
theorem ends?_upward (hmost : most.IsPlain) :
    ends? ('-' :: most.text) = some (none, some most) := by
  have hupper := Numeral.upperEnd?_text hmost
  -- in front of a dash the dash is no sign, and else the whole text is one numeral
  have hread : readNumeral? ('-' :: most.text) = none
      ∨ ∃ numeral, readNumeral? ('-' :: most.text) = some (numeral, []) := by
    rw [Numeral.text_eq]
    cases hn : most.negative with
    | true => exact Or.inl rfl
    | false =>
        have h1 : readUnsigned? true (most.unsigned ++ []) = some (_, []) :=
          Numeral.readUnsigned?_append hmost rfl true
        rw [List.append_nil] at h1
        exact Or.inr ⟨_, h1⟩
  unfold ends?
  rcases hread with hr | ⟨numeral, hr⟩
  · rw [hr]
    show (upperEnd? most.text).map _ = _
    rw [hupper]
    rfl
  · rw [hr]
    show (upperEnd? most.text).map _ = _
    rw [hupper]
    rfl

/-- A numeral alone is no range. -/
theorem ends?_greatest (hmost : most.IsPlain) (hsign : most.negative = false) :
    ends? most.text = none := by
  have hread : readNumeral? (most.text ++ []) = some (most, []) := Numeral.readNumeral?_append hmost rfl
  obtain ⟨c, more, hc, hdigit⟩ := Numeral.exists_unsigned_eq_cons hmost
  have htext : most.text = c :: more := by
    rw [Numeral.text_eq, hsign, hc]
    rfl
  have hne : c ≠ '-' := by
    rintro rfl
    exact absurd hdigit (by decide)
  rw [List.append_nil] at hread
  unfold ends?
  rw [hread, htext]
  split
  · next heq => exact absurd (congrArg Prod.snd (Option.some.inj heq)) (List.cons_ne_nil _ _).symm
  · split
    · next heq => exact absurd (List.cons.inj heq).1 hne
    · rfl

end

/-! ## Whole clauses -/

theorem Comparison.unblank_text (comparison : Comparison) : Unblank comparison.text := by
  cases comparison <;> decide

namespace WrittenClause

variable {measure : Measure} {written : WrittenClause}

/-- A clause is an operator, perhaps, and characters that stand for themselves. -/
theorem exists_text_eq (h : written.IsPlain) :
    ∃ operator bare, written.text = operator ++ bare
      ∧ (operator = [] ∨ ∃ comparison : Comparison, operator = comparison.text)
      ∧ bare ≠ [] ∧ ∀ c ∈ bare, isBare c = true := by
  have hdash : isBare '-' = true := by decide
  -- an operator stands in front of one form only; dashes are as bare as the numerals
  cases written with
  | compared comparison bound =>
      exact ⟨comparison.text, bound.text, rfl, Or.inr ⟨comparison, rfl⟩,
        Numeral.text_ne_nil h, fun c hc => Numeral.isBare_of_mem_text h hc⟩
  | between least most =>
      refine ⟨[], _, rfl, Or.inl rfl, List.append_ne_nil_of_right_ne_nil _ (List.cons_ne_nil _ _), ?_⟩
      intro c hc
      rcases List.mem_append.1 hc with hleast | hrest
      · exact Numeral.isBare_of_mem_text h.1 hleast
      · rcases List.mem_cons.1 hrest with rfl | hmost
        · exact hdash
        · exact Numeral.isBare_of_mem_text h.2 hmost
  | onward least =>
      refine ⟨[], _, rfl, Or.inl rfl, List.append_ne_nil_of_right_ne_nil _ (List.cons_ne_nil _ _), ?_⟩
      intro c hc
      rcases List.mem_append.1 hc with hleast | hrest
      · exact Numeral.isBare_of_mem_text h hleast
      · obtain rfl := List.mem_singleton.1 hrest
        exact hdash
  | upward most =>
      refine ⟨[], _, rfl, Or.inl rfl, List.cons_ne_nil _ _, ?_⟩
      intro c hc
      rcases List.mem_cons.1 hc with rfl | hmost
      · exact hdash
      · exact Numeral.isBare_of_mem_text h hmost
  | greatest most =>
      exact ⟨[], most.text, rfl, Or.inl rfl, Numeral.text_ne_nil h.1,
        fun c hc => Numeral.isBare_of_mem_text h.1 hc⟩

/-- A plain clause is written without blanks at its ends. -/
theorem unblank_text (h : written.IsPlain) : Unblank written.text := by
  obtain ⟨operator, bare, htext, hop, -, hbare⟩ := exists_text_eq h
  rw [htext]
  rcases hop with rfl | ⟨comparison, rfl⟩
  · exact unblank_of_isBare hbare
  · exact comparison.unblank_text.append (unblank_of_isBare hbare)

theorem text_ne_nil (h : written.IsPlain) : written.text ≠ [] := by
  obtain ⟨operator, bare, htext, -, hne, -⟩ := exists_text_eq h
  rw [htext]
  exact List.append_ne_nil_of_right_ne_nil _ hne

/-- A text with ends, and no operator in front, is the range between its ends. -/
theorem clauseOf_of_ends? {text : Chars} {least most : Option Numeral} (htrim : trim text = text)
    (hne : text ≠ []) (hcomparison : readComparison? text = none) (hends : ends? text = some (least, most)) :
    clauseOf measure text = (do
      let low ← endBound measure least
      let high ← endBound measure most
      rangeOf text low high) := by
  unfold clauseOf
  rw [htrim]
  dsimp only
  rw [if_neg fun hempty => hne (List.isEmpty_iff.1 hempty), hcomparison, hends]

theorem endBound_some {numeral : Numeral} (h : numeral.Bounds measure) :
    endBound measure (some numeral) = .ok (some numeral.value) := by
  show (some <$> numeral.bound measure) = _
  rw [Numeral.bound_eq h]
  rfl

theorem readComparison?_text_append {numeral : Numeral} (h : numeral.IsPlain) (rest : Chars) :
    readComparison? (numeral.text ++ rest) = none := by
  obtain ⟨c, more, hc, hstart⟩ := Numeral.exists_text_eq_cons h
  rw [hc]
  exact readComparison?_eq_none (more ++ rest) hstart

section

variable {least most bound : Numeral}

/-- What stands behind an operator is its bound. -/
theorem clauseOf_compared {comparison : Comparison} (h : bound.IsPlain) :
    clauseOf measure (compared comparison bound).text = (do
      let value ← bound.bound measure
      if comparison = .below ∧ measure ≠ .value ∧ Binary64.eq value .zero then
        throw ⟨(compared comparison bound).text, .belowZero⟩
      return comparison.clause measure value) := by
  have hplain : (compared comparison bound).IsPlain := h
  have htrim := trim_eq_self (unblank_text hplain)
  have hbound : trim bound.text = bound.text :=
    trim_eq_self (unblank_of_isBare fun _ hc => Numeral.isBare_of_mem_text h hc)
  have hread : readComparison? (compared comparison bound).text = some (comparison, bound.text) :=
    Numeral.readComparison?_text h comparison
  unfold clauseOf
  rw [htrim]
  dsimp only
  rw [if_neg fun hempty => text_ne_nil hplain (List.isEmpty_iff.1 hempty), hread]
  dsimp only
  rw [hbound, boundOf, Numeral.numeral?_text h]

/-- A range is checked for the order of its ends after both were converted. -/
theorem clauseOf_between (hleast : least.IsPlain) (hmost : most.IsPlain) :
    clauseOf measure (between least most).text = (do
      let low ← endBound measure (some least)
      let high ← endBound measure (some most)
      rangeOf (between least most).text low high) :=
  have hplain : (between least most).IsPlain := ⟨hleast, hmost⟩
  clauseOf_of_ends? (trim_eq_self (unblank_text hplain)) (text_ne_nil hplain)
    (readComparison?_text_append hleast _) (ends?_between hleast hmost)

theorem clauseOf_onward (h : least.IsPlain) :
    clauseOf measure (onward least).text = (do
      let low ← endBound measure (some least)
      rangeOf (onward least).text low none) :=
  have hplain : (onward least).IsPlain := h
  clauseOf_of_ends? (trim_eq_self (unblank_text hplain)) (text_ne_nil hplain)
    (readComparison?_text_append h _) (ends?_onward h)

theorem clauseOf_upward (h : most.IsPlain) :
    clauseOf measure (upward most).text = (do
      let high ← endBound measure (some most)
      rangeOf (upward most).text none high) :=
  have hplain : (upward most).IsPlain := h
  clauseOf_of_ends? (trim_eq_self (unblank_text hplain)) (text_ne_nil hplain)
    (readComparison?_eq_none _ (Or.inl rfl)) (ends?_upward h)

/-- A numeral alone is the upper end. -/
theorem clauseOf_greatest (h : most.IsPlain) (hsign : most.negative = false) :
    clauseOf measure (greatest most).text = (do
      let value ← most.bound measure
      return .range none (some value)) := by
  have hplain : (greatest most).IsPlain := ⟨h, hsign⟩
  have htrim : trim most.text = most.text := trim_eq_self (unblank_text hplain)
  have hne : most.text ≠ [] := text_ne_nil hplain
  have hcomparison := readComparison?_text_append h []
  rw [List.append_nil] at hcomparison
  show clauseOf measure most.text = _
  unfold clauseOf
  rw [htrim]
  dsimp only
  rw [if_neg fun hempty => hne (List.isEmpty_iff.1 hempty), hcomparison, ends?_greatest h hsign,
    Numeral.numeral?_text h]

end

/-- **A WRITTEN CLAUSE IS READ AS IT IS MEANT.** -/
theorem clauseOf_text (h : written.Suits measure) :
    clauseOf measure written.text = .ok (written.clause measure) := by
  cases written with
  | compared comparison bound =>
      obtain ⟨hbound, hbelow⟩ := h
      rw [clauseOf_compared hbound.plain, Numeral.bound_eq hbound]
      show (if comparison = .below ∧ measure ≠ .value ∧ Binary64.eq bound.value .zero = true then _
        else _) = _
      -- the one clause that is refused asks for less than nothing of a count
      rw [if_neg]
      · cases comparison <;> rfl
      · rintro ⟨hcomparison, hmeasure, hzero⟩
        rw [hbelow hcomparison hmeasure] at hzero
        exact nomatch hzero
  | between least most =>
      obtain ⟨hleast, hmost, horder⟩ := h
      rw [clauseOf_between hleast.plain hmost.plain, endBound_some hleast, endBound_some hmost]
      show (if Binary64.lt most.value least.value = true then _ else _) = _
      rw [Binary64.lt_eq_false_of_le horder]
      rfl
  | onward least =>
      have hleast : least.Bounds measure := h
      rw [clauseOf_onward hleast.plain, endBound_some hleast]
      rfl
  | upward most =>
      have hmost : most.Bounds measure := h
      rw [clauseOf_upward hmost.plain, endBound_some hmost]
      rfl
  | greatest most =>
      obtain ⟨hmost, hsign⟩ := h
      rw [clauseOf_greatest hmost.plain hsign, Numeral.bound_eq hmost]
      rfl

end WrittenClause

end Conform.Dsl
