import Conform.Proofs.Decoding
import Conform.Proofs.Magnitudes
import Conform.Proofs.Transparency

/-! # Numeric cases — chosen by the number

    A case is chosen by text: the key of the case and the value of the record are written
    down and the texts are compared.  For numbers the texts meet exactly when the numbers
    do, whatever they are written from (`caseText_eq_iff`): an integer with or without a
    sign, or a double.  There is one exception: the negative zero is the same number as
    zero and has a text of its own.

    So a branch whose cases are numbers is refused for two cases of one number, and
    selects the case of the number that the record holds. -/

namespace Conform

open Text
open Binary64 (unit unit_pos)

/-- A number: an infinite one, or so many steps of `2 ^ -1074`. -/
inductive Quantity where
  | infinite (negative : Bool)
  | finite (steps : Int)
deriving DecidableEq

namespace CaseKey

/-- The number that a key stands for. -/
def quantity? : CaseKey → Option Quantity
  | .whole n => some (.finite (n * unit))
  | .number (.finite x) => some (.finite x.scaled)
  | .number (.infinite negative) => some (.infinite negative)
  | _ => none

/-- The key is a number: an integer of 64 bits, with a sign or without, or a double. -/
def IsNumeric : CaseKey → Prop
  | .whole n => -2 ^ 63 ≤ n ∧ n < 2 ^ 64
  | .number x => x.isNan = false
  | _ => False

/-- Whether the key is the zero with a sign. -/
def isNegativeZero : CaseKey → Bool
  | .number (.finite x) => x.isZero && x.negative
  | _ => false

/-- The keys stand for one number, and not just one of them is the negative zero. -/
structure Meets (key other : CaseKey) : Prop where
  quantity : ∃ quantity, key.quantity? = some quantity ∧ other.quantity? = some quantity
  zero : key.isNegativeZero = other.isNegativeZero

theorem Meets.symm {key other : CaseKey} (h : key.Meets other) : other.Meets key := by
  obtain ⟨⟨quantity, hkey, hother⟩, hzero⟩ := h
  exact ⟨⟨quantity, hother, hkey⟩, hzero.symm⟩

/-- Finite numbers meet exactly if they are the same in value and in the sign of zero. -/
theorem meets_finite_iff {key other : CaseKey} {steps steps' : Int}
    (hkey : key.quantity? = some (.finite steps)) (hother : other.quantity? = some (.finite steps')) :
    key.Meets other ↔ steps = steps' ∧ key.isNegativeZero = other.isNegativeZero := by
  constructor
  · rintro ⟨⟨quantity, hquantity, hquantity'⟩, hzero⟩
    rw [hkey] at hquantity
    rw [hother] at hquantity'
    exact ⟨Quantity.finite.inj (Option.some.inj (hquantity.trans hquantity'.symm)), hzero⟩
  · rintro ⟨rfl, hzero⟩
    exact ⟨⟨_, hkey, hother⟩, hzero⟩

/-! ## Texts of numbers -/

section

variable {n m : Int} {x y : Binary64.Finite}

theorem writes_whole (n : Int) : Writes (toString n).toList (decide (n < 0)) n.natAbs := by
  rw [toList_toString_int]
  exact writes_toString _ _

/-- Different integers are written differently. -/
theorem toString_eq_iff : toString n = toString m ↔ n = m := by
  refine ⟨fun h => ?_, fun h => congrArg toString h⟩
  have hwrites := writes_whole n
  rw [h] at hwrites
  obtain ⟨hsign, hsize⟩ := hwrites.unique (writes_whole m)
  have hsize : n.natAbs = m.natAbs := Nat.cast_injective hsize
  rw [decide_eq_decide] at hsign
  omega

theorem isZero_eq_true_iff : x.isZero = true ↔ x.magnitude = 0 := by
  have hstep := Nat.ne_of_gt (Nat.two_pow_pos x.shift)
  unfold Binary64.Finite.isZero Binary64.Finite.magnitude
  rw [beq_iff_eq, Nat.mul_eq_zero]
  exact (or_iff_left hstep).symm

/-- With a size that is not zero, the sign can be seen. -/
theorem negative_eq (h : x.magnitude ≠ 0) : x.negative = decide (x.scaled < 0) := by
  cases hnegative : x.negative with
  | false =>
      rw [Binary64.scaled_of_positive hnegative]
      exact (decide_eq_false (Int.not_lt.2 (Int.natCast_nonneg _))).symm
  | true =>
      rw [Binary64.scaled_of_negative hnegative]
      exact (decide_eq_true (by omega)).symm

/-- A double is an integer when it has its sign and its size; the negative zero has a
    sign that zero has not. -/
theorem scaled_eq_iff : x.scaled = n * unit ∧ (x.isZero && x.negative) = false
    ↔ x.negative = decide (n < 0) ∧ x.magnitude = n.natAbs * unit := by
  have hzero : x.isZero = true ↔ x.magnitude = 0 := isZero_eq_true_iff
  have hunit := unit_pos
  -- by the signs of both: where they differ, only zero could agree, and it would be negative
  cases hnegative : x.negative with
  | false =>
      rw [Binary64.scaled_of_positive hnegative, Bool.and_false, and_iff_left rfl]
      generalize unit = one at hunit ⊢
      cases n with
      | ofNat n =>
          have hsign : decide (Int.ofNat n < 0) = false := decide_eq_false (Int.not_lt.2 (Int.natCast_nonneg n))
          rw [hsign, and_iff_right rfl]
          show (x.magnitude : Int) = (n : Int) * one ↔ x.magnitude = n * one
          exact_mod_cast Iff.rfl
      | negSucc n =>
          have hsign : decide (Int.negSucc n < 0) = true := decide_eq_true (Int.negSucc_lt_zero n)
          rw [hsign]
          refine iff_of_false ?_ fun h => nomatch h.1
          have hless : Int.negSucc n * one < 0 :=
            mul_neg_of_neg_of_pos (Int.negSucc_lt_zero n) (Int.natCast_pos.2 hunit)
          omega
  | true =>
      rw [Binary64.scaled_of_negative hnegative, Bool.and_true, Bool.eq_false_iff, ne_eq, hzero]
      generalize unit = one at hunit ⊢
      cases n with
      | ofNat n =>
          have hsign : decide (Int.ofNat n < 0) = false := decide_eq_false (Int.not_lt.2 (Int.natCast_nonneg n))
          rw [hsign]
          refine iff_of_false ?_ fun h => nomatch h.1
          have hmore : 0 ≤ Int.ofNat n * one := mul_nonneg (Int.natCast_nonneg n) (Int.natCast_nonneg one)
          omega
      | negSucc n =>
          have hsign : decide (Int.negSucc n < 0) = true := decide_eq_true (Int.negSucc_lt_zero n)
          rw [hsign, and_iff_right rfl, Int.natAbs_negSucc]
          have hmore : 0 < (n + 1) * one := Nat.mul_pos (Nat.succ_pos n) hunit
          have hsize : Int.negSucc n * one = -(((n + 1) * one : Nat) : Int) := by
            rw [Int.negSucc_eq]
            push_cast
            ring
          rw [hsize, Int.neg_inj, Int.natCast_inj]
          exact ⟨fun h => h.1, fun h => ⟨h, h ▸ Nat.ne_of_gt hmore⟩⟩

/-- **AN INTEGER AND A DOUBLE ARE WRITTEN ALIKE** when the double is that integer. -/
theorem toString_eq_caseText_iff (hn : n.natAbs ≤ 2 ^ 64) :
    toString n = Binary64.caseText (.finite x) ↔ x.scaled = n * unit ∧ (x.isZero && x.negative) = false := by
  rw [scaled_eq_iff]
  constructor
  · intro h
    have hwrites := writes_whole n
    rw [h] at hwrites
    obtain ⟨size, hsize, -⟩ := Binary64.writes_caseText x
    exact ⟨(hsize.unique hwrites).1, Binary64.magnitude_of_writes_whole hn hwrites⟩
  · rintro ⟨hsign, hmagnitude⟩
    have hout : x.IsWrittenOut := by
      unfold Binary64.Finite.IsWrittenOut
      rw [hmagnitude]
      refine ⟨Nat.dvd_mul_left unit _, Nat.mul_lt_mul_of_pos_right ?_ unit_pos⟩
      omega
    rw [Binary64.caseText_of_isWrittenOut hout, ← String.toList_inj, toList_toString_int,
      Binary64.toList_wholeText, hsign, hmagnitude, Nat.mul_div_cancel _ unit_pos]

/-- Doubles are written alike when they are the same, the sign of a zero included. -/
theorem caseText_finite_eq_iff : Binary64.caseText (.finite x) = Binary64.caseText (.finite y)
    ↔ x.scaled = y.scaled ∧ (x.isZero && x.negative) = (y.isZero && y.negative) := by
  constructor
  · intro h
    obtain rfl := Binary64.finite_eq_of_caseText_eq h
    exact ⟨rfl, rfl⟩
  · rintro ⟨hscaled, hzero⟩
    have hmagnitude : x.magnitude = y.magnitude := by
      rw [← Binary64.natAbs_scaled, ← Binary64.natAbs_scaled, hscaled]
    have hnegative : x.negative = y.negative := by
      have hx : x.isZero = true ↔ x.magnitude = 0 := isZero_eq_true_iff
      have hy : y.isZero = true ↔ y.magnitude = 0 := isZero_eq_true_iff
      have hsame : x.isZero = y.isZero := Bool.eq_iff_iff.2 (hx.trans (hmagnitude ▸ hy.symm))
      -- the sign of a zero is told by the zeros, and any other by the number
      cases hxzero : x.isZero with
      | true => rwa [← hsame, hxzero, Bool.true_and, Bool.true_and] at hzero
      | false =>
          have hsize : x.magnitude ≠ 0 := fun h => Bool.eq_false_iff.1 hxzero (hx.2 h)
          rw [negative_eq hsize, negative_eq (hmagnitude ▸ hsize), hscaled]
    rw [Binary64.Finite.ext_magnitude hnegative hmagnitude]

theorem toList_caseText_infinite (negative : Bool) :
    (Binary64.caseText (.infinite negative)).toList = Text.sign negative ++ ['i', 'n', 'f'] := by
  cases negative <;> rfl

/-- An infinite number is not written with digits. -/
theorem not_writes_infinite (negative : Bool) {sign : Bool} {size : ℚ} :
    ¬Writes (Binary64.caseText (.infinite negative)).toList sign size := by
  rintro ⟨body, hdigit, htext, -⟩
  rw [toList_caseText_infinite] at htext
  cases negative with
  | false =>
      cases sign with
      | false =>
          obtain rfl : ['i', 'n', 'f'] = body := htext
          exact absurd (isDigit_of_head hdigit) (by decide)
      | true => exact absurd (List.cons.inj htext).1 (by decide)
  | true =>
      cases sign with
      | false => exact ne_minus_cons hdigit htext.symm
      | true =>
          obtain rfl : ['i', 'n', 'f'] = body := (List.cons.inj htext).2
          exact absurd (isDigit_of_head hdigit) (by decide)

theorem caseText_infinite_eq_iff {negative negative' : Bool} :
    Binary64.caseText (.infinite negative) = Binary64.caseText (.infinite negative') ↔ negative = negative' := by
  cases negative <;> cases negative' <;> decide

end

/-! ## Keys that meet -/

/-- A numeric case is an integer of 64 bits, a finite double or an infinity. -/
theorem IsNumeric.cases {key : CaseKey} (h : key.IsNumeric) :
    (∃ n, key = .whole n ∧ -2 ^ 63 ≤ n ∧ n < 2 ^ 64) ∨ (∃ x, key = .number (.finite x))
      ∨ ∃ negative, key = .number (.infinite negative) := by
  cases key with
  | text name => exact h.elim
  | flag value => exact h.elim
  | whole n => exact Or.inl ⟨n, rfl, h⟩
  | number value =>
      cases value with
      | nan => exact nomatch h
      | infinite negative => exact Or.inr (Or.inr ⟨negative, rfl⟩)
      | finite x => exact Or.inr (Or.inl ⟨x, rfl⟩)

/-- A finite case is written as a number. -/
theorem exists_writes {key : CaseKey} {steps : Int} (h : key.quantity? = some (.finite steps)) :
    ∃ sign size, Writes key.caseText.toList sign size := by
  cases key with
  | text name => exact nomatch h
  | flag value => exact nomatch h
  | whole n => exact ⟨_, _, writes_whole n⟩
  | number value =>
      cases value with
      | nan => exact nomatch h
      | infinite negative => exact nomatch Option.some.inj h
      | finite x =>
          obtain ⟨size, hwrites, -⟩ := Binary64.writes_caseText x
          exact ⟨_, size, hwrites⟩

/-- A finite number is written with digits and is not infinite. -/
theorem infinite_apart (key : CaseKey) {steps : Int} (h : key.quantity? = some (.finite steps)) (negative : Bool) :
    key.caseText ≠ (CaseKey.number (.infinite negative)).caseText
      ∧ ¬key.Meets (.number (.infinite negative)) := by
  constructor
  · intro htext
    obtain ⟨sign, size, hwrites⟩ := exists_writes h
    rw [htext] at hwrites
    exact not_writes_infinite negative hwrites
  · rintro ⟨⟨quantity, hkey, hother⟩, -⟩
    have hother : some (Quantity.infinite negative) = some quantity := hother
    rw [h, ← hother] at hkey
    exact nomatch Option.some.inj hkey

/-- **AN INTEGER AND A DOUBLE ARE WRITTEN ALIKE EXACTLY IF THEY MEET.** -/
theorem whole_caseText_eq_iff {n : Int} (hn : n.natAbs ≤ 2 ^ 64) (x : Binary64.Finite) :
    (CaseKey.whole n).caseText = (CaseKey.number (.finite x)).caseText
      ↔ (CaseKey.whole n).Meets (.number (.finite x)) := by
  rw [meets_finite_iff rfl rfl]
  refine (toString_eq_caseText_iff hn).trans ?_
  exact and_congr eq_comm eq_comm

/-- **NUMBERS ARE WRITTEN ALIKE WHEN THEY MEET.** -/
theorem caseText_eq_iff {key other : CaseKey} (hkey : key.IsNumeric) (hother : other.IsNumeric) :
    key.caseText = other.caseText ↔ key.Meets other := by
  -- integers, finite doubles and infinities, each against each
  rcases hkey.cases with ⟨n, rfl, hlow, hhigh⟩ | ⟨x, rfl⟩ | ⟨negative, rfl⟩
  · rcases hother.cases with ⟨m, rfl, -, -⟩ | ⟨y, rfl⟩ | ⟨negative, rfl⟩
    · rw [meets_finite_iff rfl rfl]
      refine toString_eq_iff.trans ⟨fun h => ⟨h ▸ rfl, rfl⟩, fun h => ?_⟩
      exact Int.eq_of_mul_eq_mul_right (Int.natCast_ne_zero.2 (Nat.ne_of_gt unit_pos)) h.1
    · exact whole_caseText_eq_iff (by omega) y
    · have hapart := infinite_apart (.whole n) rfl negative
      exact iff_of_false hapart.1 hapart.2
  · rcases hother.cases with ⟨m, rfl, hlow, hhigh⟩ | ⟨y, rfl⟩ | ⟨negative, rfl⟩
    · rw [eq_comm]
      refine (whole_caseText_eq_iff (by omega) x).trans ⟨Meets.symm, Meets.symm⟩
    · rw [meets_finite_iff rfl rfl]
      exact caseText_finite_eq_iff
    · have hapart := infinite_apart (.number (.finite x)) rfl negative
      exact iff_of_false hapart.1 hapart.2
  · rcases hother.cases with ⟨m, rfl, -, -⟩ | ⟨y, rfl⟩ | ⟨negative', rfl⟩
    · have hapart := infinite_apart (.whole m) rfl negative
      exact iff_of_false hapart.1.symm fun h => hapart.2 h.symm
    · have hapart := infinite_apart (.number (.finite y)) rfl negative
      exact iff_of_false hapart.1.symm fun h => hapart.2 h.symm
    · refine caseText_infinite_eq_iff.trans ⟨fun h => h ▸ ⟨⟨_, rfl, rfl⟩, rfl⟩, ?_⟩
      rintro ⟨⟨quantity, hkey, hother⟩, -⟩
      exact Quantity.infinite.inj (Option.some.inj (hkey.trans hother.symm))

/-- No number is written as the key of the default case. -/
theorem caseText_ne_defaultCase {key : CaseKey} (h : key.IsNumeric) : key.caseText ≠ defaultCase := by
  have hletter : ¬∃ sign size, Writes defaultCase.toList sign size := by
    rintro ⟨sign, size, body, hdigit, htext, -⟩
    cases sign with
    | false =>
        obtain rfl : '_' :: "default".toList = body := htext
        exact absurd (isDigit_of_head hdigit) (by decide)
    | true => exact absurd (List.cons.inj htext).1 (by decide)
  intro heq
  rcases h.cases with ⟨n, rfl, -, -⟩ | ⟨x, rfl⟩ | ⟨negative, rfl⟩
  · exact hletter (heq ▸ exists_writes (rfl : (CaseKey.whole n).quantity? = _))
  · exact hletter (heq ▸ exists_writes (rfl : (CaseKey.number (.finite x)).quantity? = _))
  · have hlist := toList_caseText_infinite negative
    rw [show Binary64.caseText (.infinite negative) = defaultCase from heq] at hlist
    cases negative <;> exact absurd hlist (by decide)

/-- A JSON number as a key. -/
def ofJson? : Json → Option CaseKey
  | .integer n => some (.whole n)
  | .float x => some (.number (.finite x))
  | _ => none

/-- A value picks a case by the text of the case key it has. -/
theorem caseText_of_ofJson? {value : Json} {key : CaseKey} (h : ofJson? value = some key) :
    Json.caseText (some value) = key.caseText := by
  cases value with
  | integer n =>
      obtain rfl : CaseKey.whole n = key := Option.some.inj h
      rfl
  | float x =>
      obtain rfl : CaseKey.number (.finite x) = key := Option.some.inj h
      rfl
  | null => exact nomatch h
  | bool value => exact nomatch h
  | string text => exact nomatch h
  | array items => exact nomatch h
  | object members => exact nomatch h

end CaseKey

namespace Members

variable {α : Type} {members : Members α} {name : String}

theorem valueOf?_eq_none_of_notMem (h : name ∉ names members) : valueOf? members name = none :=
  Option.not_isSome_iff_eq_none.1 fun hsome => h (hasName_iff_mem_names.1 hsome)

/-- Where no name is there twice, every member is found. -/
theorem valueOf?_of_mem {value : α} (hnames : (names members).Nodup) (h : (name, value) ∈ members) :
    valueOf? members name = some value := by
  induction members with
  | nil => exact nomatch h
  | cons head rest ih =>
      obtain ⟨hnew, hrest⟩ := List.nodup_cons.1 hnames
      rcases List.mem_cons.1 h with rfl | hmem
      · exact if_pos rfl
      · have hne : head.1 ≠ name := fun heq => hnew (heq ▸ List.mem_map_of_mem hmem)
        rw [valueOf?_cons, if_neg hne]
        exact ih hrest hmem

end Members

/-! ## Choosing a case -/

/-- What is picked among cases for the number that a record holds: the target of the case
    that the number meets, or else that of the default case, or else nothing. -/
structure PickedByNumber {α : Type} (cases : List (CaseKey × α)) (key : CaseKey) (picked : Option α) : Prop where
  meeting : ∀ case ∈ cases, case.1.Meets key → picked = some case.2
  fallback : (∀ case ∈ cases, ¬case.1.Meets key) →
    ∀ case ∈ cases, case.1 = .text defaultCase → picked = some case.2
  nothing : (∀ case ∈ cases, ¬case.1.Meets key) →
    (∀ case ∈ cases, case.1 ≠ .text defaultCase) → picked = none

namespace CaseKey

/-- The key of a case of a number, or of the default case. -/
def IsNumericCase (key : CaseKey) : Prop := key.IsNumeric ∨ key = .text defaultCase

/-- The keys are of one case: they meet, or are both those of the default case. -/
def Coincides (key other : CaseKey) : Prop :=
  key.Meets other ∨ key = .text defaultCase ∧ other = .text defaultCase

theorem not_meets_text {key : CaseKey} {name : String} : ¬key.Meets (.text name) := by
  rintro ⟨⟨quantity, -, hother⟩, -⟩
  exact nomatch hother

/-- **CASES HAVE ONE TEXT WHEN THEY COINCIDE.** -/
theorem caseText_eq_iff_coincides {key other : CaseKey} (hkey : key.IsNumericCase)
    (hother : other.IsNumericCase) : key.caseText = other.caseText ↔ key.Coincides other := by
  have hdefault : ¬(CaseKey.text defaultCase).IsNumeric := fun h => h
  rcases hkey with hkey | rfl
  · rcases hother with hother | rfl
    · refine (caseText_eq_iff hkey hother).trans (or_iff_left ?_).symm
      rintro ⟨rfl, -⟩
      exact hdefault hkey
    · refine iff_of_false (caseText_ne_defaultCase hkey) ?_
      rintro (h | ⟨rfl, -⟩)
      · exact not_meets_text h
      · exact hdefault hkey
  · rcases hother with hother | rfl
    · refine iff_of_false (caseText_ne_defaultCase hother).symm ?_
      rintro (h | ⟨-, rfl⟩)
      · exact not_meets_text h.symm
      · exact hdefault hother
    · exact iff_of_true rfl (Or.inr ⟨rfl, rfl⟩)

end CaseKey

/-- The cases as a branch has them. -/
def textCases {α : Type} (cases : List (CaseKey × α)) : Members α :=
  cases.map fun case => (case.1.caseText, case.2)

section

variable {α : Type} {cases : List (CaseKey × α)}

theorem names_textCases (cases : List (CaseKey × α)) :
    Members.names (textCases cases) = cases.map fun case => case.1.caseText := by
  rw [textCases, Members.names, List.map_map]
  rfl

theorem valueOf?_textCases (hnodup : (Members.names (textCases cases)).Nodup) {case : CaseKey × α}
    (h : case ∈ cases) : Members.valueOf? (textCases cases) case.1.caseText = some case.2 :=
  Members.valueOf?_of_mem hnodup (List.mem_map_of_mem h)

/-- Nothing is found under a text that no case has. -/
theorem valueOf?_textCases_eq_none {text : String} (h : ∀ case ∈ cases, case.1.caseText ≠ text) :
    Members.valueOf? (textCases cases) text = none := by
  refine Members.valueOf?_eq_none_of_notMem ?_
  rw [names_textCases]
  intro hmem
  obtain ⟨case, hcase, htext⟩ := List.mem_map.1 hmem
  exact h case hcase htext

/-- **A BRANCH PICKS BY NUMBER** where its cases are apart. -/
theorem pickedByNumber (hnumeric : ∀ case ∈ cases, case.1.IsNumericCase)
    (hnodup : (Members.names (textCases cases)).Nodup) {record value : Json} {reference : String}
    {key : CaseKey} (hvalue : record.resolve? reference = some value)
    (hof : CaseKey.ofJson? value = some key) (hkey : key.IsNumeric) :
    PickedByNumber cases key (pickCase? reference (textCases cases) record) := by
  unfold pickCase?
  rw [hvalue, CaseKey.caseText_of_ofJson? hof]
  -- a case is picked by its text, and texts are equal when the numbers are
  have hnone : (∀ case ∈ cases, ¬case.1.Meets key) →
      Members.valueOf? (textCases cases) key.caseText = none := by
    intro hnot
    refine valueOf?_textCases_eq_none fun case hcase heq => ?_
    rcases hnumeric case hcase with hcasekey | hdefault
    · exact hnot case hcase ((CaseKey.caseText_eq_iff hcasekey hkey).1 heq)
    · rw [hdefault] at heq
      exact CaseKey.caseText_ne_defaultCase hkey heq.symm
  constructor
  · intro case hcase hmeets
    have hcasekey := (hnumeric case hcase).resolve_right fun hdefault =>
      CaseKey.not_meets_text (hdefault ▸ hmeets.symm)
    rw [← (CaseKey.caseText_eq_iff hcasekey hkey).2 hmeets, valueOf?_textCases hnodup hcase]
    rfl
  · intro hnot case hcase hdefault
    have hfound := valueOf?_textCases hnodup hcase
    rw [hdefault] at hfound
    rw [hnone hnot]
    exact hfound
  · intro hnot hdefault
    rw [hnone hnot]
    refine valueOf?_textCases_eq_none fun case hcase heq => ?_
    rcases hnumeric case hcase with hcasekey | hcasekey
    · exact CaseKey.caseText_ne_defaultCase hcasekey heq
    · exact hdefault case hcase hcasekey

end

namespace Compiler

/-! ## Compiling the cases -/

/-- What compiling cases comes to, where the names before them are seen: nodes of the
    names, all of which are new; or the error for a name that was there before; or the
    error of a case. -/
inductive CasesAnswer (path : String) (seen : List String) (cases : List (String × Spec)) :
    Except Error (List (String × Node)) → Prop
  | compiled {nodes : List (String × Node)} (hnames : Members.names nodes = Members.names cases)
      (hnew : ∀ name ∈ Members.names cases, name ∉ seen) (hnodup : (Members.names cases).Nodup) :
      CasesAnswer path seen cases (.ok nodes)
  | repeated {before after : List (String × Spec)} {name : String} {spec : Spec}
      (hcases : cases = before ++ (name, spec) :: after) (hthere : name ∈ seen ∨ name ∈ Members.names before)
      (hnew : ∀ name ∈ Members.names before, name ∉ seen) (hnodup : (Members.names before).Nodup) :
      CasesAnswer path seen cases (.error (.grammar path name .duplicateCase))
  | failed {name : String} {spec : Spec} {error : Error} (hmem : (name, spec) ∈ cases) (compiler : Compiler)
      (hfail : ((compileAt (casePath path name) spec).run compiler).1 = .error error) :
      CasesAnswer path seen cases (.error error)

/-- Names that are new beside one more are all new, and that one is not among them. -/
theorem new_cons {seen names : List String} {name : String} (hname : name ∉ seen)
    (hnew : ∀ other ∈ names, other ∉ name :: seen) (hnodup : names.Nodup) :
    (∀ other ∈ name :: names, other ∉ seen) ∧ (name :: names).Nodup := by
  refine ⟨List.forall_mem_cons.2 ⟨hname, fun other hother hseen => ?_⟩,
    List.nodup_cons.2 ⟨fun hmem => ?_, hnodup⟩⟩
  · exact hnew other hother (List.mem_cons_of_mem _ hseen)
  · exact hnew name hmem List.mem_cons_self

/-- **CASES ARE COMPILED ONE BY ONE**, and a name is looked for among those before it. -/
theorem casesAnswer_compileCases (path : String) (seen : List String) (cases : List (String × Spec))
    (compiler : Compiler) : CasesAnswer path seen cases ((compileCases path seen cases).run compiler).1 := by
  induction cases generalizing seen compiler with
  | nil =>
      unfold compileCases
      exact .compiled rfl nofun List.nodup_nil
  | cons case rest ih =>
      obtain ⟨name, spec⟩ := case
      unfold compileCases
      rw [bind_run]
      rcases hfirst : (compileAt (casePath path name) spec).run compiler with ⟨error | node, after⟩
      · exact .failed List.mem_cons_self compiler (congrArg Prod.fst hfirst)
      · dsimp only
        by_cases htaken : seen.contains name = true
        · rw [if_pos htaken]
          exact .repeated (List.nil_append _).symm (Or.inl (List.contains_iff_mem.1 htaken)) nofun List.nodup_nil
        · rw [if_neg htaken]
          have hnew : name ∉ seen := fun hmem => htaken (List.contains_iff_mem.2 hmem)
          have hrest := ih (name :: seen) after
          rw [bind_run]
          rcases hrun : (compileCases path (name :: seen) rest).run after with ⟨error | nodes, last⟩
          · rw [hrun] at hrest
            cases hrest with
            | @repeated before more other otherSpec hcases hthere hrestNew hnodup =>
                obtain ⟨hbefore, hbeforeNodup⟩ := new_cons hnew hrestNew hnodup
                have hall : (name, spec) :: rest = ((name, spec) :: before) ++ (other, otherSpec) :: more :=
                  congrArg ((name, spec) :: ·) hcases
                refine .repeated hall ?_ hbefore hbeforeNodup
                -- the name was there before this case, or is that of this case, or came after it
                rcases hthere with hthere | hthere
                · rcases List.mem_cons.1 hthere with rfl | hthere
                  · exact Or.inr List.mem_cons_self
                  · exact Or.inl hthere
                · exact Or.inr (List.mem_cons_of_mem _ hthere)
            | failed hmem other hfail => exact .failed (List.mem_cons_of_mem _ hmem) other hfail
          · rw [hrun] at hrest
            cases hrest with
            | compiled hnames hrestNew hnodup =>
                obtain ⟨hall, hallNodup⟩ := new_cons hnew hrestNew hnodup
                exact .compiled (congrArg (name :: ·) hnames) hall hallNodup

/-- Nodes of the names of cases are the targets of the cases. -/
theorem exists_targets {cases : List (CaseKey × Spec)} {nodes : List (String × Node)}
    (h : Members.names nodes = Members.names (textCases cases)) :
    ∃ targets : List (CaseKey × Node), targets.map Prod.fst = cases.map Prod.fst ∧ textCases targets = nodes := by
  induction cases generalizing nodes with
  | nil =>
      obtain rfl : nodes = [] := List.map_eq_nil_iff.1 h
      exact ⟨[], rfl, rfl⟩
  | cons case rest ih =>
      cases nodes with
      | nil => exact nomatch h
      | cons node more =>
          obtain ⟨hname, hmore⟩ := List.cons.inj h
          obtain ⟨targets, hkeys, htargets⟩ := ih hmore
          refine ⟨(case.1, node.2) :: targets, congrArg (case.1 :: ·) hkeys, ?_⟩
          have hnode : (case.1.caseText, node.2) = node := Prod.ext hname.symm rfl
          exact congrArg₂ List.cons hnode htargets

/-- What compiling a branch of numbers comes to: a branch whose cases are apart, which
    picks by number; or the error for the first case that coincides with one before; or
    the error of a case, or that of the reference. -/
inductive BranchAnswer (path reference : String) (cases : List (CaseKey × Spec)) : Except Error Node → Prop
  | compiled (targets : List (CaseKey × Node)) (hkeys : targets.map Prod.fst = cases.map Prod.fst)
      (hapart : cases.Pairwise fun one other => ¬one.1.Coincides other.1)
      (hpicked : ∀ record value key, record.resolve? reference = some value →
        CaseKey.ofJson? value = some key → key.IsNumeric →
        PickedByNumber targets key (pickCase? reference (textCases targets) record)) :
      BranchAnswer path reference cases (.ok (.matching {} reference (textCases targets)))
  | repeated {before after : List (CaseKey × Spec)} {key : CaseKey} {spec : Spec}
      (hcases : cases = before ++ (key, spec) :: after) (hmeets : ∃ case ∈ before, case.1.Coincides key)
      (hapart : before.Pairwise fun one other => ¬one.1.Coincides other.1) :
      BranchAnswer path reference cases (.error (.grammar path key.caseText .duplicateCase))
  | failed {key : CaseKey} {spec : Spec} {error : Error} (hmem : (key, spec) ∈ cases) (compiler : Compiler)
      (hfail : ((compileAt (casePath path key.caseText) spec).run compiler).1 = .error error) :
      BranchAnswer path reference cases (.error error)
  | malformed (hreference : isMalformedReference reference = true) :
      BranchAnswer path reference cases (.error (.grammar path reference .malformedReference))

/-- Cases whose texts differ are apart. -/
theorem pairwise_apart {cases : List (CaseKey × Spec)} (hnumeric : ∀ case ∈ cases, case.1.IsNumericCase)
    (hnodup : (Members.names (textCases cases)).Nodup) :
    cases.Pairwise fun one other => ¬one.1.Coincides other.1 := by
  rw [names_textCases, List.Nodup, List.pairwise_map] at hnodup
  refine hnodup.imp_of_mem ?_
  intro one other hone hother hne hsame
  exact hne ((CaseKey.caseText_eq_iff_coincides (hnumeric one hone) (hnumeric other hother)).2 hsame)

/-- **CASES OF NUMBERS ARE CHOSEN BY NUMBER.**  A branch whose cases are numbers, and
    perhaps the default case, is refused when two cases coincide, and otherwise selects
    for a number in the record the case that the number meets. -/
theorem numeric_cases_meet (compiler : Compiler) (path reference : String) (cases : List (CaseKey × Spec))
    (hnumeric : ∀ case ∈ cases, case.1.IsNumericCase) :
    BranchAnswer path reference cases ((compileAt path (.byCase reference cases)).run compiler).1 := by
  show BranchAnswer path reference cases ((compileAt path (.matching reference (textCases cases))).run compiler).1
  unfold compileAt checkReference
  rw [bind_run]
  by_cases hreference : isMalformedReference reference = true
  · rw [if_pos hreference]
    exact .malformed hreference
  rw [if_neg hreference]
  show BranchAnswer path reference cases
    ((compileCases path [] (textCases cases) >>= _ : Compiling Node).run compiler).1
  rw [bind_run]
  have hanswer := casesAnswer_compileCases path [] (textCases cases) compiler
  rcases hrun : (compileCases path [] (textCases cases)).run compiler with ⟨error | nodes, after⟩
  · rw [hrun] at hanswer
    cases hanswer with
    | repeated hcases hthere hnew hnodup =>
        -- the names come from cases, and so does what is before the repeated one
        obtain ⟨before, rest, rfl, rfl, hrest⟩ := List.map_eq_append_iff.1 hcases
        obtain ⟨case, after, rfl, hcase, -⟩ := List.map_eq_cons_iff.1 hrest
        obtain ⟨rfl, -⟩ := Prod.mk.inj hcase
        obtain ⟨hbefore, hafter⟩ := List.forall_mem_append.1 hnumeric
        have hmem := hthere.resolve_left (List.not_mem_nil)
        rw [← textCases, names_textCases] at hmem
        obtain ⟨earlier, hearlier, htext⟩ := List.mem_map.1 hmem
        have hsame := (CaseKey.caseText_eq_iff_coincides (hbefore earlier hearlier)
          (hafter case List.mem_cons_self)).1 htext
        exact .repeated rfl ⟨earlier, hearlier, hsame⟩ (pairwise_apart hbefore hnodup)
    | failed hmem other hfail =>
        obtain ⟨case, hcase, heq⟩ := List.mem_map.1 hmem
        obtain ⟨rfl, rfl⟩ := Prod.mk.inj heq
        exact .failed hcase other hfail
  · rw [hrun] at hanswer
    cases hanswer with
    | compiled hnames hnew hnodup =>
        obtain ⟨targets, hkeys, rfl⟩ := exists_targets hnames
        refine .compiled targets hkeys (pairwise_apart hnumeric hnodup) ?_
        intro record value key hvalue hof hkey
        refine pickedByNumber ?_ (hnames ▸ hnodup) hvalue hof hkey
        intro target htarget
        have hmem : target.1 ∈ cases.map Prod.fst := hkeys ▸ List.mem_map_of_mem htarget
        obtain ⟨case, hcase, heq⟩ := List.mem_map.1 hmem
        exact heq ▸ hnumeric case hcase

/-- Cases of an integer, of two doubles and of anything else. -/
def sampleCases : List (CaseKey × Spec) :=
  [(.whole 1, .node (.leaf .string {})), (.number (.infinite true), .node (.leaf .boolean {})),
    (.number .zero, .node (.leaf .number {})), (.text defaultCase, .node (.leaf .any {}))]

theorem numeric_cases_meet_of_sampleCases :
    (∀ case ∈ sampleCases, case.1.IsNumericCase)
      ∧ BranchAnswer "" "kind" sampleCases ((compileAt "" (.byCase "kind" sampleCases)).run {}).1 := by
  have hnumeric : ∀ case ∈ sampleCases, case.1.IsNumericCase := by
    refine List.forall_mem_cons.2 ⟨Or.inl ⟨by decide, by decide⟩, ?_⟩
    refine List.forall_mem_cons.2 ⟨Or.inl rfl, List.forall_mem_cons.2 ⟨Or.inl rfl, ?_⟩⟩
    exact List.forall_mem_singleton.2 (Or.inr rfl)
  exact ⟨hnumeric, numeric_cases_meet {} "" "kind" sampleCases hnumeric⟩

/-- **THE NEGATIVE ZERO IS ZERO AND DOES NOT MEET IT**: a case of zero is not picked for
    it, and stands beside a case of it. -/
theorem negative_zero_misses_zero :
    (CaseKey.whole 0).quantity? = (CaseKey.number (.finite (.zero true))).quantity?
      ∧ pickCase? "k" (textCases [(.whole 0, true)]) (.object [("k", .float (.zero true))]) = none
      ∧ (compiled (.byCase "k" [(.whole 0, .node (.leaf .any {})),
          (.number (.finite (.zero true)), .node (.leaf .any {}))])).isOk = true := by
  refine ⟨?_, ?_, ?_⟩
  · decide +kernel
  · decide +kernel
  · decide +kernel

end Compiler

end Conform
