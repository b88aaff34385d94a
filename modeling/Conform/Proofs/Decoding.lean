import Conform.Proofs.Comparing
import Conform.Proofs.Shortest

/-! # Decoding — the number that a text writes

    A number is written as a sign and a body of digits, which may have a point in it.
    The body writes one number (`numberOf`), and a text that WRITES a number writes no
    other and has one sign (`Writes.unique`).

    Integers are written exactly, and so are doubles that are whole and below `10 ^ 21`;
    of any other double the text writes a value that the double covers. -/

namespace Conform

namespace Text

/-! ## Digits -/

/-- Digits that follow move the ones before them to the left. -/
theorem digitsValue_append (digits more : Chars) :
    digitsValue (digits ++ more) = digitsValue digits * 10 ^ more.length + digitsValue more := by
  -- a digit more at the end is what the value is defined by
  induction more using List.reverseRecOn with
  | nil => rw [List.append_nil, List.length_nil, Nat.pow_zero, Nat.mul_one, digitsValue_nil, Nat.add_zero]
  | append_singleton more c ih =>
      rw [← List.append_assoc, digitsValue_append_singleton, ih, digitsValue_append_singleton,
        List.length_append, List.length_singleton, Nat.pow_succ]
      ring

/-- Zeros are worth nothing. -/
theorem digitsValue_replicate_zero (n : Nat) : digitsValue (List.replicate n '0') = 0 := by
  induction n with
  | zero => rfl
  | succ n ih =>
      rw [List.replicate_succ', digitsValue_append_singleton, ih]
      rfl

/-- A text has digits only. -/
def AllDigits (text : Chars) : Prop := ∀ c ∈ text, isDigit c = true

/-- The number that digits with or without a point write. -/
def numberOf (body : Chars) : ℚ :=
  digitsValue (body.filter (· != '.')) / 10 ^ ((body.dropWhile (· != '.')).length - 1)

section

variable {digits whole fraction : Chars}

theorem AllDigits.ne_point (h : AllDigits digits) : ∀ c ∈ digits, (c != '.') = true := by
  intro c hc
  refine bne_iff_ne.2 ?_
  rintro rfl
  exact absurd (h '.' hc) (by decide)

/-- A text of digits writes their number. -/
theorem numberOf_whole (h : AllDigits digits) : numberOf digits = digitsValue digits := by
  unfold numberOf
  have hrest : digits.dropWhile (· != '.') = [] := by
    rw [← List.append_nil digits, List.dropWhile_append_of_pos h.ne_point]
    rfl
  rw [List.filter_eq_self.2 h.ne_point, hrest]
  exact div_one _

/-- The point divides by a power of ten. -/
theorem numberOf_point (hwhole : AllDigits whole) (hfraction : AllDigits fraction) :
    numberOf (whole ++ '.' :: fraction) = digitsValue (whole ++ fraction) / 10 ^ fraction.length := by
  have hrest : (whole ++ '.' :: fraction).dropWhile (· != '.') = '.' :: fraction := by
    rw [List.dropWhile_append_of_pos hwhole.ne_point]
    rfl
  have hdigits : (whole ++ '.' :: fraction).filter (· != '.') = whole ++ fraction := by
    rw [List.filter_append, List.filter_eq_self.2 hwhole.ne_point, List.filter_cons_of_neg (by decide),
      List.filter_eq_self.2 hfraction.ne_point]
  unfold numberOf
  rw [hrest, hdigits]
  rfl

theorem AllDigits.append (hdigits : AllDigits digits) (hfraction : AllDigits fraction) :
    AllDigits (digits ++ fraction) := List.forall_mem_append.2 ⟨hdigits, hfraction⟩

theorem allDigits_zeros (n : Nat) : AllDigits (List.replicate n '0') := by
  intro c hc
  rw [List.eq_of_mem_replicate hc]
  decide

theorem allDigits_toDigits (n : Nat) : AllDigits (Nat.toDigits 10 n) := by
  rw [← Place.toList_toString]
  exact fun _ => Dsl.isDigit_of_mem_toString _

theorem digitsValue_toDigits (n : Nat) : digitsValue (Nat.toDigits 10 n) = n := by
  rw [← Place.toList_toString]
  exact Dsl.digitsValue_toString n

end

/-! ## Signs -/

/-- The sign of a number, as it is written. -/
def sign (negative : Bool) : Chars := if negative then ['-'] else []

/-- The text writes a number of this sign and size: a sign, if there is one, and a body
    that begins with a digit. -/
def Writes (text : Chars) (negative : Bool) (size : ℚ) : Prop :=
  ∃ body, (∃ c ∈ body.head?, isDigit c = true) ∧ text = sign negative ++ body ∧ numberOf body = size

theorem isDigit_of_head {c : Char} {rest : Chars} (h : ∃ first ∈ (c :: rest).head?, isDigit first = true) :
    isDigit c = true := by
  obtain ⟨first, hfirst, hdigit⟩ := h
  obtain rfl : c = first := Option.some.inj hfirst
  exact hdigit

/-- What begins with a digit does not begin with a sign. -/
theorem ne_minus_cons {body more : Chars} (h : ∃ c ∈ body.head?, isDigit c = true) : body ≠ '-' :: more := by
  rintro rfl
  exact absurd (isDigit_of_head h) (by decide)

/-- **A TEXT WRITES ONE NUMBER.** -/
theorem Writes.unique {text : Chars} {negative negative' : Bool} {size size' : ℚ}
    (h : Writes text negative size) (h' : Writes text negative' size') :
    negative = negative' ∧ size = size' := by
  obtain ⟨body, hdigit, rfl, rfl⟩ := h
  obtain ⟨body', hdigit', heq, rfl⟩ := h'
  cases negative with
  | false =>
      cases negative' with
      | false => exact ⟨rfl, congrArg numberOf heq⟩
      | true => exact absurd heq (ne_minus_cons hdigit)
  | true =>
      cases negative' with
      | false => exact absurd heq.symm (ne_minus_cons hdigit')
      | true => exact ⟨rfl, congrArg numberOf (List.cons.inj heq).2⟩

theorem writes_of_allDigits {digits : Chars} (negative : Bool) (h : AllDigits digits) (hne : digits ≠ []) :
    Writes (sign negative ++ digits) negative (digitsValue digits) := by
  obtain ⟨c, rest, rfl⟩ := List.exists_cons_of_ne_nil hne
  exact ⟨c :: rest, ⟨c, rfl, h c List.mem_cons_self⟩, rfl, numberOf_whole h⟩

theorem toList_signText (negative : Bool) : (Binary64.signText negative).toList = sign negative := by
  cases negative <;> rfl

/-- A natural number is written exactly. -/
theorem writes_toString (negative : Bool) (n : Nat) :
    Writes (sign negative ++ (toString n).toList) negative n := by
  rw [Place.toList_toString]
  have hwrites := writes_of_allDigits negative (allDigits_toDigits n) Nat.toDigits_ne_nil
  rwa [digitsValue_toDigits] at hwrites

/-- An integer is written with the sign of its size. -/
theorem toList_toString_int (n : Int) :
    (toString n).toList = sign (decide (n < 0)) ++ (toString n.natAbs).toList := by
  rw [← Dsl.Numeral.text_ofInt]
  exact List.append_nil _

section

variable (negative : Bool) {digits : Chars} {places : Nat} (h : AllDigits digits) (hne : digits ≠ [])

include h hne

/-- Zeros after the digits multiply by ten. -/
theorem writes_before_zeros (places : Nat) :
    Writes (sign negative ++ (digits ++ List.replicate places '0')) negative
      (digitsValue digits * 10 ^ places) := by
  have hwrites := writes_of_allDigits negative (h.append (allDigits_zeros places))
    (List.append_ne_nil_of_left_ne_nil hne _)
  rw [digitsValue_append, digitsValue_replicate_zero, List.length_replicate] at hwrites
  push_cast at hwrites
  rwa [add_zero] at hwrites

/-- A point between the digits divides by ten for each of those behind it. -/
theorem writes_around_point (hplaces : places < digits.length) :
    Writes (sign negative ++ (digits.take (digits.length - places)
      ++ '.' :: digits.drop (digits.length - places))) negative (digitsValue digits / 10 ^ places) := by
  have htake : AllDigits (digits.take (digits.length - places)) := fun c hc => h c (List.mem_of_mem_take hc)
  have hdrop : AllDigits (digits.drop (digits.length - places)) := fun c hc => h c (List.mem_of_mem_drop hc)
  have hnumber := numberOf_point htake hdrop
  rw [List.take_append_drop, List.length_drop, Nat.sub_sub_self hplaces.le] at hnumber
  obtain ⟨whole, hwhole⟩ := Nat.exists_eq_succ_of_ne_zero (Nat.sub_ne_zero_of_lt hplaces)
  obtain ⟨c, rest, rfl⟩ := List.exists_cons_of_ne_nil hne
  refine ⟨_, ⟨c, ?_, h c List.mem_cons_self⟩, rfl, hnumber⟩
  rw [hwhole]
  rfl

omit hne in
/-- A point before all digits, with zeros between. -/
theorem writes_after_point (hplaces : digits.length ≤ places) :
    Writes (sign negative ++ (['0'] ++ '.' :: (List.replicate (places - digits.length) '0' ++ digits))) negative
      (digitsValue digits / 10 ^ places) := by
  have hnumber := numberOf_point (allDigits_zeros 1) ((allDigits_zeros (places - digits.length)).append h)
  have hvalue : digitsValue (List.replicate 1 '0' ++ (List.replicate (places - digits.length) '0' ++ digits))
      = digitsValue digits := by
    rw [digitsValue_append, digitsValue_append, digitsValue_replicate_zero, digitsValue_replicate_zero,
      Nat.zero_mul, Nat.zero_mul, Nat.zero_add, Nat.zero_add]
  rw [hvalue, List.length_append, List.length_replicate, Nat.sub_add_cancel hplaces] at hnumber
  exact ⟨_, ⟨'0', rfl, by decide⟩, rfl, hnumber⟩

end

/-- **A DECIMAL IS WRITTEN AS THE NUMBER THAT IT IS.** -/
theorem writes_positional (negative : Bool) (d : Decimal) :
    Writes (sign negative ++ (d.positional "").toList) negative d.value := by
  have hdigits := allDigits_toDigits d.digits
  have hvalue := digitsValue_toDigits d.digits
  have hne : Nat.toDigits 10 d.digits ≠ [] := Nat.toDigits_ne_nil
  -- the point is behind all digits, between two of them, or before them all
  unfold Decimal.positional Decimal.value Decimal.zeros
  generalize Nat.toDigits 10 d.digits = text at hdigits hvalue hne
  dsimp only
  by_cases hexponent : 0 ≤ d.exponent
  · obtain ⟨places, hplaces⟩ := Int.eq_ofNat_of_zero_le hexponent
    have hlist : (String.ofList text ++ String.ofList (List.replicate places '0') ++ "").toList
        = text ++ List.replicate places '0' := by simp
    have hwrites := writes_before_zeros negative hdigits hne places
    rw [if_pos hexponent, hplaces, Int.toNat_natCast, hlist, zpow_natCast]
    rwa [hvalue] at hwrites
  · obtain ⟨places, hplaces⟩ := Int.exists_eq_neg_ofNat (Int.not_le.1 hexponent).le
    have hsize : (d.digits : ℚ) * 10 ^ d.exponent = d.digits / 10 ^ places := by
      rw [hplaces, zpow_neg, zpow_natCast]
      rfl
    rw [if_neg hexponent, hsize, hplaces, Int.natAbs_neg, Int.natAbs_natCast]
    by_cases hfew : places < text.length
    · have hlist : (String.ofList (text.take (text.length - places)) ++ "."
            ++ String.ofList (text.drop (text.length - places))).toList
          = text.take (text.length - places) ++ '.' :: text.drop (text.length - places) := by simp
      have hwrites := writes_around_point negative hdigits hne hfew
      rw [if_pos hfew, hlist]
      rwa [hvalue] at hwrites
    · have hlist : ("0." ++ String.ofList (List.replicate (places - text.length) '0')
            ++ String.ofList text).toList
          = ['0'] ++ '.' :: (List.replicate (places - text.length) '0' ++ text) := by simp
      have hwrites := writes_after_point negative hdigits (Nat.le_of_not_lt hfew)
      rw [if_neg hfew, hlist]
      rwa [hvalue] at hwrites

end Text

/-! ## Doubles -/

namespace Binary64

open Text

theorem toList_wholeText (x : Finite) :
    x.wholeText.toList = sign x.negative ++ (toString (x.magnitude / unit)).toList := by
  rw [Finite.wholeText, String.toList_append, toList_signText]

/-- Whether all digits of the number are written: a whole number below `10 ^ 21`. -/
def Finite.IsWrittenOut (x : Finite) : Prop := unit ∣ x.magnitude ∧ x.magnitude < 10 ^ 21 * unit

theorem isWrittenOut_iff {x : Finite} :
    (x.isIntegral && Nat.blt x.magnitude (Nat.pow 10 21 * unit)) = true ↔ x.IsWrittenOut := by
  unfold Finite.isIntegral Finite.IsWrittenOut
  rw [Bool.and_eq_true, Nat.blt_eq, beq_iff_eq, Nat.pow_eq, Nat.dvd_iff_mod_eq_zero]

/-- A whole number that is not too large is written with all its digits. -/
theorem caseText_of_isWrittenOut {x : Finite} (h : x.IsWrittenOut) : caseText (.finite x) = x.wholeText :=
  if_pos (isWrittenOut_iff.2 h)

theorem caseText_of_not_isWrittenOut {x : Finite} (h : ¬x.IsWrittenOut) :
    caseText (.finite x) = plainText (.finite x) :=
  if_neg fun hboth => h (isWrittenOut_iff.1 hboth)

/-- A double that is not written out is not zero. -/
theorem significand_pos_of_not_isWrittenOut {x : Finite} (h : ¬x.IsWrittenOut) : 0 < x.significand := by
  refine Nat.pos_of_ne_zero fun hzero => h ?_
  have hmagnitude : x.magnitude = 0 := by
    unfold Finite.magnitude
    rw [hzero, Nat.zero_mul]
  unfold Finite.IsWrittenOut
  rw [hmagnitude]
  exact ⟨Nat.dvd_zero _, Nat.mul_pos (by decide) unit_pos⟩

/-- **WHAT THE TEXT OF A DOUBLE WRITES**: the double itself where it is written out, and
    a value that it covers anywhere. -/
theorem writes_caseText (x : Finite) :
    ∃ size, Writes (caseText (.finite x)).toList x.negative size ∧ x.Covers (size * (4 * unit))
      ∧ (x.IsWrittenOut → size * unit = x.magnitude) := by
  by_cases hout : x.IsWrittenOut
  · rw [caseText_of_isWrittenOut hout, toList_wholeText]
    have hexact : ((x.magnitude / unit : Nat) : ℚ) * unit = x.magnitude := by
      rw [← Nat.cast_mul, Nat.div_mul_cancel hout.1]
    have hcovers : x.Covers ((x.magnitude / unit : Nat) * (4 * unit)) := by
      rw [mul_left_comm, hexact]
      exact x.covers_center
    exact ⟨_, writes_toString x.negative (x.magnitude / unit), hcovers, fun _ => hexact⟩
  · rw [caseText_of_not_isWrittenOut hout, plainText, String.toList_append, toList_signText]
    exact ⟨_, writes_positional x.negative _, Finite.covers_shortest .away (significand_pos_of_not_isWrittenOut hout),
      fun hin => absurd hin hout⟩

/-! ## Whole numbers -/

section

variable {x : Finite} {n : Nat}

/-- A whole number that a double covers is at most half a step away from it. -/
theorem between_of_covers_whole (hpos : 0 < x.significand) (h : x.Covers (n * (4 * unit))) :
    4 * x.magnitude ≤ 4 * (n * unit) + 2 * 2 ^ x.shift
      ∧ 4 * (n * unit) ≤ 4 * x.magnitude + 2 * 2 ^ x.shift := by
  obtain ⟨hlow, hhigh⟩ := h.between
  have hvalue : (n * (4 * unit) : ℚ) = (4 * (n * unit) : Nat) := by
    push_cast
    ring
  rw [hvalue, Nat.cast_le] at hlow hhigh
  refine ⟨?_, hhigh⟩
  rcases Finite.lowEnd_cases hpos with ⟨-, -, hcenter⟩ | ⟨-, hcenter⟩
  · rw [← hcenter]
    omega
  · rw [← hcenter]
    omega

/-- **BETWEEN TWO WHOLE NUMBERS** a double covers neither of them. -/
theorem dvd_of_covers_whole (hpos : 0 < x.significand) (h : x.Covers (n * (4 * unit))) :
    unit ∣ x.magnitude := by
  have hstep := Nat.two_pow_pos x.shift
  have hmagnitude : x.magnitude = x.significand * 2 ^ x.shift := rfl
  rcases Nat.le_total unitShift x.shift with hlarge | hsmall
  · rw [unit_eq, hmagnitude]
    exact Nat.dvd_mul_left_of_dvd (Nat.pow_dvd_pow 2 hlarge) _
  · -- one is a multiple of the steps here, and so is the double
    have hdvd : 2 ^ x.shift ∣ unit := by
      rw [unit_eq]
      exact Nat.pow_dvd_pow 2 hsmall
    obtain ⟨more, hunit⟩ := hdvd
    obtain ⟨hlow, hhigh⟩ := between_of_covers_whole hpos h
    have hwhole : n * unit = n * more * 2 ^ x.shift := by
      rw [Nat.mul_assoc, Nat.mul_comm more]
      exact congrArg (n * ·) hunit
    have hlow' : 4 * x.significand ≤ 4 * (n * more) + 2 := by
      refine Nat.le_of_mul_le_mul_right ?_ hstep
      rw [Nat.add_mul, Nat.mul_assoc, Nat.mul_assoc 4, ← hmagnitude, ← hwhole]
      exact hlow
    have hhigh' : 4 * (n * more) ≤ 4 * x.significand + 2 := by
      refine Nat.le_of_mul_le_mul_right ?_ hstep
      rw [Nat.add_mul, Nat.mul_assoc, Nat.mul_assoc 4, ← hmagnitude, ← hwhole]
      exact hhigh
    have hsame : x.significand = n * more := by omega
    rw [hmagnitude, hsame, ← hwhole]
    exact Nat.dvd_mul_left unit n

/-- A double of `10 ^ 21` or more covers no integer of 64 bits. -/
theorem lt_of_covers_whole (hpos : 0 < x.significand) (h : x.Covers (n * (4 * unit)))
    (hlarge : 10 ^ 21 * unit ≤ x.magnitude) : 2 ^ 64 < n := by
  have hstep : 2 ^ x.shift ≤ x.magnitude := Nat.le_mul_of_pos_left _ hpos
  obtain ⟨hlow, -⟩ := between_of_covers_whole hpos h
  have htwice : (2 * 10 ^ 21) * unit ≤ (4 * n) * unit := by
    rw [Nat.mul_assoc, Nat.mul_assoc]
    omega
  have hcount := Nat.le_of_mul_le_mul_right htwice unit_pos
  omega

/-- **A DOUBLE IS WRITTEN AS AN INTEGER OF 64 BITS** only if it is that integer. -/
theorem magnitude_of_writes_whole (hn : n ≤ 2 ^ 64) {negative : Bool}
    (h : Writes (caseText (.finite x)).toList negative n) : x.magnitude = n * unit := by
  obtain ⟨size, hwrites, hcovers, hexact⟩ := writes_caseText x
  obtain rfl : size = n := (hwrites.unique h).2
  by_cases hout : x.IsWrittenOut
  · have hcast : ((n * unit : Nat) : ℚ) = (x.magnitude : Nat) := by
      rw [Nat.cast_mul]
      exact hexact hout
    exact (Nat.cast_injective hcast).symm
  · -- not written out, it would have to be too large
    have hpos := significand_pos_of_not_isWrittenOut hout
    have hlarge : 10 ^ 21 * unit ≤ x.magnitude :=
      Nat.le_of_not_lt fun hsmall => hout ⟨dvd_of_covers_whole hpos hcovers, hsmall⟩
    exact absurd (lt_of_covers_whole hpos hcovers hlarge) (Nat.not_lt.2 hn)

end

/-- **DOUBLES THAT ARE WRITTEN ALIKE ARE THE SAME.** -/
theorem finite_eq_of_caseText_eq {x y : Finite} (h : caseText (.finite x) = caseText (.finite y)) : x = y := by
  obtain ⟨size, hwrites, hcovers, -⟩ := writes_caseText x
  obtain ⟨size', hwrites', hcovers', -⟩ := writes_caseText y
  rw [h] at hwrites
  obtain ⟨hnegative, rfl⟩ := hwrites.unique hwrites'
  exact Finite.ext_magnitude hnegative (Finite.magnitude_eq_of_covers hcovers hcovers')

end Binary64

end Conform
