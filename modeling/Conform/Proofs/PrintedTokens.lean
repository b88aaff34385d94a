import Conform.Json.Printer
import Conform.Proofs.CoveredValues
import Conform.Proofs.Decoding
import Conform.Proofs.Tokens

/-! # Printed tokens — numbers and strings are read as what they were printed for

    A number is printed as a NUMERAL: digits that no superfluous zero leads, and for a double
    a fraction or an exponent after them.  A numeral is read up to where it ends
    (`Numeral.readNumeral_unsigned`).  The digits of an integer write the integer; those of a
    double write a decimal that the double covers, so they are rounded to the double
    (`exists_numeral_float`).

    A string is printed character by character, and each character is read back by itself
    (`readString_escaped`). -/

namespace Conform.Json

open Text

/-! ## Numerals -/

/-- A number before the text ends there: nothing follows, or what ends an item of a list or
    a member of an object. -/
def EndsNumber (text : Chars) : Prop := ∀ c ∈ text.head?, c = ',' ∨ c = ']' ∨ c = '\x7d'

/-- What ends a number is no part of one. -/
theorem ne_part_of_endsNumber {c : Char} (h : c = ',' ∨ c = ']' ∨ c = '\x7d') :
    isDigit c = false ∧ c ≠ '.' ∧ (c = 'e' || c = 'E') = false := by
  rcases h with rfl | rfl | rfl <;> exact ⟨rfl, by decide, rfl⟩

namespace Numeral

/-- A fraction as it is written. -/
def fractionText : Option Chars → Chars
  | none => []
  | some digits => '.' :: digits

/-- An exponent as it is written, always with a sign. -/
def exponentText : Option (Bool × Chars) → Chars
  | none => []
  | some (negative, digits) => 'e' :: (if negative then '-' else '+') :: digits

/-- A numeral as it is written, without its sign. -/
def unsigned (n : Numeral) : Chars :=
  n.whole ++ (fractionText n.fraction ++ exponentText n.exponent)

/-- There are digits wherever there must be some, and no superfluous zero leads. -/
structure IsWritten (n : Numeral) : Prop where
  whole : AllDigits n.whole
  leading : n.whole = ['0'] ∨ ∃ c rest, n.whole = c :: rest ∧ c ≠ '0'
  fraction : ∀ digits ∈ n.fraction, AllDigits digits ∧ digits ≠ []
  exponent : ∀ part ∈ n.exponent, AllDigits part.2 ∧ part.2 ≠ []

section

variable {negative : Bool} {whole rest : Chars} {fraction : Option Chars}
  {exponent : Option (Bool × Chars)}

/-- What follows the fraction is neither a digit nor a point. -/
theorem head_exponentText (exponent : Option (Bool × Chars)) (hrest : EndsNumber rest) :
    ∀ c ∈ (exponentText exponent ++ rest).head?, isDigit c = false ∧ c ≠ '.' := by
  intro c hc
  cases exponent with
  | none =>
      obtain ⟨hdigit, hpoint, -⟩ := ne_part_of_endsNumber (hrest c hc)
      exact ⟨hdigit, hpoint⟩
  | some part =>
      obtain rfl : 'e' = c := Option.some.inj hc
      exact ⟨by decide, by decide⟩

/-- What follows the whole part is no digit. -/
theorem head_fractionText (hrest : EndsNumber rest) :
    ∀ c ∈ (fractionText fraction ++ (exponentText exponent ++ rest)).head?, isDigit c = false := by
  cases fraction with
  | none => exact fun c hc => (head_exponentText exponent hrest c hc).1
  | some digits =>
      intro c hc
      obtain rfl : '.' = c := Option.some.inj hc
      decide

/-- An exponent is read up to its last digit. -/
theorem readExponent_digits (h : AllDigits whole) (hne : whole ≠ []) (hrest : EndsNumber rest) :
    readExponent ((if negative then '-' else '+') :: (whole ++ rest)) = .ok ((negative, whole), rest) := by
  obtain ⟨htake, hdrop⟩ := takeWhile_append_of_stop h
    fun c hc => (ne_part_of_endsNumber (hrest c hc)).1
  obtain ⟨c, more, rfl⟩ := List.exists_cons_of_ne_nil hne
  have hdigit : isDigit c = true := h c List.mem_cons_self
  cases negative with
  | false =>
      show (if isDigit c then Except.ok ((false, ((c :: more) ++ rest).takeWhile isDigit),
        ((c :: more) ++ rest).dropWhile isDigit) else _) = _
      rw [if_pos hdigit, htake, hdrop]
  | true =>
      show (if isDigit c then Except.ok ((true, ((c :: more) ++ rest).takeWhile isDigit),
        ((c :: more) ++ rest).dropWhile isDigit) else _) = _
      rw [if_pos hdigit, htake, hdrop]

/-- An exponent is read if there is one. -/
theorem readExponent?_text (h : ∀ part ∈ exponent, AllDigits part.2 ∧ part.2 ≠ [])
    (hrest : EndsNumber rest) : readExponent? (exponentText exponent ++ rest) = .ok (exponent, rest) := by
  cases exponent with
  | none =>
      cases rest with
      | nil => rfl
      | cons c more =>
          obtain ⟨-, -, hletter⟩ := ne_part_of_endsNumber (hrest c rfl)
          exact if_neg (by rw [hletter]; exact Bool.false_ne_true)
  | some part =>
      obtain ⟨negative, digits⟩ := part
      obtain ⟨hdigits, hne⟩ := h _ rfl
      show (readExponent ((if negative then '-' else '+') :: (digits ++ rest))).map _ = _
      rw [readExponent_digits hdigits hne hrest]
      rfl

/-- What follows the whole part is read up to where the numeral ends. -/
theorem readTail_text (hfraction : ∀ digits ∈ fraction, AllDigits digits ∧ digits ≠ [])
    (hexponent : ∀ part ∈ exponent, AllDigits part.2 ∧ part.2 ≠ []) (hrest : EndsNumber rest) :
    readTail negative whole (fractionText fraction ++ (exponentText exponent ++ rest))
      = .ok (⟨negative, whole, fraction, exponent⟩, rest) := by
  have hread := readExponent?_text hexponent hrest
  cases fraction with
  | none =>
      show readTail negative whole (exponentText exponent ++ rest) = _
      unfold readTail
      split
      · next more heq =>
        have hpoint := (head_exponentText exponent hrest '.' (by rw [heq]; rfl)).2
        exact absurd rfl hpoint
      · rw [hread]
        rfl
  | some digits =>
      obtain ⟨hdigits, hne⟩ := hfraction digits rfl
      obtain ⟨htake, hdrop⟩ := takeWhile_append_of_stop hdigits
        fun c hc => (head_exponentText exponent hrest c hc).1
      obtain ⟨c, more, rfl⟩ := List.exists_cons_of_ne_nil hne
      have hdigit : isDigit c = true := hdigits c List.mem_cons_self
      show (if isDigit c then
          (readExponent? (((c :: more) ++ (exponentText exponent ++ rest)).dropWhile isDigit)).map fun r =>
            ((⟨negative, whole, some (((c :: more) ++ (exponentText exponent ++ rest)).takeWhile isDigit),
              r.1⟩ : Numeral), r.2)
        else _) = _
      rw [if_pos hdigit, htake, hdrop, hread]
      rfl

/-- The whole part is read up to its last digit. -/
theorem readNumeral_whole (h : AllDigits whole)
    (hleading : whole = ['0'] ∨ ∃ c more, whole = c :: more ∧ c ≠ '0')
    (hrest : ∀ c ∈ rest.head?, isDigit c = false) :
    readNumeral negative (whole ++ rest) = readTail negative whole rest := by
  rcases hleading with rfl | ⟨c, more, rfl, hc⟩
  · cases rest with
    | nil => rfl
    | cons c more =>
        show (if isDigit c then _ else readTail negative ['0'] (c :: more)) = _
        rw [hrest c rfl]
        exact if_neg Bool.false_ne_true
  · obtain ⟨htake, hdrop⟩ := takeWhile_append_of_stop h hrest
    have hdigit : isDigit c = true := h c List.mem_cons_self
    rw [List.cons_append] at htake hdrop ⊢
    unfold readNumeral
    split
    · contradiction
    · next heq => exact absurd (List.cons.inj heq).1 hc
    · next heq =>
      obtain ⟨rfl, rfl⟩ := List.cons.inj heq
      rw [if_pos hdigit, htake, hdrop]

end

/-- **A NUMERAL IS READ UP TO WHERE IT ENDS.** -/
theorem readNumeral_unsigned {n : Numeral} (h : n.IsWritten) {rest : Chars} (hrest : EndsNumber rest) :
    readNumeral n.negative (n.unsigned ++ rest) = .ok (n, rest) := by
  rw [unsigned, List.append_assoc, List.append_assoc,
    readNumeral_whole h.whole h.leading (head_fractionText hrest),
    readTail_text h.fraction h.exponent hrest]

/-! ## What numerals write -/

/-- The power of ten that the exponent writes. -/
def shift (n : Numeral) : Int :=
  match n.exponent with
  | none => 0
  | some (negative, digits) => if negative then -(digitsValue digits : Int) else (digitsValue digits : Int)

/-- The decimal that a numeral writes after its sign. -/
def decimal (n : Numeral) : Decimal :=
  ⟨digitsValue (n.whole ++ n.fraction.getD []), n.shift - ((n.fraction.getD []).length : Int)⟩

/-- A numeral with a fraction or an exponent is the double that covers what it writes. -/
theorem value_eq_float {n : Numeral} {x : Binary64.Finite}
    (hparts : n.fraction.isSome = true ∨ n.exponent.isSome = true) (hnegative : n.negative = x.negative)
    (hcovers : x.Covers (n.decimal.value * (4 * Binary64.unit))) : n.value = .ok (.float x) := by
  have hplain : (n.fraction.isNone && n.exponent.isNone) = false := by
    rcases hparts with hfraction | hexponent
    · rw [Option.isNone_eq_false_iff.2 hfraction]
      rfl
    · rw [Option.isNone_eq_false_iff.2 hexponent, Bool.and_false]
  have hround : n.toBinary64 = .finite x := by
    have hdecimal := Binary64.ofDecimal_eq_of_covers hcovers
    rw [← hnegative] at hdecimal
    exact hdecimal
  unfold value
  simp only [hplain, Bool.false_and, Bool.false_eq_true, if_false, hround]

end Numeral

/-! ## Integers -/

/-- The digits of a number other than zero have no zero in front. -/
theorem exists_toDigits_eq_cons {n : Nat} (h : n ≠ 0) :
    ∃ c rest, Nat.toDigits 10 n = c :: rest ∧ c ≠ '0' := by
  induction n using Nat.strongRecOn with
  | ind n ih =>
      by_cases hsmall : n < 10
      · have hdigit : ∀ digit < 10, digit ≠ 0 → Nat.digitChar digit ≠ '0' := by decide
        exact ⟨n.digitChar, [], Nat.toDigits_of_lt_base hsmall, hdigit n hsmall h⟩
      · obtain ⟨c, rest, hdigits, hc⟩ := ih (n / 10) (by omega) (by omega)
        rw [Nat.toDigits_of_base_le (by decide) (Nat.le_of_not_lt hsmall), hdigits]
        exact ⟨c, _, rfl, hc⟩

/-- The digits of a number have no superfluous zero in front. -/
theorem leading_toDigits (n : Nat) :
    Nat.toDigits 10 n = ['0'] ∨ ∃ c rest, Nat.toDigits 10 n = c :: rest ∧ c ≠ '0' := by
  by_cases hn : n = 0
  · subst hn
    exact .inl rfl
  · exact .inr (exists_toDigits_eq_cons hn)

/-- **AN INTEGER IS PRINTED AS A NUMERAL THAT IS THE INTEGER**, if it has 64 bits. -/
theorem exists_numeral_integer {n : Int} (hlow : -2 ^ 63 ≤ n) (hhigh : n < 2 ^ 64) :
    ∃ numeral : Numeral, numeral.IsWritten ∧ (toString n).toList = sign numeral.negative ++ numeral.unsigned
      ∧ numeral.value = .ok (.integer n) := by
  refine ⟨⟨decide (n < 0), Nat.toDigits 10 n.natAbs, none, none⟩, ⟨allDigits_toDigits _,
    leading_toDigits _, nofun, nofun⟩, ?_, ?_⟩
  · rw [toList_toString_int, Place.toList_toString]
    exact congrArg _ (List.append_nil _).symm
  · unfold Numeral.value
    simp only [digitsValue_toDigits, Option.isNone_none, Bool.and_true, Bool.true_and, Nat.pow_eq]
    by_cases hsign : n < 0
    · have hnot : ¬((!decide (n < 0) && decide (n.natAbs < 2 ^ 64)) = true) := by
        simp [hsign]
      have hyes : (decide (n < 0) && decide (0 < n.natAbs) && decide (n.natAbs ≤ 2 ^ 63)) = true := by
        simp only [Bool.and_eq_true, decide_eq_true_eq]
        omega
      rw [if_neg hnot, if_pos hyes, Int.ofNat_natAbs_of_nonpos (Int.le_of_lt hsign), Int.neg_neg]
    · have hyes : (!decide (n < 0) && decide (n.natAbs < 2 ^ 64)) = true := by
        simp only [Bool.and_eq_true, Bool.not_eq_true', decide_eq_true_eq, decide_eq_false_iff_not]
        omega
      rw [if_pos hyes, Int.natAbs_of_nonneg (Int.not_lt.1 hsign)]

/-! ## Doubles -/

/-- The numeral writes the decimal, and is none of an integer. -/
structure Numeral.WritesDecimal (n : Numeral) (d : Decimal) : Prop where
  written : n.IsWritten
  parts : n.fraction.isSome = true ∨ n.exponent.isSome = true
  value : n.decimal.value = d.value

section

variable {d : Decimal} {digits : Chars} (negative : Bool) (hall : AllDigits digits)
  (hvalue : digitsValue digits = d.digits)

include hall hvalue

/-- The point behind all digits and the zeros after them. -/
theorem writesDecimal_whole (hleading : ∃ c rest, digits = c :: rest ∧ c ≠ '0') {places : Nat}
    (hplaces : d.exponent = places) :
    Numeral.WritesDecimal ⟨negative, digits ++ List.replicate places '0', some ['0'], none⟩ d where
  written :=
    { whole := hall.append (allDigits_zeros places)
      leading := by
        obtain ⟨c, rest, rfl, hc⟩ := hleading
        exact .inr ⟨c, rest ++ List.replicate places '0', rfl, hc⟩
      fraction := by
        rintro fraction hfraction
        obtain rfl : ['0'] = fraction := Option.some.inj hfraction
        exact ⟨allDigits_zeros 1, List.cons_ne_nil _ _⟩
      exponent := nofun }
  parts := .inl rfl
  value := by
    have hnumber : digitsValue (digits ++ List.replicate places '0' ++ ['0'])
        = d.digits * 10 ^ (places + 1) := by
      rw [List.append_assoc, ← List.replicate_succ', digitsValue_append, digitsValue_replicate_zero,
        List.length_replicate, hvalue, Nat.add_zero]
    show ((digitsValue (digits ++ List.replicate places '0' ++ ['0']) : Nat) : ℚ) * 10 ^ (-1 : Int) = _
    rw [hnumber, Decimal.value, hplaces, zpow_natCast, zpow_neg_one]
    push_cast
    ring

/-- The point between two digits. -/
theorem writesDecimal_between (hleading : ∃ c rest, digits = c :: rest ∧ c ≠ '0') {places : Nat}
    (hplaces : d.exponent = -(places : Int)) (hsome : places ≠ 0) (hfew : places < digits.length) :
    Numeral.WritesDecimal ⟨negative, digits.take (digits.length - places),
      some (digits.drop (digits.length - places)), none⟩ d where
  written :=
    { whole := fun c hc => hall c (List.mem_of_mem_take hc)
      leading := by
        obtain ⟨c, rest, rfl, hc⟩ := hleading
        obtain ⟨more, hmore⟩ := Nat.exists_eq_succ_of_ne_zero (Nat.sub_ne_zero_of_lt hfew)
        refine .inr ⟨c, rest.take more, ?_, hc⟩
        rw [hmore]
        rfl
      fraction := by
        rintro fraction hfraction
        obtain rfl := Option.some.inj hfraction
        refine ⟨fun c hc => hall c (List.mem_of_mem_drop hc), List.ne_nil_of_length_pos ?_⟩
        rw [List.length_drop]
        omega
      exponent := nofun }
  parts := .inl rfl
  value := by
    show ((digitsValue (digits.take (digits.length - places) ++ digits.drop (digits.length - places)) : Nat) : ℚ)
      * 10 ^ (0 - ((digits.drop (digits.length - places)).length : Int)) = _
    rw [List.take_append_drop, List.length_drop, Nat.sub_sub_self (Nat.le_of_lt hfew), hvalue, zero_sub,
      Decimal.value, hplaces]

/-- The point before all digits, with zeros between. -/
theorem writesDecimal_before (hne : digits ≠ []) {places : Nat} (hplaces : d.exponent = -(places : Int))
    (hmany : digits.length ≤ places) :
    Numeral.WritesDecimal
      ⟨negative, ['0'], some (List.replicate (places - digits.length) '0' ++ digits), none⟩ d where
  written :=
    { whole := allDigits_zeros 1
      leading := .inl rfl
      fraction := by
        rintro fraction hfraction
        obtain rfl := Option.some.inj hfraction
        exact ⟨(allDigits_zeros _).append hall, List.append_ne_nil_of_right_ne_nil _ hne⟩
      exponent := nofun }
  parts := .inl rfl
  value := by
    have hnumber : digitsValue (['0'] ++ (List.replicate (places - digits.length) '0' ++ digits))
        = d.digits := by
      rw [← List.append_assoc, List.singleton_append, ← List.replicate_succ, digitsValue_append,
        digitsValue_replicate_zero, Nat.zero_mul, Nat.zero_add, hvalue]
    show ((digitsValue (['0'] ++ (List.replicate (places - digits.length) '0' ++ digits)) : Nat) : ℚ)
      * 10 ^ (0 - ((List.replicate (places - digits.length) '0' ++ digits).length : Int)) = _
    rw [hnumber, List.length_append, List.length_replicate, Nat.sub_add_cancel hmany, zero_sub,
      Decimal.value, hplaces]

/-- The point behind the first digit, and an exponent for where it stands. -/
theorem writesDecimal_scientific {c : Char} {rest : Chars} (hleading : digits = c :: rest) (hc : c ≠ '0')
    {leading : Int} (hexponent : leading = d.exponent + rest.length) :
    Numeral.WritesDecimal ⟨negative, [c], if rest.isEmpty then none else some rest,
      some (decide (leading < 0), Nat.toDigits 10 leading.natAbs)⟩ d where
  written :=
    { whole := by
        rintro other hother
        rw [List.mem_singleton.1 hother]
        exact hall c (by rw [hleading]; exact List.mem_cons_self)
      leading := .inr ⟨c, [], rfl, hc⟩
      fraction := by
        rintro fraction hfraction
        split at hfraction
        · cases hfraction
        · next hempty =>
          obtain rfl := Option.some.inj hfraction
          refine ⟨fun other hother => hall other ?_, fun hnil => hempty (List.isEmpty_iff.2 hnil)⟩
          rw [hleading]
          exact List.mem_cons_of_mem _ hother
      exponent := by
        rintro part hpart
        obtain rfl := Option.some.inj hpart
        exact ⟨allDigits_toDigits _, Nat.toDigits_ne_nil⟩ }
  parts := .inr rfl
  value := by
    have hfraction : (if rest.isEmpty then none else some rest).getD [] = rest := by
      split
      · next hempty => exact (List.isEmpty_iff.1 hempty).symm
      · rfl
    have hshift : (if decide (leading < 0) then -(digitsValue (Nat.toDigits 10 leading.natAbs) : Int)
        else (digitsValue (Nat.toDigits 10 leading.natAbs) : Int)) = leading := by
      rw [digitsValue_toDigits]
      split
      · next h => rw [Int.ofNat_natAbs_of_nonpos (Int.le_of_lt (of_decide_eq_true h)), Int.neg_neg]
      · next h => exact Int.natAbs_of_nonneg (Int.not_lt.1 fun hlt => h (decide_eq_true hlt))
    unfold Numeral.decimal Numeral.shift Decimal.value
    simp only [hfraction, hshift]
    rw [List.singleton_append, ← hleading, hvalue, hexponent, add_sub_cancel_right]

end

section

variable (negative : Bool) {d : Decimal} (hdigits : d.digits ≠ 0)

include hdigits

/-- A decimal that is not zero is printed in positions as a numeral that writes it. -/
theorem exists_numeral_positional :
    ∃ n : Numeral, n.negative = negative ∧ n.WritesDecimal d
      ∧ (d.positional ".0").toList = n.unsigned := by
  obtain ⟨c, rest, hleading, hc⟩ := exists_toDigits_eq_cons hdigits
  have hall := allDigits_toDigits d.digits
  have hvalue := digitsValue_toDigits d.digits
  unfold Decimal.positional Decimal.zeros
  generalize Nat.toDigits 10 d.digits = digits at hleading hall hvalue
  dsimp only
  by_cases hexponent : 0 ≤ d.exponent
  · obtain ⟨places, hplaces⟩ := Int.eq_ofNat_of_zero_le hexponent
    refine ⟨_, rfl, writesDecimal_whole negative hall hvalue ⟨c, rest, hleading, hc⟩ hplaces, ?_⟩
    rw [if_pos hexponent, hplaces, Int.toNat_natCast]
    simp [Numeral.unsigned, Numeral.fractionText, Numeral.exponentText]
  · obtain ⟨places, hplaces⟩ := Int.exists_eq_neg_ofNat (Int.not_le.1 hexponent).le
    rw [if_neg hexponent, hplaces, Int.natAbs_neg, Int.natAbs_natCast]
    -- the point falls between the digits, or zeros have to go before them
    by_cases hfew : places < digits.length
    · refine ⟨_, rfl, writesDecimal_between negative hall hvalue ⟨c, rest, hleading, hc⟩ hplaces
        (by omega) hfew, ?_⟩
      rw [if_pos hfew]
      simp [Numeral.unsigned, Numeral.fractionText, Numeral.exponentText]
    · have hne : digits ≠ [] := by
        rw [hleading]
        exact List.cons_ne_nil _ _
      refine ⟨_, rfl, writesDecimal_before negative hall hvalue hne hplaces (Nat.le_of_not_lt hfew), ?_⟩
      rw [if_neg hfew]
      simp [Numeral.unsigned, Numeral.fractionText, Numeral.exponentText]

/-- So it is printed with an exponent, which counts from behind the first digit. -/
theorem exists_numeral_scientific :
    ∃ n : Numeral, n.negative = negative ∧ n.WritesDecimal d ∧ d.scientific.toList = n.unsigned := by
  obtain ⟨c, rest, hleading, hc⟩ := exists_toDigits_eq_cons hdigits
  have hplace : d.leading = d.exponent + rest.length := by
    unfold Decimal.leading Decimal.width
    rw [hleading, List.length_cons]
    push_cast
    omega
  refine ⟨_, rfl, writesDecimal_scientific negative (allDigits_toDigits d.digits)
    (digitsValue_toDigits d.digits) hleading hc hplace, ?_⟩
  have hmark : ((if d.leading < 0 then "e-" else "e+") ++ toString d.leading.natAbs).toList
      = Numeral.exponentText (some (decide (d.leading < 0), Nat.toDigits 10 d.leading.natAbs)) := by
    rw [String.toList_append, Place.toList_toString]
    by_cases hsign : d.leading < 0
    · rw [if_pos hsign, decide_eq_true hsign]
      rfl
    · rw [if_neg hsign, decide_eq_false hsign]
      rfl
  unfold Decimal.scientific Numeral.unsigned
  rw [hleading]
  cases rest with
  | nil =>
      dsimp only
      rw [String.append_assoc, String.toList_append, String.toList_ofList, hmark]
      rfl
  | cons next more =>
      dsimp only
      rw [String.append_assoc, String.toList_append, String.toList_ofList, hmark]
      rfl

end

/-- The shortest digits of a double other than zero are not zero. -/
theorem digits_shortest_ne_zero {x : Binary64.Finite} (hzero : x.isZero = false)
    (hcovers : x.Covers ((x.shortest .toEven).value * (4 * Binary64.unit))) :
    (x.shortest .toEven).digits ≠ 0 := by
  intro hdigits
  rw [Binary64.eq_zero_of_covers_zero hdigits hcovers] at hzero
  exact Bool.false_ne_true (show false = true from hzero.symm)

/-- **A DOUBLE IS PRINTED AS A NUMERAL THAT IS THE DOUBLE.** -/
theorem exists_numeral_float (x : Binary64.Finite) :
    ∃ n : Numeral, n.IsWritten ∧ x.numberText.toList = sign n.negative ++ n.unsigned
      ∧ n.value = .ok (.float x) := by
  unfold Binary64.Finite.numberText
  dsimp only
  rw [String.toList_append, toList_signText]
  cases hzero : x.isZero with
  | true =>
      have hmagnitude : x.magnitude = 0 := by
        unfold Binary64.Finite.magnitude
        rw [eq_of_beq hzero, Nat.zero_mul]
      have hwritten : Numeral.IsWritten ⟨x.negative, ['0'], some ['0'], none⟩ :=
        { whole := allDigits_zeros 1
          leading := .inl rfl
          fraction := by
            rintro fraction hfraction
            obtain rfl : ['0'] = fraction := Option.some.inj hfraction
            exact ⟨allDigits_zeros 1, List.cons_ne_nil _ _⟩
          exponent := nofun }
      rw [if_pos rfl]
      refine ⟨_, hwritten, rfl, Numeral.value_eq_float (.inl rfl) rfl ?_⟩
      have hcovers := x.covers_center
      have hvalue : (Numeral.decimal ⟨x.negative, ['0'], some ['0'], none⟩).value = 0 := zero_mul _
      rw [hmagnitude, Nat.cast_zero, mul_zero] at hcovers
      rwa [hvalue, zero_mul]
  | false =>
      have hpos : 0 < x.significand := Nat.pos_of_ne_zero (ne_of_beq_false hzero)
      have hcovers := Binary64.Finite.covers_shortest .toEven hpos
      have hdigits := digits_shortest_ne_zero hzero hcovers
      rw [if_neg Bool.false_ne_true]
      split
      · obtain ⟨n, hnegative, hwrites, htext⟩ := exists_numeral_positional x.negative hdigits
        refine ⟨n, hwrites.written, by rw [htext, hnegative],
          Numeral.value_eq_float hwrites.parts hnegative ?_⟩
        rwa [hwrites.value]
      · obtain ⟨n, hnegative, hwrites, htext⟩ := exists_numeral_scientific x.negative hdigits
        refine ⟨n, hwrites.written, by rw [htext, hnegative],
          Numeral.value_eq_float hwrites.parts hnegative ?_⟩
        rwa [hwrites.value]

/-! ## Strings -/

/-- The digit of a number below sixteen is read as the number. -/
theorem hexDigit?_hexDigit {n : Nat} (h : n < 16) : hexDigit? (hexDigit n) = some n := by
  revert n
  decide

/-- What an escaped control character is read as. -/
theorem readHex_control {n : Nat} (h : n < 0x20) (rest : Chars) :
    readHex ('0' :: '0' :: hexDigit (n / 16) :: hexDigit (n % 16) :: rest) = .ok (n, rest) := by
  have hzero : hexDigit? '0' = some 0 := rfl
  rw [readHex, hzero, hexDigit?_hexDigit (by omega), hexDigit?_hexDigit (Nat.mod_lt n (by decide))]
  dsimp only
  rw [Nat.zero_mul, Nat.zero_add, Nat.div_add_mod']

/-- A control character without a letter of its own is escaped by its code, which is no
    surrogate. -/
theorem readEscape_control {c : Char} (h : c.toNat < 0x20) (rest : Chars) :
    readEscape ('u' :: '0' :: '0' :: hexDigit (c.toNat / 16) :: hexDigit (c.toNat % 16) :: rest)
      = .ok (c, rest) := by
  have hlow : ¬(0xdc00 ≤ c.toNat ∧ c.toNat ≤ 0xdfff) := by omega
  have hhigh : ¬(0xd800 ≤ c.toNat ∧ c.toNat ≤ 0xdbff) := by omega
  unfold readEscape
  simp only [readHex_control h]
  show (if 0xdc00 ≤ c.toNat ∧ c.toNat ≤ 0xdfff then Except.error SyntaxFault.loneSurrogate
    else if 0xd800 ≤ c.toNat ∧ c.toNat ≤ 0xdbff then readLowSurrogate c.toNat rest
    else .ok (Char.ofNat c.toNat, rest)) = _
  rw [if_neg hlow, if_neg hhigh, Char.ofNat_toNat]

/-- The characters that have an escape of one letter. -/
theorem readEscape_short {c letter : Char} (h : shortEscape? letter = some c) (hletter : letter ≠ 'u')
    (rest : Chars) : readEscape (letter :: rest) = .ok (c, rest) := by
  unfold readEscape
  split
  · contradiction
  · next heq => exact absurd (List.cons.inj heq).1 hletter
  · next heq =>
    obtain ⟨rfl, rfl⟩ := List.cons.inj heq
    rw [h]

/-- A character stands for itself, or a backslash and an escape stand for it. -/
theorem escape_cases (c : Char) :
    (escape c = [c] ∧ c ≠ '"' ∧ c ≠ '\\' ∧ 0x20 ≤ c.toNat)
      ∨ ∃ body, escape c = '\\' :: body ∧ ∀ rest, readEscape (body ++ rest) = .ok (c, rest) := by
  unfold escape
  by_cases hquote : c = '"'
  · subst hquote
    exact .inr ⟨['"'], rfl, readEscape_short rfl (by decide)⟩
  by_cases hslash : c = '\\'
  · subst hslash
    exact .inr ⟨['\\'], rfl, readEscape_short rfl (by decide)⟩
  rw [if_neg hquote, if_neg hslash]
  by_cases hcontrol : c.toNat < 0x20
  · rw [if_pos hcontrol]
    right
    have hc := Char.ofNat_toNat c
    split
    · next h => rw [h] at hc; exact ⟨['b'], rfl, hc ▸ readEscape_short rfl (by decide)⟩
    · next h => rw [h] at hc; exact ⟨['t'], rfl, hc ▸ readEscape_short rfl (by decide)⟩
    · next h => rw [h] at hc; exact ⟨['n'], rfl, hc ▸ readEscape_short rfl (by decide)⟩
    · next h => rw [h] at hc; exact ⟨['f'], rfl, hc ▸ readEscape_short rfl (by decide)⟩
    · next h => rw [h] at hc; exact ⟨['r'], rfl, hc ▸ readEscape_short rfl (by decide)⟩
    · exact ⟨_, rfl, readEscape_control hcontrol⟩
  · rw [if_neg hcontrol]
    exact .inl ⟨rfl, hquote, hslash, Nat.le_of_not_lt hcontrol⟩

/-- **A CHARACTER IS READ BACK BY ITSELF**, escaped or not. -/
theorem readStringFrom_escape (c : Char) (budget : Nat) (rest done : Chars) :
    readStringFrom (budget + 1) (escape c ++ rest) done = readStringFrom budget rest (c :: done) := by
  rcases escape_cases c with ⟨hself, hquote, hslash, hplain⟩ | ⟨body, hbody, hread⟩
  · rw [hself, List.singleton_append, readStringFrom, if_neg hquote, if_neg hslash,
      if_neg (Nat.not_lt.2 hplain)]
  · rw [hbody, List.cons_append, readStringFrom, if_neg (by decide), if_pos rfl, hread]

/-- Characters are read back one after another, as long as the budget lasts. -/
theorem readStringFrom_escaped (text : Chars) (spare : Nat) (rest done : Chars) :
    readStringFrom (text.length + (spare + 1)) (text.flatMap escape ++ '"' :: rest) done
      = .ok (String.ofList (done.reverse ++ text), rest) := by
  induction text generalizing done with
  | nil =>
      rw [List.length_nil, Nat.zero_add, List.append_nil]
      rfl
  | cons c text ih =>
      rw [List.length_cons, Nat.add_right_comm, List.flatMap_cons, List.append_assoc,
        readStringFrom_escape, ih, List.reverse_cons, List.append_assoc, List.singleton_append]

/-- Escaping leaves no character out, so the length of the text is budget enough. -/
theorem length_le_length_escaped (text : Chars) : text.length ≤ (text.flatMap escape).length := by
  induction text with
  | nil => exact Nat.le_refl 0
  | cons c text ih =>
      have hone : 0 < (escape c).length := by
        rcases escape_cases c with ⟨hself, -⟩ | ⟨body, hbody, -⟩
        · rw [hself]
          exact Nat.one_pos
        · rw [hbody]
          exact Nat.succ_pos _
      rw [List.flatMap_cons, List.length_append, List.length_cons]
      omega

/-- **A STRING IS READ BACK FROM ITS ESCAPED CHARACTERS.** -/
theorem readString_escaped (text : String) (rest : Chars) :
    readString (text.toList.flatMap escape ++ '"' :: rest) = .ok (text, rest) := by
  have hlength := length_le_length_escaped text.toList
  obtain ⟨spare, hspare⟩ : ∃ spare, (text.toList.flatMap escape ++ '"' :: rest).length + 1
      = text.toList.length + (spare + 1) := by
    refine ⟨(text.toList.flatMap escape ++ '"' :: rest).length - text.toList.length, ?_⟩
    rw [List.length_append]
    omega
  unfold readString
  rw [hspare, readStringFrom_escaped, List.reverse_nil, List.nil_append, String.ofList_toList]

end Conform.Json
