import Conform.Dsl.Numeral
import Conform.Proofs.CutTexts

/-! # Numerals as they are written

    A numeral is SPELLED when its digits are digits of some script and none of its
    runs of digits is empty, and PLAIN when they are ASCII digits.  Reading takes
    exactly the spelled numeral off the front of a text in which it is followed by
    nothing or by a dash (`readNumeral?_of_isSpelled`), and a plain one has a value.
    Every numeral that is read is spelled, and in ASCII it is plain. -/

namespace Conform.Dsl

open Conform.Text

/-- The digits of ASCII are among the decimal digits of all scripts. -/
theorem isDecimalDigit_of_isDigit {c : Char} (h : isDigit c = true) : isDecimalDigit c = true := by
  unfold isDigit at h
  rw [Bool.and_eq_true, Nat.ble_eq, Nat.ble_eq] at h
  unfold isDecimalDigit
  rw [if_pos (by omega), Bool.and_eq_true, Nat.ble_eq, Nat.ble_eq]
  exact h

theorem isDigit_of_isDecimalDigit {c : Char} (hascii : c.toNat < 128)
    (h : isDecimalDigit c = true) : isDigit c = true := by
  unfold isDecimalDigit at h
  rw [if_pos hascii] at h
  exact h

/-! ## Characters that stand for themselves -/

/-- Whether the character stands for itself in a specification: it is no blank, no
    bracket, no operator, no separator and no mark. -/
def isBare (c : Char) : Bool := !isBlank c && !(['|', '<', '>', '=', ':', '!'].contains c)

theorem isBlank_of_isBare {c : Char} (h : isBare c = true) : isBlank c = false := by
  unfold isBare at h
  rw [Bool.and_eq_true, Bool.not_eq_true'] at h
  exact h.1

theorem unblank_of_isBare {text : Chars} (h : ∀ c ∈ text, isBare c = true) : Unblank text :=
  fun c hc => isBlank_of_isBare (h c hc)

/-- Nothing that is written bare has a meaning of its own in an expression. -/
theorem ne_of_isBare {c special : Char} (h : isBare c = true)
    (hs : special ∈ ['|', '<', '>', '=', ':', '!']) : c ≠ special := by
  rintro rfl
  unfold isBare at h
  rw [List.contains_iff_mem.2 hs, Bool.not_true, Bool.and_false] at h
  exact nomatch h

theorem isBare_of_isDigit {c : Char} (h : isDigit c = true) : isBare c = true := by
  have hspecial : ['|', '<', '>', '=', ':', '!'].any isDigit = false := by decide
  unfold isBare
  rw [isBlank_of_isDigit h, Bool.not_false, Bool.true_and, Bool.not_eq_true', Bool.eq_false_iff]
  intro hmem
  exact List.any_eq_false.1 hspecial c (List.contains_iff_mem.1 hmem) h

/-! ## Runs of digits -/

/-- Whether a text is at its end or goes on with a dash. -/
def stops : Chars → Bool
  | [] => true
  | c :: _ => c = '-'

/-- Where a numeral stops, no digit follows. -/
theorem head_of_stops {rest : Chars} (h : stops rest = true) :
    ∀ c ∈ rest.head?, isDecimalDigit c = false := by
  intro c hc
  cases rest with
  | nil => exact nomatch hc
  | cons d more =>
      obtain rfl : d = c := Option.some.inj hc
      obtain rfl : d = '-' := of_decide_eq_true h
      rfl

namespace Numeral

/-- The digits of the numeral are digits of some script, and no run of them is empty. -/
structure IsSpelled (numeral : Numeral) : Prop where
  whole_ne_nil : numeral.whole ≠ []
  whole_digits : ∀ c ∈ numeral.whole, isDecimalDigit c = true
  fraction_ne_nil : ∀ digits ∈ numeral.fraction, digits ≠ []
  fraction_digits : ∀ digits ∈ numeral.fraction, ∀ c ∈ digits, isDecimalDigit c = true

/-- The digits of the numeral are ASCII digits, and no run of them is empty. -/
structure IsPlain (numeral : Numeral) : Prop where
  whole_ne_nil : numeral.whole ≠ []
  whole_digits : ∀ c ∈ numeral.whole, isDigit c = true
  fraction_ne_nil : ∀ digits ∈ numeral.fraction, digits ≠ []
  fraction_digits : ∀ digits ∈ numeral.fraction, ∀ c ∈ digits, isDigit c = true

/-- The double nearest to the number that the digits write. -/
def value (numeral : Numeral) : Binary64 :=
  .ofDecimal numeral.negative (digitsValue (numeral.whole ++ numeral.fraction.getD []))
    (-((numeral.fraction.getD []).length : Int))

variable {numeral : Numeral}

theorem IsPlain.isSpelled (h : numeral.IsPlain) : numeral.IsSpelled :=
  ⟨h.whole_ne_nil, fun c hc => isDecimalDigit_of_isDigit (h.whole_digits c hc), h.fraction_ne_nil,
    fun digits hdigits c hc => isDecimalDigit_of_isDigit (h.fraction_digits digits hdigits c hc)⟩

/-- A plain numeral denotes a double, the nearest one. -/
theorem toBinary64?_of_isPlain (h : numeral.IsPlain) : numeral.toBinary64? = some numeral.value := by
  obtain ⟨negative, whole, fraction⟩ := numeral
  refine if_pos ?_
  rw [Bool.and_eq_true, List.all_eq_true, List.all_eq_true]
  refine ⟨h.whole_digits, ?_⟩
  cases fraction with
  | none =>
      intro c hc
      exact nomatch hc
  | some digits => exact h.fraction_digits digits rfl

/-! ## Reading -/

/-- **A FRACTION IS READ UP TO ITS LAST DIGIT**, and a point without digits belongs to none. -/
theorem readFraction_append {fraction : Option Chars} {rest : Chars}
    (hne : ∀ digits ∈ fraction, digits ≠ [])
    (hdigits : ∀ digits ∈ fraction, ∀ c ∈ digits, isDecimalDigit c = true)
    (hrest : stops rest = true) :
    readFraction (fractionText fraction ++ rest) = (fraction, rest) := by
  cases fraction with
  | none =>
      cases rest with
      | nil => rfl
      | cons c more =>
          obtain rfl : c = '-' := of_decide_eq_true hrest
          rfl
  | some digits =>
      obtain ⟨htake, hdrop⟩ := takeWhile_append_of_stop (hdigits digits rfl) (head_of_stops hrest)
      show (if ((digits ++ rest).takeWhile isDecimalDigit).isEmpty then _
        else (some ((digits ++ rest).takeWhile isDecimalDigit),
          (digits ++ rest).dropWhile isDecimalDigit)) = _
      rw [htake, hdrop, if_neg]
      intro hempty
      exact hne digits rfl (List.isEmpty_iff.1 hempty)

/-- The digits of a numeral, without its sign. -/
def unsigned (numeral : Numeral) : Chars := numeral.whole ++ fractionText numeral.fraction

theorem text_eq (numeral : Numeral) :
    numeral.text = (if numeral.negative then ['-'] else []) ++ numeral.unsigned :=
  List.append_assoc _ _ _

/-- What follows the sign is read up to where the numeral stops, in any script. -/
theorem readUnsigned?_of_isSpelled (h : numeral.IsSpelled) {rest : Chars} (hrest : stops rest = true)
    (negative : Bool) :
    readUnsigned? negative (numeral.unsigned ++ rest)
      = some (⟨negative, numeral.whole, numeral.fraction⟩, rest) := by
  have hhead : ∀ c ∈ (fractionText numeral.fraction ++ rest).head?, isDecimalDigit c = false := by
    cases numeral.fraction with
    | none => exact head_of_stops hrest
    | some digits =>
        intro c hc
        obtain rfl : '.' = c := Option.some.inj hc
        rfl
  obtain ⟨htake, hdrop⟩ := takeWhile_append_of_stop h.whole_digits hhead
  unfold readUnsigned? unsigned
  rw [List.append_assoc, htake, hdrop, readFraction_append h.fraction_ne_nil h.fraction_digits hrest,
    if_neg]
  intro hempty
  exact h.whole_ne_nil (List.isEmpty_iff.1 hempty)

theorem readUnsigned?_append (h : numeral.IsPlain) {rest : Chars} (hrest : stops rest = true)
    (negative : Bool) :
    readUnsigned? negative (numeral.unsigned ++ rest)
      = some (⟨negative, numeral.whole, numeral.fraction⟩, rest) :=
  readUnsigned?_of_isSpelled h.isSpelled hrest negative

/-- A plain numeral begins with a digit after its sign. -/
theorem exists_unsigned_eq_cons (h : numeral.IsPlain) :
    ∃ c more, numeral.unsigned = c :: more ∧ isDigit c = true := by
  obtain ⟨negative, whole, fraction⟩ := numeral
  cases whole with
  | nil => exact absurd rfl h.whole_ne_nil
  | cons c more => exact ⟨c, _, rfl, h.whole_digits c List.mem_cons_self⟩

/-- A numeral that begins with a digit has no sign. -/
theorem readNumeral?_of_isDecimalDigit {c : Char} (h : isDecimalDigit c = true) (more : Chars) :
    readNumeral? (c :: more) = readUnsigned? false (c :: more) := by
  have hc : c ≠ '-' := by
    rintro rfl
    exact absurd h (by decide)
  unfold readNumeral?
  split
  · next heq => exact absurd (List.cons.inj heq).1 hc
  · rfl

/-- **A SPELLED NUMERAL IS READ** off the front of a text where it ends. -/
theorem readNumeral?_of_isSpelled (h : numeral.IsSpelled) {rest : Chars} (hrest : stops rest = true) :
    readNumeral? (numeral.text ++ rest) = some (numeral, rest) := by
  have hread := readUnsigned?_of_isSpelled h hrest
  obtain ⟨negative, whole, fraction⟩ := numeral
  rw [text_eq]
  cases negative with
  | true => exact hread true
  | false =>
      cases whole with
      | nil => exact absurd rfl h.whole_ne_nil
      | cons c more =>
          refine (readNumeral?_of_isDecimalDigit (h.whole_digits c List.mem_cons_self) _).trans ?_
          exact hread false

/-- **A NUMERAL IS READ UP TO WHERE IT STOPS.** -/
theorem readNumeral?_append (h : numeral.IsPlain) {rest : Chars} (hrest : stops rest = true) :
    readNumeral? (numeral.text ++ rest) = some (numeral, rest) :=
  readNumeral?_of_isSpelled h.isSpelled hrest

/-- A spelled numeral is read from its own text. -/
theorem numeral?_of_isSpelled (h : numeral.IsSpelled) : numeral? numeral.text = some numeral := by
  have hread : readNumeral? (numeral.text ++ []) = some (numeral, []) := readNumeral?_of_isSpelled h rfl
  rw [List.append_nil] at hread
  unfold numeral?
  rw [hread]

theorem numeral?_text (h : numeral.IsPlain) : numeral? numeral.text = some numeral :=
  numeral?_of_isSpelled h.isSpelled

/-! ## Characters -/

theorem mem_fractionText {fraction : Option Chars} {c : Char} (h : c ∈ fractionText fraction) :
    c = '.' ∨ ∃ digits ∈ fraction, c ∈ digits := by
  cases fraction with
  | none => exact nomatch h
  | some digits => exact (List.mem_cons.1 h).imp id fun hc => ⟨digits, rfl, hc⟩

/-- A plain numeral consists of characters that stand for themselves. -/
theorem isBare_of_mem_text (h : numeral.IsPlain) {c : Char} (hc : c ∈ numeral.text) :
    isBare c = true := by
  rw [text_eq, unsigned, List.mem_append, List.mem_append] at hc
  rcases hc with hsign | hwhole | hfraction
  · cases hn : numeral.negative with
    | true =>
        rw [hn] at hsign
        obtain rfl := List.mem_singleton.1 hsign
        decide
    | false =>
        rw [hn] at hsign
        exact nomatch hsign
  · exact isBare_of_isDigit (h.whole_digits c hwhole)
  · rcases mem_fractionText hfraction with rfl | ⟨digits, hdigits, hmem⟩
    · decide
    · exact isBare_of_isDigit (h.fraction_digits digits hdigits c hmem)

theorem text_ne_nil (h : numeral.IsPlain) : numeral.text ≠ [] := by
  obtain ⟨c, more, hc, -⟩ := exists_unsigned_eq_cons h
  rw [text_eq, hc]
  exact List.append_ne_nil_of_right_ne_nil _ (List.cons_ne_nil _ _)

/-! ## In ASCII -/

/-- Whatever is read as a fraction has digits, and nothing else in it. -/
theorem decimal_of_readFraction {text digits rest : Chars}
    (h : readFraction text = (some digits, rest)) :
    digits ≠ [] ∧ ∀ c ∈ digits, isDecimalDigit c = true := by
  unfold readFraction at h
  split at h
  · next more =>
      split at h
      · exact nomatch congrArg Prod.fst h
      · next hne =>
          obtain rfl := Option.some.inj (congrArg Prod.fst h)
          refine ⟨fun hnil => hne (List.isEmpty_iff.2 hnil), ?_⟩
          exact List.all_eq_true.1 List.all_takeWhile
  · exact nomatch congrArg Prod.fst h

/-- Whatever is read as a numeral has digits before the point, and after it if there is one. -/
theorem decimal_of_readUnsigned? {negative : Bool} {text rest : Chars}
    (h : readUnsigned? negative text = some (numeral, rest)) :
    numeral.whole ≠ [] ∧ (∀ c ∈ numeral.whole, isDecimalDigit c = true)
      ∧ ∀ digits ∈ numeral.fraction, digits ≠ [] ∧ ∀ c ∈ digits, isDecimalDigit c = true := by
  unfold readUnsigned? at h
  split at h
  · exact nomatch h
  · next hne =>
      obtain ⟨rfl, rfl⟩ := Prod.mk.inj (Option.some.inj h)
      refine ⟨fun hnil => hne (List.isEmpty_iff.2 hnil), List.all_eq_true.1 List.all_takeWhile, ?_⟩
      intro digits hdigits
      exact decimal_of_readFraction (Prod.ext hdigits rfl)

/-- A numeral that is a whole text is spelled as the text. -/
theorem isSpelled_of_numeral? {text : Chars} (h : numeral? text = some numeral) :
    numeral.text = text ∧ numeral.IsSpelled := by
  have hread : readNumeral? text = some (numeral, []) := by
    unfold numeral? at h
    split at h
    · next hr =>
        obtain rfl := Option.some.inj h
        exact hr
    · exact nomatch h
  have htext : numeral.text = text := by
    have h1 := text_of_readNumeral? hread
    rw [List.append_nil] at h1
    exact h1
  have hdecimal : numeral.whole ≠ [] ∧ (∀ c ∈ numeral.whole, isDecimalDigit c = true)
      ∧ ∀ digits ∈ numeral.fraction, digits ≠ [] ∧ ∀ c ∈ digits, isDecimalDigit c = true := by
    unfold readNumeral? at hread
    split at hread
    · exact decimal_of_readUnsigned? hread
    · exact decimal_of_readUnsigned? hread
  obtain ⟨hne, hwhole, hfraction⟩ := hdecimal
  exact ⟨htext, hne, hwhole, fun digits hdigits => (hfraction digits hdigits).1,
    fun digits hdigits => (hfraction digits hdigits).2⟩

/-- A numeral that is a whole text in ASCII is plain. -/
theorem isPlain_of_numeral? {text : Chars} (hascii : ∀ c ∈ text, c.toNat < 128)
    (h : numeral? text = some numeral) : numeral.text = text ∧ numeral.IsPlain := by
  obtain ⟨htext, hspelled⟩ := isSpelled_of_numeral? h
  -- all decimal digits are read, but only ASCII ones stand in the text
  have hmem : ∀ c ∈ numeral.unsigned, c.toNat < 128 := by
    intro c hc
    refine hascii c ?_
    rw [← htext, text_eq]
    exact List.mem_append_right _ hc
  refine ⟨htext, hspelled.whole_ne_nil, ?_, hspelled.fraction_ne_nil, ?_⟩
  · intro c hc
    exact isDigit_of_isDecimalDigit (hmem c (List.mem_append_left _ hc)) (hspelled.whole_digits c hc)
  · intro digits hdigits c hc
    refine isDigit_of_isDecimalDigit (hmem c (List.mem_append_right _ ?_))
      (hspelled.fraction_digits digits hdigits c hc)
    have hf : numeral.fraction = some digits := hdigits
    rw [hf]
    exact List.mem_cons_of_mem _ hc

end Numeral

end Conform.Dsl
