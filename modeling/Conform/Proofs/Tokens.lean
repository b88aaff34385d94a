import Conform.Proofs.Ensuring

/-! # Tokens — strings and numbers that are read or skipped

    A string or a number is read for what it denotes, or skipped for its form alone.
    What can be read can be skipped, and ends at the same character; what can only be
    skipped has the form but denotes nothing, such as half of a surrogate pair.

    Each token is read from what follows its first character, and leaves less text. -/

namespace Conform.Json

open Conform.Text (Chars isDigit)

/-! ## Blanks -/

/-- Blanks that were passed over are not passed over again. -/
theorem skipSpace_skipSpace (text : Chars) : skipSpace (skipSpace text) = skipSpace text := by
  induction text with
  | nil => rfl
  | cons c rest ih =>
      by_cases hc : isSpace c = true
      · rw [show skipSpace (c :: rest) = skipSpace rest from List.dropWhile_cons_of_pos hc, ih]
      · have hstop : skipSpace (c :: rest) = c :: rest := List.dropWhile_cons_of_neg hc
        rw [hstop, hstop]

theorem length_skipSpace_le (text : Chars) : (skipSpace text).length ≤ text.length :=
  (List.dropWhile_suffix isSpace).length_le

theorem length_lt_of_skipSpace {text rest : Chars} {c : Char} (h : skipSpace text = c :: rest) :
    rest.length < text.length := by
  have hle := length_skipSpace_le text
  rw [h] at hle
  exact hle

/-- A text begins with no blank after the blanks were passed over. -/
theorem skipSpace_of_skipSpace_eq {text rest : Chars} {c : Char} (h : skipSpace text = c :: rest) :
    skipSpace (c :: rest) = c :: rest := by
  rw [← h, skipSpace_skipSpace]

/-! ## Words -/

/-- Reading a word adds nothing to the text. -/
theorem length_readWord_le {word text more : Chars} (h : readWord word text = .ok ((), more)) :
    more.length ≤ text.length := by
  fun_induction readWord word text with
  | case1 text =>
      obtain rfl : text = more := congrArg Prod.snd (Except.ok.inj h)
      exact Nat.le_refl _
  | case2 c word => exact nomatch h
  | case3 word c text ih => exact Nat.le_succ_of_le (ih h)
  | case4 => exact nomatch h

/-! ## Numbers -/

/-- What was read, changed, with the same text after it. -/
theorem exists_of_map_ok {ε α β : Type} {reading : Except ε (α × Chars)} {f : α → β} {b : β}
    {more : Chars}
    (h : (reading.map fun r => (f r.1, r.2)) = .ok (b, more)) :
    ∃ a, reading = .ok (a, more) ∧ f a = b := by
  cases reading with
  | error fault => exact nomatch h
  | ok r =>
      obtain ⟨a, rest⟩ := r
      have hpair := Except.ok.inj h
      obtain rfl : rest = more := congrArg Prod.snd hpair
      exact ⟨a, rfl, congrArg Prod.fst hpair⟩

/-- Reading an exponent adds nothing to the text. -/
theorem length_readExponent_le {text more : Chars} {exponent : Bool × Chars}
    (h : readExponent text = .ok (exponent, more)) : more.length ≤ text.length := by
  have hrest : ∀ digits : Chars, (digits.dropWhile isDigit).length ≤ digits.length :=
    fun digits => (List.dropWhile_suffix isDigit).length_le
  unfold readExponent at h
  dsimp only at h
  split at h
  · exact nomatch h
  · next c tail hsigned =>
    split at h
    · have hmore : _ = more := congrArg Prod.snd (Except.ok.inj h)
      rw [← hmore]
      refine Nat.le_trans (hrest _) ?_
      split
      · exact Nat.le_succ _
      · exact Nat.le_succ _
      · exact Nat.le_refl _
    · exact nomatch h

theorem length_readExponent?_le {text more : Chars} {exponent : Option (Bool × Chars)}
    (h : readExponent? text = .ok (exponent, more)) : more.length ≤ text.length := by
  unfold readExponent? at h
  split at h
  · split at h
    · obtain ⟨_, hread, -⟩ := exists_of_map_ok h
      exact Nat.le_succ_of_le (length_readExponent_le hread)
    · exact Nat.le_of_eq (congrArg (fun r => List.length r.2) (Except.ok.inj h)).symm
  · exact Nat.le_of_eq (congrArg (fun r => List.length r.2) (Except.ok.inj h)).symm

/-- Reading fraction and exponent adds nothing to the text. -/
theorem length_readTail_le {negative : Bool} {whole text more : Chars} {numeral : Numeral}
    (h : readTail negative whole text = .ok (numeral, more)) : more.length ≤ text.length := by
  unfold readTail at h
  split at h
  · split at h
    · exact nomatch h
    · split at h
      · obtain ⟨_, hread, -⟩ := exists_of_map_ok h
        exact Nat.le_succ_of_le (Nat.le_trans (length_readExponent?_le hread)
          (List.dropWhile_suffix isDigit).length_le)
      · exact nomatch h
  · obtain ⟨_, hread, -⟩ := exists_of_map_ok h
    exact length_readExponent?_le hread

/-- **A NUMERAL TAKES ONE CHARACTER AT LEAST.** -/
theorem length_readNumeral_lt {negative : Bool} {text more : Chars} {numeral : Numeral}
    (h : readNumeral negative text = .ok (numeral, more)) : more.length < text.length := by
  unfold readNumeral at h
  split at h
  · exact nomatch h
  · split at h
    · split at h
      · exact nomatch h
      · exact Nat.lt_succ_of_le (length_readTail_le h)
    · exact Nat.lt_succ_of_le (length_readTail_le h)
  · next c rest _ =>
    split at h
    · next hdigit =>
      rw [List.dropWhile_cons_of_pos hdigit] at h
      exact Nat.lt_succ_of_le (Nat.le_trans (length_readTail_le h)
        (List.dropWhile_suffix isDigit).length_le)
    · exact nomatch h

/-- The sign is no matter for the form of a number. -/
theorem readNumeral_eq_map (negative : Bool) (text : Chars) :
    readNumeral negative text
      = (readNumeral false text).map fun r => ({ r.1 with negative := negative }, r.2) := by
  have htail : ∀ whole text, readTail negative whole text
      = (readTail false whole text).map fun r => ({ r.1 with negative := negative }, r.2) := by
    intro whole text
    unfold readTail
    split
    · split
      · rfl
      · split
        · cases readExponent? _ <;> rfl
        · rfl
    · cases readExponent? _ <;> rfl
  unfold readNumeral
  split
  · rfl
  · split
    · split
      · rfl
      · exact htail _ _
    · exact htail _ _
  · split
    · exact htail _ _
    · rfl

/-- A number with a sign is skipped to where it is read to. -/
theorem skipNumber_of_readNumeral {negative : Bool} {text more : Chars} {numeral : Numeral}
    (h : readNumeral negative text = .ok (numeral, more)) : skipNumber text = .ok ((), more) := by
  rw [readNumeral_eq_map] at h
  cases hread : readNumeral false text with
  | error fault =>
      rw [hread] at h
      exact nomatch h
  | ok r =>
      rw [hread] at h
      obtain rfl : r.2 = more := congrArg Prod.snd (Except.ok.inj h)
      rw [skipNumber, hread]

/-- What is skipped as a number could be read as a numeral. -/
theorem exists_of_skipNumber {text more : Chars} (negative : Bool)
    (h : skipNumber text = .ok ((), more)) :
    ∃ numeral, readNumeral negative text = .ok (numeral, more) := by
  rw [readNumeral_eq_map]
  unfold skipNumber at h
  split at h
  · next numeral rest hread =>
    obtain rfl : rest = more := congrArg Prod.snd (Except.ok.inj h)
    rw [hread]
    exact ⟨_, rfl⟩
  · exact nomatch h

/-! ## Strings -/

/-- Four hexadecimal digits are taken off the text. -/
theorem length_readHex_lt {text more : Chars} {code : Nat} (h : readHex text = .ok (code, more)) :
    more.length < text.length := by
  unfold readHex at h
  split at h
  · split at h
    · obtain rfl : _ = more := congrArg Prod.snd (Except.ok.inj h)
      simp only [List.length_cons]
      omega
    · exact nomatch h
  · split at h <;> exact nomatch h

/-- An escape takes one character at least. -/
theorem length_skipEscape_lt {text more : Chars} (h : skipEscape text = .ok ((), more)) :
    more.length < text.length := by
  unfold skipEscape at h
  split at h
  · exact nomatch h
  · next digits =>
    cases hhex : readHex digits with
    | error fault =>
        rw [hhex] at h
        exact nomatch h
    | ok r =>
        rw [hhex] at h
        obtain rfl : r.2 = more := congrArg Prod.snd (Except.ok.inj h)
        exact Nat.lt_succ_of_lt (length_readHex_lt hhex)
  · split at h
    · obtain rfl : _ = more := congrArg Prod.snd (Except.ok.inj h)
      exact Nat.lt_succ_self _
    · exact nomatch h

/-- **A STRING TAKES ITS CLOSING QUOTE AT LEAST.** -/
theorem length_skipStringFrom_lt {budget : Nat} {text more : Chars}
    (h : skipStringFrom budget text = .ok ((), more)) : more.length < text.length := by
  fun_induction skipStringFrom budget text with
  | case1 => exact nomatch h
  | case2 => exact nomatch h
  | case3 budget rest =>
      obtain rfl : rest = more := congrArg Prod.snd (Except.ok.inj h)
      exact Nat.lt_succ_self _
  | case4 budget rest _ after hescape _ ih =>
      exact Nat.lt_succ_of_lt (Nat.lt_trans (ih h) (length_skipEscape_lt hescape))
  | case5 => exact nomatch h
  | case6 => exact nomatch h
  | case7 budget c rest _ _ _ ih => exact Nat.lt_succ_of_lt (ih h)

theorem length_skipString_lt {text more : Chars} (h : skipString text = .ok ((), more)) :
    more.length < text.length := length_skipStringFrom_lt h

theorem skipStringFrom_escape {text after : Chars} (h : skipEscape text = .ok ((), after))
    (budget : Nat) :
    skipStringFrom (budget + 1) ('\\' :: text) = skipStringFrom budget after := by
  rw [skipStringFrom, if_neg (by decide), if_pos rfl, h]

theorem skipEscape_of_readHex {digits more : Chars} {code : Nat} (h : readHex digits = .ok (code, more)) :
    skipEscape ('u' :: digits) = .ok ((), more) := by
  rw [skipEscape, h]
  rfl

/-- The second half of a surrogate pair is an escape of its own. -/
theorem exists_of_readLowSurrogate {high : Nat} {text more : Chars} {plain : Char}
    (h : readLowSurrogate high text = .ok (plain, more)) :
    ∃ digits low, text = '\\' :: 'u' :: digits ∧ readHex digits = .ok (low, more) := by
  unfold readLowSurrogate at h
  split at h
  · cases h
  · split at h
    · cases h
    · next digits =>
      obtain ⟨⟨low, after⟩, hlow, h⟩ := exists_of_bind_eq_ok h
      dsimp only at h
      split at h
      · obtain rfl : after = more := congrArg Prod.snd (Except.ok.inj h)
        exact ⟨digits, low, rfl, hlow⟩
      · cases h
    · cases h
  · cases h

/-- An escape that is read is skipped in one step, or in two where it is a surrogate pair. -/
theorem skipEscape_of_readEscape {text more : Chars} {plain : Char}
    (h : readEscape text = .ok (plain, more)) :
    skipEscape text = .ok ((), more)
      ∨ ∃ digits, skipEscape text = .ok ((), '\\' :: 'u' :: digits)
          ∧ skipEscape ('u' :: digits) = .ok ((), more) := by
  unfold readEscape at h
  split at h
  · cases h
  · next digits =>
    obtain ⟨⟨code, rest⟩, hread, h⟩ := exists_of_bind_eq_ok h
    dsimp only at h
    split at h
    · cases h
    · split at h
      -- a surrogate pair is read as one character, where skipping sees two escapes
      · obtain ⟨second, low, rfl, hlow⟩ := exists_of_readLowSurrogate h
        exact .inr ⟨second, skipEscape_of_readHex hread, skipEscape_of_readHex hlow⟩
      · obtain rfl : rest = more := congrArg Prod.snd (Except.ok.inj h)
        exact .inl (skipEscape_of_readHex hread)
  · next c after hc =>
    split at h
    · next hshort =>
      obtain rfl : after = more := congrArg Prod.snd (Except.ok.inj h)
      refine .inl ?_
      unfold skipEscape
      split
      · contradiction
      · next heq => exact absurd (List.cons.inj heq).1 hc
      · next heq =>
        obtain ⟨rfl, rfl⟩ := List.cons.inj heq
        rw [hshort]
        rfl
    · cases h

/-- What is read as a string is skipped with any budget that is enough. -/
theorem skipStringFrom_of_readStringFrom {budget : Nat} {text read more : Chars} {value : String}
    (h : readStringFrom budget text read = .ok (value, more)) :
    ∀ other, text.length < other → skipStringFrom other text = .ok ((), more) := by
  fun_induction readStringFrom budget text read with
  | case1 => exact nomatch h
  | case2 => exact nomatch h
  | case3 budget rest read =>
      obtain rfl : rest = more := congrArg Prod.snd (Except.ok.inj h)
      rintro (_ | other) hlt
      · exact absurd hlt (Nat.not_lt_zero _)
      · rw [skipStringFrom, if_pos rfl]
  | case4 budget rest read plain after hread _ ih =>
      rintro (_ | other) hlt
      · exact absurd hlt (Nat.not_lt_zero _)
      · have hlt : rest.length < other := Nat.lt_of_succ_lt_succ hlt
        rcases skipEscape_of_readEscape hread with hskip | ⟨digits, hfirst, hsecond⟩
        · rw [skipStringFrom_escape hskip]
          exact ih h other (Nat.lt_trans (length_skipEscape_lt hskip) hlt)
        · have hfirstLength := length_skipEscape_lt hfirst
          have hsecondLength := length_skipEscape_lt hsecond
          simp only [List.length_cons] at hfirstLength hsecondLength
          -- the pair takes two of the steps that are left, and its text is long enough
          obtain ⟨left, rfl⟩ : ∃ left, other = left + 1 := ⟨other - 1, by omega⟩
          rw [skipStringFrom_escape hfirst, skipStringFrom_escape hsecond]
          exact ih h left (by omega)
  | case5 => exact nomatch h
  | case6 => exact nomatch h
  | case7 budget c rest read hquote hslash hplain ih =>
      rintro (_ | other) hlt
      · exact absurd hlt (Nat.not_lt_zero _)
      · rw [skipStringFrom, if_neg hquote, if_neg hslash, if_neg hplain]
        exact ih h other (Nat.lt_of_succ_lt_succ hlt)

/-- **WHAT CAN BE READ CAN BE SKIPPED**: a string ends at the same quote. -/
theorem skipString_of_readString {text more : Chars} {value : String}
    (h : readString text = .ok (value, more)) : skipString text = .ok ((), more) :=
  skipStringFrom_of_readStringFrom h _ (Nat.lt_succ_self _)

/-- What the string denotes that a text begins with after the quote, if it denotes anything. -/
def stringAt? (text : Chars) : Option String := (readString text).toOption.map Prod.fst

/-- A string that is skipped is read to where it is skipped to, if it denotes anything. -/
theorem toOption_readString {text more : Chars} (h : skipString text = .ok ((), more)) :
    (readString text).toOption = (stringAt? text).map fun value => (value, more) := by
  rw [stringAt?]
  cases hread : readString text with
  | error fault => rfl
  | ok r =>
      obtain ⟨value, rest⟩ := r
      have hskip := skipString_of_readString hread
      obtain rfl : rest = more := congrArg Prod.snd (Except.ok.inj (hskip.symm.trans h))
      rfl

end Conform.Json
