import Conform.Text.Blank

/-! # Splitting texts at a character

    `pieces` cuts a text at every occurrence of a character, `cutAt?` at the
    first one only. -/

namespace Conform.Text

/-- The pieces between the occurrences of `sep`; there is always at least one. -/
def pieces (sep : Char) : Chars → List Chars
  | [] => [[]]
  | c :: rest =>
      if c = sep then [] :: pieces sep rest
      else
        match pieces sep rest with
        | [] => [[c]]
        | piece :: more => (c :: piece) :: more

/-- What stands before and after the first `sep`. -/
def cutAt? (sep : Char) : Chars → Option (Chars × Chars)
  | [] => none
  | c :: rest =>
      if c = sep then some ([], rest)
      else (cutAt? sep rest).map fun halves => (c :: halves.1, halves.2)

/-- The text after `lead`, if the text starts with it. -/
def afterLead? : Chars → Chars → Option Chars
  | [], text => some text
  | _ :: _, [] => none
  | l :: lead, c :: text => if l = c then afterLead? lead text else none

/-- The text before a final `last`, if the text ends with it. -/
def beforeLast? (last : Char) : Chars → Option Chars
  | [] => none
  | [c] => if c = last then some [] else none
  | c :: d :: rest => (beforeLast? last (d :: rest)).map (c :: ·)

/-- Puts `sep` between the texts. -/
def joinWith (sep : String) : List String → String
  | [] => ""
  | [text] => text
  | text :: more => text ++ sep ++ joinWith sep more

/-- A lead and what is left make up the text. -/
theorem length_afterLead? {lead text rest : Chars} (h : afterLead? lead text = some rest) :
    rest.length + lead.length = text.length := by
  induction lead generalizing text with
  | nil =>
      simp only [afterLead?, Option.some.injEq] at h
      simp [h]
  | cons l lead ih =>
      cases text with
      | nil => exact nomatch h
      | cons c text =>
          by_cases hc : l = c
          · simp only [afterLead?, hc, ↓reduceIte] at h
            have := ih h
            simp only [List.length_cons]
            omega
          · simp [afterLead?, hc] at h

/-- One character is taken off. -/
theorem length_beforeLast? {last : Char} {text rest : Chars}
    (h : beforeLast? last text = some rest) : rest.length + 1 = text.length := by
  induction text generalizing rest with
  | nil => exact nomatch h
  | cons c more ih =>
      cases more with
      | nil =>
          by_cases hc : c = last
          · simp only [beforeLast?, hc, ↓reduceIte, Option.some.injEq] at h
            simp [← h]
          · simp [beforeLast?, hc] at h
      | cons d more =>
          simp only [beforeLast?, Option.map_eq_some_iff] at h
          obtain ⟨front, hf, rfl⟩ := h
          have := ih hf
          simp only [List.length_cons] at this ⊢
          omega

/-- A cut takes the separator. -/
theorem length_cutAt? {sep : Char} {text : Chars} {halves : Chars × Chars}
    (h : cutAt? sep text = some halves) :
    halves.1.length + halves.2.length + 1 = text.length := by
  induction text generalizing halves with
  | nil => exact nomatch h
  | cons c rest ih =>
      by_cases hc : c = sep
      · simp only [cutAt?, hc, ↓reduceIte, Option.some.injEq] at h
        simp [← h]
      · simp only [cutAt?, hc, ↓reduceIte, Option.map_eq_some_iff] at h
        obtain ⟨inner, hi, rfl⟩ := h
        have := ih hi
        simp only [List.length_cons]
        omega

end Conform.Text
