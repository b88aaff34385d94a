/-! # Blank characters and trimming

    A character is blank when it has the Unicode property `White_Space`.
    Texts are lists of characters here: trimming drops the blanks at an end,
    and never makes a text longer. -/

namespace Conform.Text

/-- A text as the characters it consists of. -/
abbrev Chars := List Char

/-- Inclusive ranges of code points. -/
abbrev Ranges := List (Nat × Nat)

/-- Whether the code point of `c` lies in one of the ranges. -/
def Ranges.holds (ranges : Ranges) (c : Char) : Bool :=
  ranges.any fun range => Nat.ble range.1 c.toNat && Nat.ble c.toNat range.2

/-- The code points with the property `White_Space`. -/
def blankRanges : Ranges :=
  [(0x9, 0xd), (0x20, 0x20), (0x85, 0x85), (0xa0, 0xa0), (0x1680, 0x1680), (0x2000, 0x200a),
   (0x2028, 0x2029), (0x202f, 0x202f), (0x205f, 0x205f), (0x3000, 0x3000)]

/-- The property `White_Space`. -/
def isBlank (c : Char) : Bool := blankRanges.holds c

/-- Drops the blanks in front. -/
def trimStart (text : Chars) : Chars := text.dropWhile isBlank

/-- Drops the blanks at the end. -/
def trimEnd : Chars → Chars
  | [] => []
  | c :: rest =>
      match trimEnd rest with
      | [] => if isBlank c then [] else [c]
      | d :: more => c :: d :: more

/-- Drops the blanks at both ends. -/
def trim (text : Chars) : Chars := trimEnd (trimStart text)

theorem length_dropWhile_le (p : Char → Bool) (text : Chars) :
    (text.dropWhile p).length ≤ text.length := by
  induction text with
  | nil => exact Nat.le_refl _
  | cons c rest ih =>
      by_cases h : p c = true
      · rw [List.dropWhile_cons_of_pos h]
        exact Nat.le_succ_of_le ih
      · exact Nat.le_of_eq (congrArg List.length (List.dropWhile_cons_of_neg h))

/-- Trimming adds nothing to a text. -/
theorem length_trimEnd_le (text : Chars) : (trimEnd text).length ≤ text.length := by
  induction text with
  | nil => exact Nat.le_refl _
  | cons c rest ih =>
      unfold trimEnd
      cases h : trimEnd rest with
      | nil => dsimp only; split <;> simp
      | cons d more =>
          rw [h] at ih
          simp only [List.length_cons] at ih ⊢
          omega

/-- Trimming never lengthens a text. -/
theorem length_trim_le (text : Chars) : (trim text).length ≤ text.length :=
  Nat.le_trans (length_trimEnd_le _) (length_dropWhile_le isBlank text)

end Conform.Text
