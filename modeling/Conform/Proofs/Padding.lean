import Mathlib.Data.List.Forall2
import Conform.Proofs.CutTexts

/-! # Padding — blanks around texts

    Trimming takes away blanks and nothing else: a text is what is left of it with
    blanks around (`IsPadded.trim`), and blanks around a text are no matter to trimming
    (`IsPadded.trim_eq`).  Of separated texts it takes away what stands in front of the
    first text and behind the last one (`exists_trim_separated`). -/

namespace Conform.Text

/-- Whether the text consists of blanks. -/
def IsBlankText (text : Chars) : Prop := ∀ c ∈ text, isBlank c = true

/-- Whether the text is the part with blanks around it. -/
def IsPadded (part text : Chars) : Prop :=
  ∃ front back, IsBlankText front ∧ IsBlankText back ∧ text = front ++ (part ++ back)

/-- A text that is not blank keeps what stands before it. -/
theorem trimEnd_append {back : Chars} (h : trimEnd back ≠ []) (front : Chars) :
    trimEnd (front ++ back) = front ++ trimEnd back := by
  induction front with
  | nil => rfl
  | cons c front ih =>
      obtain ⟨d, more, hmore⟩ := List.exists_cons_of_ne_nil (List.append_ne_nil_of_right_ne_nil front h)
      rw [List.cons_append, trimEnd, ih, hmore, List.cons_append, hmore]

/-- Blanks at the end go. -/
theorem trimEnd_append_blank {back : Chars} (h : IsBlankText back) (front : Chars) :
    trimEnd (front ++ back) = trimEnd front := by
  induction front with
  | nil =>
      induction back with
      | nil => rfl
      | cons c back ih =>
          obtain ⟨hc, hback⟩ := List.forall_mem_cons.1 h
          have hrest : trimEnd back = [] := ih hback
          show trimEnd (c :: back) = []
          rw [trimEnd, hrest]
          exact if_pos hc
  | cons c front ih => rw [List.cons_append, trimEnd, ih, trimEnd]

theorem trimStart_append_blank {front : Chars} (h : IsBlankText front) (back : Chars) :
    trimStart (front ++ back) = trimStart back :=
  List.dropWhile_append_of_pos h

theorem trimStart_append {front : Chars} (h : trimStart front ≠ []) (back : Chars) :
    trimStart (front ++ back) = trimStart front ++ back := by
  rw [trimStart, List.dropWhile_append]
  exact if_neg fun hempty => h (List.isEmpty_iff.1 hempty)

/-- Only blanks are trimmed at the end. -/
theorem exists_trimEnd (text : Chars) : ∃ back, IsBlankText back ∧ text = trimEnd text ++ back := by
  induction text with
  | nil => exact ⟨[], nofun, rfl⟩
  | cons c rest ih =>
      obtain ⟨back, hback, hrest⟩ := ih
      rw [trimEnd]
      cases htrim : trimEnd rest with
      | cons d more =>
          refine ⟨back, hback, ?_⟩
          rw [htrim] at hrest
          exact congrArg (c :: ·) hrest
      | nil =>
          rw [htrim] at hrest
          obtain rfl : rest = back := hrest
          by_cases hc : isBlank c = true
          · exact ⟨c :: rest, List.forall_mem_cons.2 ⟨hc, hback⟩, by dsimp only; rw [if_pos hc]; rfl⟩
          · exact ⟨rest, hback, by dsimp only; rw [if_neg hc]; rfl⟩

/-- Only blanks are trimmed in front. -/
theorem exists_trimStart (text : Chars) :
    ∃ front, IsBlankText front ∧ text = front ++ trimStart text :=
  ⟨text.takeWhile isBlank, List.all_eq_true.1 List.all_takeWhile, List.takeWhile_append_dropWhile.symm⟩

/-- What was trimmed at the start is not trimmed again. -/
theorem trimStart_trimStart (text : Chars) : trimStart (trimStart text) = trimStart text := by
  obtain ⟨front, hfront, htext⟩ := exists_trimStart text
  calc trimStart (trimStart text)
      = trimStart (front ++ trimStart text) := (trimStart_append_blank hfront _).symm
    _ = trimStart text := congrArg trimStart htext.symm

/-- What is in front of a text that starts with no blank starts with none either. -/
theorem trimStart_of_append {front back : Chars} (h : trimStart (front ++ back) = front ++ back) :
    trimStart front = front := by
  by_cases hblank : trimStart front = []
  · obtain ⟨blanks, hblanks, hfront⟩ := exists_trimStart front
    rw [hblank, List.append_nil] at hfront
    subst hfront
    rw [trimStart_append_blank hblanks] at h
    have hlength : (front ++ back).length ≤ back.length := h ▸ (List.dropWhile_sublist _).length_le
    rw [List.length_append] at hlength
    rw [hblank, List.eq_nil_of_length_eq_zero (by omega : front.length = 0)]
  · exact List.append_cancel_right ((trimStart_append hblank back).symm.trans h)

namespace IsPadded

theorem trim (text : Chars) : IsPadded (trim text) text := by
  obtain ⟨front, hfront, htext⟩ := exists_trimStart text
  obtain ⟨back, hback, hstart⟩ := exists_trimEnd (trimStart text)
  exact ⟨front, back, hfront, hback, htext.trans (congrArg (front ++ ·) hstart)⟩

theorem trimStart (text : Chars) : IsPadded (trimStart text) text := by
  obtain ⟨front, hfront, htext⟩ := exists_trimStart text
  exact ⟨front, [], hfront, nofun, by rw [List.append_nil, ← htext]⟩

theorem trimEnd (text : Chars) : IsPadded (trimEnd text) text := by
  obtain ⟨back, hback, htext⟩ := exists_trimEnd text
  exact ⟨[], back, nofun, hback, htext⟩

variable {part text : Chars}

/-- Blanks around a text do not show once it is trimmed. -/
theorem trim_eq (h : IsPadded part text) : Text.trim text = Text.trim part := by
  obtain ⟨front, back, hfront, hback, rfl⟩ := h
  rw [Text.trim, Text.trim]
  rw [trimStart_append_blank hfront, Text.trimStart, List.dropWhile_append]
  split
  · next hpart =>
      -- the part is blank itself, and nothing is left of either
      have hnil : List.dropWhile isBlank (back ++ []) = [] := trimStart_append_blank hback []
      rw [List.append_nil] at hnil
      rw [hnil, Text.trimStart, List.isEmpty_iff.1 hpart]
  · exact trimEnd_append_blank hback _

theorem refl (text : Chars) : IsPadded text text := ⟨[], [], nofun, nofun, (List.append_nil _).symm⟩

/-- Blanks around blanks are blanks around. -/
theorem trans {whole : Chars} (hpart : IsPadded part text) (htext : IsPadded text whole) :
    IsPadded part whole := by
  obtain ⟨front, back, hfront, hback, rfl⟩ := hpart
  obtain ⟨front', back', hfront', hback', rfl⟩ := htext
  refine ⟨front' ++ front, back ++ back', List.forall_mem_append.2 ⟨hfront', hfront⟩,
    List.forall_mem_append.2 ⟨hback, hback'⟩, ?_⟩
  rw [List.append_assoc, List.append_assoc, List.append_assoc]

theorem isInfix (h : IsPadded part text) : part <:+: text := by
  obtain ⟨front, back, -, -, rfl⟩ := h
  exact ⟨front, back, List.append_assoc _ _ _⟩

/-- What is not blank is in the part. -/
theorem mem (h : IsPadded part text) {c : Char} (hc : isBlank c = false) (hmem : c ∈ text) : c ∈ part := by
  obtain ⟨front, back, hfront, hback, rfl⟩ := h
  have hblank {blanks : Chars} (hall : IsBlankText blanks) : c ∉ blanks := fun hin =>
    Bool.false_ne_true (hc.symm.trans (hall c hin))
  rcases List.mem_append.1 hmem with hin | hin
  · exact absurd hin (hblank hfront)
  · exact (List.mem_append.1 hin).resolve_right (hblank hback)

end IsPadded

theorem trim_trim (text : Chars) : trim (trim text) = trim text := (IsPadded.trim text).trim_eq.symm

/-- A text that is not blank leaves something when its end is trimmed. -/
theorem trimEnd_ne_nil {text : Chars} (h : trim text ≠ []) : trimEnd text ≠ [] := by
  intro hnil
  rw [(IsPadded.trimEnd text).trim_eq, hnil] at h
  exact h rfl

/-- What is trimmed on both sides is the end of what is trimmed there alone. -/
theorem exists_trimEnd_eq_append {text : Chars} (h : trim text ≠ []) :
    ∃ front, trimEnd text = front ++ trim text := by
  obtain ⟨front, -, htext⟩ := exists_trimStart text
  refine ⟨front, ?_⟩
  calc trimEnd text
      = trimEnd (front ++ trimStart text) := congrArg trimEnd htext
    _ = front ++ trim text := trimEnd_append h front

/-- A text that ends in another one still does so when both are trimmed. -/
theorem exists_trim_append {last : Chars} (h : trim last ≠ []) (front : Chars) :
    ∃ start, trim (front ++ last) = start ++ trim last := by
  rw [trim, trimStart, List.dropWhile_append]
  split
  · exact ⟨[], rfl⟩
  · obtain ⟨start, hstart⟩ := exists_trimEnd_eq_append h
    refine ⟨List.dropWhile isBlank front ++ start, ?_⟩
    rw [trimEnd_append (trimEnd_ne_nil h), hstart, List.append_assoc]

/-! ## Separated texts -/

section

variable {sep : Char} (hsep : isBlank sep = false)
include hsep

/-- A separator is no blank, so it stays before what is trimmed. -/
theorem trimEnd_cons (rest : Chars) : trimEnd (sep :: rest) = sep :: trimEnd rest := by
  rw [trimEnd]
  cases trimEnd rest with
  | nil =>
      dsimp only
      rw [if_neg (by rw [hsep]; exact Bool.false_ne_true)]
  | cons d more => rfl

theorem trimStart_cons (rest : Chars) : trimStart (sep :: rest) = sep :: rest :=
  List.dropWhile_cons_of_neg (by rw [hsep]; exact Bool.false_ne_true)

/-- Trimming the start of a listing trims the first text. -/
theorem trimStart_separated (first : Chars) (more : List Chars) :
    trimStart (separated sep (first :: more)) = separated sep (trimStart first :: more) := by
  by_cases hmore : more = []
  · subst hmore
    rfl
  · rw [separated_cons hmore, separated_cons hmore, trimStart, List.dropWhile_append]
    split
    · next hempty =>
        rw [show trimStart first = [] from List.isEmpty_iff.1 hempty]
        exact trimStart_cons hsep _
    · rfl

/-- Trimming the end of a listing trims the last text. -/
theorem exists_trimEnd_separated (texts : List Chars) :
    ∃ trimmed, trimEnd (separated sep texts) = separated sep trimmed
      ∧ List.Forall₂ IsPadded trimmed texts := by
  induction texts with
  | nil => exact ⟨[], rfl, .nil⟩
  | cons text more ih =>
      obtain ⟨trimmed, htrimmed, hpadded⟩ := ih
      by_cases hmore : more = []
      · subst hmore
        exact ⟨[trimEnd text], rfl, .cons (.trimEnd text) .nil⟩
      · have hne : trimmed ≠ [] := by
          rintro rfl
          exact hmore (List.forall₂_nil_left_iff.1 hpadded)
        -- the separator stays, and so does everything in front of it
        have hrest : trimEnd (sep :: separated sep more) = sep :: separated sep trimmed := by
          rw [trimEnd_cons hsep, htrimmed]
        refine ⟨text :: trimmed, ?_, .cons (.refl text) hpadded⟩
        rw [separated_cons hmore, separated_cons hne, trimEnd_append, hrest]
        rw [hrest]
        exact List.cons_ne_nil _ _

/-- **TRIMMING SEPARATED TEXTS** trims the first of them in front and the last of them at
    the end. -/
theorem exists_trim_separated (texts : List Chars) :
    ∃ trimmed, trim (separated sep texts) = separated sep trimmed
      ∧ List.Forall₂ IsPadded trimmed texts := by
  cases texts with
  | nil => exact ⟨[], rfl, .nil⟩
  | cons first more =>
      obtain ⟨trimmed, htrimmed, hpadded⟩ := exists_trimEnd_separated hsep (trimStart first :: more)
      refine ⟨trimmed, ?_, ?_⟩
      · rw [trim, trimStart_separated hsep, htrimmed]
      · obtain ⟨start, rest, hstart, hrest, rfl⟩ := List.forall₂_cons_right_iff.1 hpadded
        exact .cons (hstart.trans (.trimStart first)) hrest

end

/-- Separated texts end in the last of them, whatever that is. -/
theorem exists_separated_append (sep : Char) (texts : List Chars) :
    ∃ front, ∀ last, separated sep (texts ++ [last]) = front ++ last := by
  induction texts with
  | nil => exact ⟨[], fun _ => rfl⟩
  | cons text more ih =>
      obtain ⟨front, hfront⟩ := ih
      refine ⟨text ++ sep :: front, fun last => ?_⟩
      have hne : more ++ [last] ≠ [] := List.append_ne_nil_of_right_ne_nil _ (List.cons_ne_nil _ _)
      rw [List.cons_append, separated_cons hne, hfront, List.append_assoc, List.cons_append]

end Conform.Text
