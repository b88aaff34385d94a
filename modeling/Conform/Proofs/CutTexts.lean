import Conform.Text.Digit
import Conform.Text.Split

/-! # Cut texts — what was put together comes apart where it was joined

    Each way of cutting a text undoes one way of putting texts together: trimming
    leaves a text without blanks alone, a text before its final character is found
    again, and texts with a separator between them are its pieces, as long as none
    of them has the separator in it. -/

namespace Conform.Text

/-- Texts with a separator between them. -/
def separated (sep : Char) : List Chars → Chars
  | [] => []
  | [text] => text
  | text :: next :: more => text ++ sep :: separated sep (next :: more)

/-- After the first text come a separator and the others, if there are any. -/
theorem separated_cons {sep : Char} {text : Chars} {more : List Chars} (h : more ≠ []) :
    separated sep (text :: more) = text ++ sep :: separated sep more := by
  cases more with
  | nil => exact absurd rfl h
  | cons next more => rfl

/-- Between two texts stands a separator. -/
theorem mem_separated {sep : Char} {texts : List Chars} (h : 2 ≤ texts.length) :
    sep ∈ separated sep texts := by
  match texts, h with
  | _ :: _ :: _, _ => exact List.mem_append_right _ List.mem_cons_self

/-- What holds of all characters of the texts and of the separator holds of all of
    the separated text. -/
theorem forall_mem_separated {sep : Char} {P : Char → Prop} {texts : List Chars}
    (htexts : ∀ text ∈ texts, ∀ c ∈ text, P c) (hsep : P sep) : ∀ c ∈ separated sep texts, P c := by
  induction texts with
  | nil =>
      intro c hc
      exact nomatch hc
  | cons text more ih =>
      have hmore := ih fun other hmem => htexts other (List.mem_cons_of_mem _ hmem)
      intro c hc
      by_cases hne : more = []
      · subst hne
        exact htexts text List.mem_cons_self c hc
      · rw [separated_cons hne] at hc
        rcases List.mem_append.1 hc with htext | hrest
        · exact htexts text List.mem_cons_self c htext
        · rcases List.mem_cons.1 hrest with rfl | hrest
          · exact hsep
          · exact hmore c hrest

/-! ## Trimming -/

/-- Whether the text has no blanks. -/
def Unblank (text : Chars) : Prop := ∀ c ∈ text, isBlank c = false

instance (text : Chars) : Decidable (Unblank text) := List.decidableBAll _ text

namespace Unblank

variable {text front back : Chars}

theorem append (hfront : Unblank front) (hback : Unblank back) : Unblank (front ++ back) :=
  List.forall_mem_append.2 ⟨hfront, hback⟩

theorem cons {c : Char} (hc : isBlank c = false) (htext : Unblank text) : Unblank (c :: text) :=
  List.forall_mem_cons.2 ⟨hc, htext⟩

theorem of_append (h : Unblank (front ++ back)) : Unblank front ∧ Unblank back :=
  List.forall_mem_append.1 h

end Unblank

/-- Where no blank begins a text, trimming its start does nothing. -/
theorem trimStart_eq_self {text : Chars} (h : Unblank text) : trimStart text = text := by
  cases text with
  | nil => rfl
  | cons c rest =>
      exact List.dropWhile_cons_of_neg (by rw [h c List.mem_cons_self]; exact Bool.false_ne_true)

/-- Where no blank ends a text, trimming its end does nothing. -/
theorem trimEnd_eq_self {text : Chars} (h : Unblank text) : trimEnd text = text := by
  induction text with
  | nil => rfl
  | cons c rest ih =>
      rw [trimEnd, ih fun d hd => h d (List.mem_cons_of_mem _ hd)]
      cases rest with
      | nil =>
          dsimp only
          rw [if_neg (by rw [h c List.mem_cons_self]; exact Bool.false_ne_true)]
      | cons d more => rfl

/-- A text without blanks is trimmed. -/
theorem trim_eq_self {text : Chars} (h : Unblank text) : trim text = text := by
  unfold trim
  rw [trimStart_eq_self h, trimEnd_eq_self h]

/-- A text that ends with no blank keeps its end. -/
theorem trimEnd_append_singleton {last : Char} (h : isBlank last = false) (text : Chars) :
    trimEnd (text ++ [last]) = text ++ [last] := by
  induction text with
  | nil => exact if_neg (by rw [h]; exact Bool.false_ne_true)
  | cons c rest ih =>
      rw [List.cons_append, trimEnd, ih]
      cases hrest : rest ++ [last] with
      | nil => exact absurd hrest (List.append_ne_nil_of_right_ne_nil _ (List.cons_ne_nil _ _))
      | cons d more => rfl

/-- However much is trimmed in front, the last character stays if it is no blank. -/
theorem exists_trim_append_singleton {last : Char} (h : isBlank last = false) (text : Chars) :
    ∃ front, trim (text ++ [last]) = front ++ [last] := by
  have hstart : trimStart [last] = [last] :=
    List.dropWhile_cons_of_neg (by rw [h]; exact Bool.false_ne_true)
  unfold trim trimStart
  rw [List.dropWhile_append]
  split
  · rw [show [last].dropWhile isBlank = [last] from hstart]
    exact ⟨[], trimEnd_append_singleton h []⟩
  · exact ⟨_, trimEnd_append_singleton h _⟩

/-- No digit is a blank. -/
theorem isBlank_of_isDigit {c : Char} (h : isDigit c = true) : isBlank c = false := by
  have hranges : ∀ range ∈ blankRanges, range.2 < 48 ∨ 57 < range.1 := by decide
  unfold isDigit at h
  rw [Bool.and_eq_true, Nat.ble_eq, Nat.ble_eq] at h
  refine List.any_eq_false.2 fun range hmem hblank => ?_
  rw [Bool.and_eq_true, Nat.ble_eq, Nat.ble_eq] at hblank
  rcases hranges range hmem with hbelow | habove
  · omega
  · omega

/-! ## Cutting -/

/-- The last character is taken off if it is the right one. -/
theorem beforeLast?_append_singleton (last : Char) (text : Chars) :
    beforeLast? last (text ++ [last]) = some text := by
  induction text with
  | nil => exact if_pos rfl
  | cons c rest ih =>
      cases hrest : rest ++ [last] with
      | nil => exact absurd hrest (List.append_ne_nil_of_right_ne_nil _ (List.cons_ne_nil _ _))
      | cons d more =>
          rw [List.cons_append, hrest, beforeLast?, ← hrest, ih]
          rfl

/-- Nothing is taken off a text that ends differently. -/
theorem beforeLast?_eq_none {last : Char} {text : Chars} (h : text.getLast? ≠ some last) :
    beforeLast? last text = none := by
  induction text with
  | nil => rfl
  | cons c rest ih =>
      cases rest with
      | nil =>
          refine if_neg ?_
          rintro rfl
          exact h rfl
      | cons d more =>
          rw [List.getLast?_cons_cons] at h
          rw [beforeLast?, ih h]
          rfl

/-- A text is cut at a separator that does not stand in its front. -/
theorem cutAt?_append {sep : Char} {front : Chars} (rest : Chars) (h : sep ∉ front) :
    cutAt? sep (front ++ sep :: rest) = some (front, rest) := by
  induction front with
  | nil => exact if_pos rfl
  | cons c front ih =>
      rw [List.mem_cons, not_or] at h
      rw [List.cons_append, cutAt?, if_neg fun hc => h.1 hc.symm, ih h.2]
      rfl

/-- There is nothing to cut at where the separator does not occur. -/
theorem cutAt?_eq_none {sep : Char} {text : Chars} (h : sep ∉ text) : cutAt? sep text = none := by
  induction text with
  | nil => rfl
  | cons c rest ih =>
      rw [List.mem_cons, not_or] at h
      rw [cutAt?, if_neg fun hc => h.1 hc.symm, ih h.2]
      rfl

/-- A lead is taken off the text that begins with it. -/
theorem afterLead?_append (lead rest : Chars) : afterLead? lead (lead ++ rest) = some rest := by
  induction lead with
  | nil => rfl
  | cons c lead ih =>
      rw [List.cons_append, afterLead?, if_pos rfl, ih]

/-- What a lead was taken off begins with it. -/
theorem eq_append_of_afterLead? {lead text rest : Chars} (h : afterLead? lead text = some rest) :
    text = lead ++ rest := by
  induction lead generalizing text with
  | nil => exact Option.some.inj h
  | cons l lead ih =>
      cases text with
      | nil => cases h
      | cons c text =>
          rw [afterLead?] at h
          split at h
          · next hc => rw [hc, ih h, List.cons_append]
          · cases h

/-- What a last character was taken off ends with it. -/
theorem eq_append_of_beforeLast? {last : Char} {text front : Chars}
    (h : beforeLast? last text = some front) : text = front ++ [last] := by
  induction text generalizing front with
  | nil => cases h
  | cons c rest ih =>
      cases rest with
      | nil =>
          rw [beforeLast?] at h
          split at h
          · next hc => rw [← Option.some.inj h, hc]; rfl
          · cases h
      | cons d more =>
          rw [beforeLast?] at h
          obtain ⟨front', hfront, rfl⟩ := Option.map_eq_some_iff.1 h
          rw [ih hfront, List.cons_append]

/-- The halves of a cut text are the text again, with the separator between them. -/
theorem eq_append_of_cutAt? {sep : Char} {text front rest : Chars}
    (h : cutAt? sep text = some (front, rest)) : text = front ++ sep :: rest := by
  induction text generalizing front with
  | nil => cases h
  | cons c text ih =>
      rw [cutAt?] at h
      split at h
      · next hc =>
          obtain ⟨rfl, rfl⟩ := Prod.mk.inj (Option.some.inj h)
          rw [hc]; rfl
      · obtain ⟨⟨front', rest'⟩, hcut, heq⟩ := Option.map_eq_some_iff.1 h
        obtain ⟨rfl, rfl⟩ := Prod.mk.inj heq
        rw [ih hcut, List.cons_append]

/-- What a text does not start with, it does not start with when both go on. -/
theorem afterLead?_append_eq_none {lead text : Chars} (more rest : Chars)
    (hlength : lead.length ≤ text.length) (h : afterLead? lead text = none) :
    afterLead? (lead ++ more) (text ++ rest) = none := by
  induction lead generalizing text with
  | nil => exact nomatch h
  | cons l lead ih =>
      cases text with
      | nil => exact absurd hlength (Nat.not_succ_le_zero _)
      | cons c text =>
          rw [List.cons_append, List.cons_append, afterLead?]
          rw [afterLead?] at h
          split
          · next hc =>
              rw [if_pos hc] at h
              exact ih (Nat.le_of_succ_le_succ hlength) h
          · rfl

/-! ## Pieces -/

/-- A text without separators is one piece. -/
theorem pieces_eq_singleton {sep : Char} {text : Chars} (h : sep ∉ text) :
    pieces sep text = [text] := by
  induction text with
  | nil => rfl
  | cons c rest ih =>
      rw [List.mem_cons, not_or] at h
      rw [pieces, if_neg fun hc => h.1 hc.symm, ih h.2]

/-- The first piece ends where the first separator stands. -/
theorem pieces_append {sep : Char} {front : Chars} (rest : Chars) (h : sep ∉ front) :
    pieces sep (front ++ sep :: rest) = front :: pieces sep rest := by
  induction front with
  | nil => exact if_pos rfl
  | cons c front ih =>
      rw [List.mem_cons, not_or] at h
      rw [List.cons_append, pieces, if_neg fun hc => h.1 hc.symm, ih h.2]

/-- **SEPARATED TEXTS ARE THE PIECES** of what they make up. -/
theorem pieces_separated {sep : Char} {texts : List Chars} (hne : texts ≠ [])
    (h : ∀ text ∈ texts, sep ∉ text) : pieces sep (separated sep texts) = texts := by
  induction texts with
  | nil => exact absurd rfl hne
  | cons text more ih =>
      by_cases hmore : more = []
      · subst hmore
        exact pieces_eq_singleton (h text List.mem_cons_self)
      · rw [separated_cons hmore, pieces_append _ (h text List.mem_cons_self),
          ih hmore fun other hmem => h other (List.mem_cons_of_mem _ hmem)]

/-! ## Runs -/

/-- A run of characters of one kind ends at the first character of another kind. -/
theorem takeWhile_append_of_stop {p : Char → Bool} {run rest : Chars} (h : ∀ c ∈ run, p c = true)
    (hrest : ∀ c ∈ rest.head?, p c = false) :
    (run ++ rest).takeWhile p = run ∧ (run ++ rest).dropWhile p = rest := by
  rw [List.takeWhile_append_of_pos h, List.dropWhile_append_of_pos h]
  cases rest with
  | nil => exact ⟨List.append_nil run, rfl⟩
  | cons c more =>
      have hc : ¬p c = true := by
        rw [hrest c rfl]
        exact Bool.false_ne_true
      rw [List.takeWhile_cons_of_neg hc, List.dropWhile_cons_of_neg hc, List.append_nil]
      exact ⟨rfl, rfl⟩

end Conform.Text
