import Mathlib.Data.List.Infix
import Conform.Proofs.Forms
import Conform.Proofs.Padding
import Conform.Proofs.Ensuring

/-! # Scanning — what the scan for bars passes over in a text as it may be written

    A text without bars passes the scan, or more is closed in it than is open; it is
    CLOSED if it passes from depth zero to depth zero (`isClosed_iff`).  What can change
    the depth in a clause is the bracket of its comparison, and that stands in front
    (`isBound_of_clauseOf`). -/

namespace Conform.Dsl

open Conform.Text

/-! ## Texts without bars -/

theorem length_extendFirst_le (c : Char) (pieces : List Chars) :
    (extendFirst c pieces).length ≤ max 1 pieces.length := by
  cases pieces with
  | nil => exact Nat.le_refl _
  | cons piece more => exact Nat.le_max_right ..

/-- There is at most one piece more than there are bars. -/
theorem length_le_of_members {depth : Nat} {afterColon : Bool} {text : Chars} {pieces : List Chars}
    (h : members depth afterColon text = .ok pieces) : pieces.length ≤ text.count '|' + 1 := by
  induction text generalizing depth afterColon pieces with
  | nil =>
      rw [members] at h
      split at h
      · obtain rfl := Except.ok.inj h
        exact Nat.le_refl _
      · cases h
  | cons c rest ih =>
      have hcount : rest.count '|' ≤ (c :: rest).count '|' := List.count_le_count_cons
      rw [members] at h
      split at h
      · next hcut =>
          rw [Bool.and_eq_true, decide_eq_true_eq] at hcut
          obtain ⟨inner, hinner, hpieces⟩ := exists_of_bind_eq_ok h
          obtain rfl := Except.ok.inj hpieces
          rw [hcut.1, List.count_cons_self]
          exact Nat.succ_le_succ (ih hinner)
      · split at h
        · cases h
        · obtain ⟨inner, hinner, hpieces⟩ := exists_of_bind_eq_ok h
          obtain rfl := Except.ok.inj hpieces
          have hinner := ih hinner
          have hlength := length_extendFirst_le c inner
          show (extendFirst c inner).length ≤ _
          omega

/-- Whether the scan goes through the text on its own, and finds everything closed and
    no bar to cut at. -/
def IsClosed (text : Chars) : Prop := members 0 false text = .ok [text]

/-- A text without bars passes, or more is closed in it than is open. -/
theorem passes_or_unbalanced {text : Chars} (hbar : '|' ∉ text) (depth : Nat) (afterColon : Bool) :
    (∃ depth' afterColon', Passes depth afterColon text depth' afterColon')
      ∨ ∀ rest, members depth afterColon (text ++ rest) = .error .unbalancedBracket := by
  induction text generalizing depth afterColon with
  | nil => exact .inl ⟨depth, afterColon, .nil⟩
  | cons c rest ih =>
      obtain ⟨hc, hrest⟩ := not_or.1 (mt List.mem_cons.2 hbar)
      cases hdepth : depthAfter? depth afterColon c with
      | none =>
          refine .inr fun more => ?_
          have hcut : ¬(c = '|' && depth == 0) = true := by
            rw [Bool.and_eq_true, decide_eq_true_eq]
            exact fun h => hc h.1.symm
          rw [List.cons_append, members, if_neg hcut, hdepth]
      | some depth' =>
          have hpass : Passes depth afterColon [c] depth' (c == ':') :=
            .singleton (fun h => absurd h.symm hc) hdepth
          rcases ih hrest depth' (c == ':') with ⟨depth'', afterColon'', hpasses⟩ | hfails
          · exact .inl ⟨depth'', afterColon'', .cons hpass hpasses⟩
          · refine .inr fun more => ?_
            have hmore : members depth afterColon (c :: (rest ++ more)) = _ := hpass (rest ++ more)
            rw [List.cons_append, hmore, hfails more]
            rfl

/-- A text that passes is cut to pieces only if it leaves no bracket open. -/
theorem Passes.depth_eq_zero {text : Chars} {pieces : List Chars} {depth : Nat} {afterColon : Bool}
    (hpasses : Passes 0 false text depth afterColon) (h : members 0 false text = .ok pieces) :
    depth = 0 := by
  have hnil := hpasses []
  rw [List.append_nil, h] at hnil
  obtain ⟨inner, hinner, -⟩ := exists_of_bind_eq_ok hnil.symm
  rw [members] at hinner
  split at hinner
  · next hzero => exact hzero
  · cases hinner

/-- A text without bars that is scanned to its end is passed at depth zero. -/
theorem passes_of_members {text : Chars} {pieces : List Chars} (hbar : '|' ∉ text)
    (h : members 0 false text = .ok pieces) : ∃ afterColon, Passes 0 false text 0 afterColon := by
  rcases passes_or_unbalanced hbar 0 false with ⟨depth, afterColon, hpasses⟩ | hfails
  · obtain rfl := hpasses.depth_eq_zero h
    exact ⟨afterColon, hpasses⟩
  · have hnil := hfails []
    rw [List.append_nil, h] at hnil
    cases hnil

/-- A text without brackets passes, and its bars are inside of others. -/
theorem Passes.exists_of_not_bracket {depth : Nat} {text : Chars}
    (h : ∀ c ∈ text, c ≠ '<' ∧ c ≠ '>' ∧ (c = '|' → depth ≠ 0)) (afterColon : Bool) :
    ∃ afterColon', Passes depth afterColon text depth afterColon' := by
  induction text generalizing afterColon with
  | nil => exact ⟨afterColon, .nil⟩
  | cons c rest ih =>
      obtain ⟨⟨hopen, hclose, hbar⟩, hrest⟩ := List.forall_mem_cons.1 h
      have hdepth : depthAfter? depth afterColon c = some depth := by
        rw [depthAfter?.eq_def, if_neg hopen, if_neg hclose, ite_self]
      obtain ⟨afterColon', hmore⟩ := ih hrest (c == ':')
      exact ⟨afterColon', .cons (.singleton hbar hdepth) hmore⟩

/-- **A TEXT WITHOUT BARS IS CLOSED** if it passes from depth zero to depth zero. -/
theorem isClosed_iff {text : Chars} (hbar : '|' ∉ text) :
    IsClosed text ↔ ∃ afterColon, Passes 0 false text 0 afterColon := by
  constructor
  · intro hclosed
    exact passes_of_members hbar hclosed
  · rintro ⟨afterColon, hpasses⟩
    have hnil := hpasses []
    rw [List.append_nil] at hnil
    rw [IsClosed, hnil]
    show Except.ok (prepend text [[]]) = _
    rw [prepend_cons, List.append_nil]

theorem isClosed_of_not_bracket {text : Chars} (hbar : '|' ∉ text)
    (h : ∀ c ∈ text, c ≠ '<' ∧ c ≠ '>') : IsClosed text := by
  refine (isClosed_iff hbar).2 (Passes.exists_of_not_bracket (fun c hc => ?_) false)
  exact ⟨(h c hc).1, (h c hc).2, fun heq => absurd (heq ▸ hc) hbar⟩

/-! ## Quiet characters -/

/-- A property of characters that none of the special ones has makes them quiet. -/
theorem isQuiet_of_eq_true {p : Char → Bool} {c : Char} (h : p c = true)
    (hspecial : ['<', '>', ':', '|'].any p = false) : IsQuiet 0 c := by
  have hne {special : Char} (hmem : special ∈ ['<', '>', ':', '|']) : c ≠ special := by
    rintro rfl
    exact List.any_eq_false.1 hspecial c hmem h
  refine ⟨hne (by decide), hne (by decide), hne (by decide), ?_⟩
  intro hbar
  exact absurd hbar (hne (by decide))

theorem isQuiet_of_isBlank {c : Char} (h : isBlank c = true) : IsQuiet 0 c :=
  isQuiet_of_eq_true h (by decide)

theorem isQuiet_of_isDecimalDigit {c : Char} (h : isDecimalDigit c = true) : IsQuiet 0 c :=
  isQuiet_of_eq_true h (by decide)

/-- Blanks around a text do not make it less quiet. -/
theorem isQuiet_of_isPadded {part text : Chars} (hpadded : IsPadded part text)
    (h : ∀ c ∈ part, IsQuiet 0 c) : ∀ c ∈ text, IsQuiet 0 c := by
  obtain ⟨front, back, hfront, hback, rfl⟩ := hpadded
  exact List.forall_mem_append.2 ⟨fun c hc => isQuiet_of_isBlank (hfront c hc),
    List.forall_mem_append.2 ⟨h, fun c hc => isQuiet_of_isBlank (hback c hc)⟩⟩

theorem IsQuiet.deeper {c : Char} (h : IsQuiet 0 c) (depth : Nat) : IsQuiet depth c := by
  obtain ⟨hopen, hclose, hcolon, hbar⟩ := h
  exact ⟨hopen, hclose, hcolon, fun hc => absurd rfl (hbar hc)⟩

/-- Blanks around a text do not open or close it. -/
theorem isClosed_iff_of_isPadded {part text : Chars} (hpadded : IsPadded part text)
    (hbar : '|' ∉ text) : IsClosed part ↔ IsClosed text := by
  have hpartbar : '|' ∉ part := fun hmem => hbar (hpadded.isInfix.subset hmem)
  obtain ⟨front, back, hfront, hback, rfl⟩ := hpadded
  have hstart : Passes 0 false front 0 false := .quiet fun c hc => isQuiet_of_isBlank (hfront c hc)
  have hwhole {depth : Nat} {afterColon : Bool} (hpart : Passes 0 false part depth afterColon) :
      ∃ afterColon', Passes 0 false (front ++ (part ++ back)) depth afterColon' := by
    have hbackbar : ∀ c ∈ back, c ≠ '<' ∧ c ≠ '>' ∧ (c = '|' → depth ≠ 0) := fun c hc =>
      have hquiet := (isQuiet_of_isBlank (hback c hc)).deeper depth
      ⟨hquiet.1, hquiet.2.1, hquiet.2.2.2⟩
    obtain ⟨afterColon', hend⟩ := Passes.exists_of_not_bracket hbackbar afterColon
    exact ⟨afterColon', hstart.append (hpart.append hend)⟩
  constructor
  · intro hclosed
    obtain ⟨afterColon, hpart⟩ := (isClosed_iff hpartbar).1 hclosed
    exact (isClosed_iff hbar).2 (hwhole hpart)
  · intro hclosed
    rcases passes_or_unbalanced hpartbar 0 false with ⟨depth, afterColon, hpart⟩ | hfails
    · obtain ⟨afterColon', htext⟩ := hwhole hpart
      obtain rfl := htext.depth_eq_zero hclosed
      exact (isClosed_iff hpartbar).2 ⟨afterColon, hpart⟩
    · have hfail := hstart (part ++ back)
      rw [show members 0 false (front ++ (part ++ back)) = _ from hclosed, hfails] at hfail
      cases hfail

/-! ## Numerals and clauses -/

/-- Every character of a numeral that is read is quiet. -/
theorem isQuiet_of_readNumeral? {text rest : Chars} {numeral : Numeral}
    (h : readNumeral? text = some (numeral, rest)) : ∀ c ∈ numeral.text, IsQuiet 0 c := by
  obtain ⟨-, hwhole, hfraction⟩ : numeral.whole ≠ [] ∧ (∀ c ∈ numeral.whole, isDecimalDigit c = true)
      ∧ ∀ digits ∈ numeral.fraction, digits ≠ [] ∧ ∀ c ∈ digits, isDecimalDigit c = true := by
    rw [readNumeral?.eq_def] at h
    split at h
    · exact Numeral.decimal_of_readUnsigned? h
    · exact Numeral.decimal_of_readUnsigned? h
  intro c hc
  rw [Numeral.text, List.append_assoc] at hc
  rcases List.mem_append.1 hc with hsign | hunsigned
  · split at hsign
    · obtain rfl := List.mem_singleton.1 hsign
      exact isQuiet_of_eq_true (p := (· == '-')) rfl (by decide)
    · cases hsign
  · rcases List.mem_append.1 hunsigned with hmem | hmem
    · exact isQuiet_of_isDecimalDigit (hwhole c hmem)
    · rcases Numeral.mem_fractionText hmem with rfl | ⟨digits, hdigits, hdigit⟩
      · exact isQuiet_of_eq_true (p := (· == '.')) rfl (by decide)
      · exact isQuiet_of_isDecimalDigit ((hfraction digits hdigits).2 c hdigit)

/-- A numeral is quiet. -/
theorem isQuiet_of_numeral? {text : Chars} {numeral : Numeral} (h : numeral? text = some numeral) :
    ∀ c ∈ text, IsQuiet 0 c := by
  rw [numeral?] at h
  split at h
  · next hread =>
      have htext := text_of_readNumeral? hread
      rw [List.append_nil] at htext
      rw [← htext]
      exact isQuiet_of_readNumeral? hread
  · cases h

/-- The upper end of a range is quiet. -/
theorem isQuiet_of_upperEnd? {text : Chars} {most : Option Numeral} (h : upperEnd? text = some most) :
    ∀ c ∈ text, IsQuiet 0 c := by
  cases text with
  | nil => exact nofun
  | cons c rest =>
      rw [upperEnd?] at h
      · obtain ⟨numeral, hnumeral, -⟩ := Option.map_eq_some_iff.1 h
        exact isQuiet_of_numeral? hnumeral
      · exact nofun

/-- The ends of a range are quiet. -/
theorem isQuiet_of_ends? {text : Chars} {ends : Option Numeral × Option Numeral}
    (h : ends? text = some ends) : ∀ c ∈ text, IsQuiet 0 c := by
  have hdash : IsQuiet 0 '-' := isQuiet_of_eq_true (p := (· == '-')) rfl (by decide)
  rw [ends?.eq_def] at h
  split at h
  · next least rest hread =>
      obtain ⟨most, hmost, -⟩ := Option.map_eq_some_iff.1 h
      rw [← text_of_readNumeral? hread]
      exact List.forall_mem_append.2 ⟨isQuiet_of_readNumeral? hread,
        List.forall_mem_cons.2 ⟨hdash, isQuiet_of_upperEnd? hmost⟩⟩
  · split at h
    · obtain ⟨most, hmost, -⟩ := Option.map_eq_some_iff.1 h
      exact List.forall_mem_cons.2 ⟨hdash, isQuiet_of_upperEnd? hmost⟩
    · cases h

theorem eq_append_of_readComparison? {text rest : Chars} {comparison : Comparison}
    (h : readComparison? text = some (comparison, rest)) : text = comparison.text ++ rest := by
  rw [readComparison?.eq_def] at h
  split at h <;> first | (obtain ⟨rfl, rfl⟩ := Prod.mk.inj (Option.some.inj h); rfl) | cases h

/-- Blanks around a clause are no matter to its reader. -/
theorem clauseOf_congr {measure : Measure} {source other : Chars} (h : trim source = trim other) :
    clauseOf measure source = clauseOf measure other := by
  rw [clauseOf, clauseOf, h]

/-- Past its first character an operator is quiet. -/
theorem Comparison.exists_text_eq_cons (comparison : Comparison) :
    ∃ c rest, comparison.text = c :: rest ∧ (c = '<' ∨ c = '>' ∨ IsQuiet 0 c)
      ∧ ∀ d ∈ rest, IsQuiet 0 d := by
  have hequal : IsQuiet 0 '=' := isQuiet_of_eq_true (p := (· == '=')) rfl (by decide)
  cases comparison with
  | atLeast => exact ⟨'>', ['='], rfl, .inr (.inl rfl), List.forall_mem_singleton.2 hequal⟩
  | atMost => exact ⟨'<', ['='], rfl, .inl rfl, List.forall_mem_singleton.2 hequal⟩
  | above => exact ⟨'>', [], rfl, .inr (.inl rfl), nofun⟩
  | below => exact ⟨'<', [], rfl, .inl rfl, nofun⟩
  | equal => exact ⟨'=', [], rfl, .inr (.inr hequal), nofun⟩

/-- Whether there is a bracket in front at most, blanks aside. -/
def IsBound (text : Chars) : Prop :=
  ∃ c rest, trimStart text = c :: rest ∧ (c = '<' ∨ c = '>' ∨ IsQuiet 0 c) ∧ ∀ d ∈ rest, IsQuiet 0 d

namespace IsBound

variable {text : Chars}

/-- Blanks around a bound do not matter. -/
theorem of_trim {c : Char} {rest : Chars} (htext : trim text = c :: rest)
    (hc : c = '<' ∨ c = '>' ∨ IsQuiet 0 c) (hrest : ∀ d ∈ rest, IsQuiet 0 d) : IsBound text := by
  obtain ⟨back, hback, hstart⟩ := exists_trimEnd (trimStart text)
  refine ⟨c, rest ++ back, ?_, hc, List.forall_mem_append.2 ⟨hrest, fun d hd =>
    isQuiet_of_isBlank (hback d hd)⟩⟩
  calc trimStart text
      = trim text ++ back := hstart
    _ = c :: (rest ++ back) := by rw [htext, List.cons_append]

theorem append (h : IsBound text) {back : Chars} (hback : ∀ c ∈ back, IsQuiet 0 c) :
    IsBound (text ++ back) := by
  obtain ⟨c, rest, htext, hc, hrest⟩ := h
  refine ⟨c, rest ++ back, ?_, hc, List.forall_mem_append.2 ⟨hrest, hback⟩⟩
  rw [trimStart_append (htext ▸ List.cons_ne_nil c rest), htext, List.cons_append]

/-- What comes after is quiet: the one bracket is in front of it. -/
theorem isQuiet_of_append (h : IsBound text) {back : Chars} (hwhole : IsBound (text ++ back)) :
    ∀ c ∈ back, IsQuiet 0 c := by
  obtain ⟨c, rest, htext, -, -⟩ := h
  obtain ⟨c', rest', hwhole, -, hquiet⟩ := hwhole
  rw [trimStart_append (htext ▸ List.cons_ne_nil c rest), htext, List.cons_append] at hwhole
  obtain ⟨-, rfl⟩ := List.cons.inj hwhole
  exact (List.forall_mem_append.1 hquiet).2

end IsBound

/-- **A CLAUSE THAT IS READ** has a bracket in front at most. -/
theorem isBound_of_clauseOf {measure : Measure} {source : Chars} {clause : Clause}
    (h : clauseOf measure source = .ok clause) : IsBound source := by
  have hne : trim source ≠ [] := by
    intro hnil
    rw [clauseOf, hnil] at h
    cases h
  have hquiet (hall : ∀ d ∈ trim source, IsQuiet 0 d) : IsBound source := by
    obtain ⟨c, rest, htrim⟩ := List.exists_cons_of_ne_nil hne
    obtain ⟨hc, hrest⟩ := List.forall_mem_cons.1 (htrim ▸ hall)
    exact .of_trim htrim (.inr (.inr hc)) hrest
  rw [clauseOf, if_neg fun hempty => hne (List.isEmpty_iff.1 hempty)] at h
  split at h
  · next comparison bound hread =>
      obtain ⟨value, hvalue, -⟩ := exists_of_bind_eq_ok h
      rw [boundOf] at hvalue
      split at hvalue
      · cases hvalue
      · next numeral hnumeral =>
          have hbound := isQuiet_of_isPadded (.trim bound) (isQuiet_of_numeral? hnumeral)
          obtain ⟨c, rest, htext, hc, hrest⟩ := comparison.exists_text_eq_cons
          refine .of_trim ?_ hc (List.forall_mem_append.2 ⟨hrest, hbound⟩)
          rw [eq_append_of_readComparison? hread, htext, List.cons_append]
  · split at h
    · next hends => exact hquiet (isQuiet_of_ends? hends)
    · split at h
      · next hnumeral => exact hquiet (isQuiet_of_numeral? hnumeral)
      · cases h

end Conform.Dsl
