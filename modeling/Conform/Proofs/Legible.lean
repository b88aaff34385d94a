import Conform.Proofs.ClauseAndChoices
import Conform.Proofs.Scanning

/-! # Legible texts — what a text must look like to denote something

    The form of a body says how the body is written (`fits_formOf`).  If moreover the
    names are built in, and choices and clauses can be read, the text is LEGIBLE.  A text
    that denotes something without a registry is legible (`ensures_legible`), so that what
    holds of all such texts is shown by induction on why they are legible.

    In which way a text is legible is decided by the first of its characters that is not
    quiet: a colon (`Legible.of_colon`) or an opening bracket (`Legible.of_opening`). -/

namespace Conform.Dsl

open Conform.Text

/-! ## The first opening bracket -/

section

variable {afterColon : Bool} {text front inside : Chars}

/-- A bracket that opens cuts the text where it stands. -/
theorem eq_append_of_openBracket? (h : openBracket? afterColon text = some (front, inside)) :
    text = front ++ '<' :: inside := by
  induction text generalizing afterColon front with
  | nil => cases h
  | cons c rest ih =>
      rw [openBracket?] at h
      split at h
      · next hopen =>
          rw [Bool.and_eq_true, decide_eq_true_eq] at hopen
          obtain ⟨rfl, rfl⟩ := Prod.mk.inj (Option.some.inj h)
          rw [hopen.1, List.nil_append]
      · obtain ⟨⟨front', inside'⟩, hinner, heq⟩ := Option.map_eq_some_iff.1 h
        obtain ⟨rfl, rfl⟩ := Prod.mk.inj heq
        rw [ih hinner, List.cons_append]

/-- What comes after a text is inside of the bracket that is opened in it. -/
theorem openBracket?_append_of_some (h : openBracket? afterColon text = some (front, inside))
    (rest : Chars) : openBracket? afterColon (text ++ rest) = some (front, inside ++ rest) := by
  induction text generalizing afterColon front with
  | nil => cases h
  | cons c text ih =>
      rw [openBracket?] at h
      rw [List.cons_append, openBracket?]
      split at h
      · next hopen =>
          obtain ⟨rfl, rfl⟩ := Prod.mk.inj (Option.some.inj h)
          rw [if_pos hopen]
      · next hopen =>
          obtain ⟨⟨front', inside'⟩, hinner, heq⟩ := Option.map_eq_some_iff.1 h
          obtain ⟨rfl, rfl⟩ := Prod.mk.inj heq
          rw [if_neg hopen, ih hinner]
          rfl

/-- A bracket that is not opened in a text is opened after it. -/
theorem exists_of_openBracket?_append {rest : Chars} (hnone : openBracket? afterColon text = none)
    (h : openBracket? afterColon (text ++ rest) = some (front, inside)) :
    ∃ more, front = text ++ more ∧ rest = more ++ '<' :: inside := by
  induction text generalizing afterColon front with
  | nil => exact ⟨front, rfl, eq_append_of_openBracket? h⟩
  | cons c text ih =>
      rw [openBracket?] at hnone
      rw [List.cons_append, openBracket?] at h
      split at hnone
      · cases hnone
      · next hopen =>
          rw [if_neg hopen] at h
          obtain ⟨⟨front', inside'⟩, hinner, heq⟩ := Option.map_eq_some_iff.1 h
          obtain ⟨rfl, rfl⟩ := Prod.mk.inj heq
          obtain ⟨more, rfl, hrest⟩ := ih (Option.map_eq_none_iff.1 hnone) hinner
          exact ⟨more, rfl, hrest⟩

/-- Quiet characters open no bracket. -/
theorem openBracket?_append_quiet (hnone : openBracket? afterColon text = none) {back : Chars}
    (hback : ∀ c ∈ back, IsQuiet 0 c) : openBracket? afterColon (text ++ back) = none := by
  refine Option.eq_none_iff_forall_ne_some.2 ?_
  rintro ⟨front, inside⟩ h
  obtain ⟨more, -, rfl⟩ := exists_of_openBracket?_append hnone h
  exact (hback '<' (List.mem_append_right _ List.mem_cons_self)).1 rfl

end

/-! ## Forms -/

/-- A text that cannot be cut has no separator. -/
theorem not_mem_of_cutAt? {sep : Char} {text : Chars} (h : cutAt? sep text = none) : sep ∉ text := by
  intro hmem
  obtain ⟨front, back, rfl, hfront⟩ := List.eq_append_cons_of_mem hmem
  rw [cutAt?_append back hfront] at h
  cases h

/-- After a colon the rest of an array is always read as something. -/
theorem arrayForm?_colon_ne_none (more : Chars) : arrayForm? (':' :: more) ≠ none := by
  rw [arrayForm?]
  split
  · exact Option.some_ne_none _
  · split
    · exact Option.some_ne_none _
    · exact Option.some_ne_none _

theorem eq_toList_of_ofList_eq {text : Chars} {word : String} (h : String.ofList text = word) :
    text = word.toList := by
  rw [← h, String.toList_ofList]

/-- Whether the keyword of choices or of unions stands in the text alone. -/
def IsKeyword (text : Chars) : Prop :=
  trim text = ['e', 'n', 'u', 'm'] ∨ trim text = ['t', 'y', 'p', 'e', 's']

/-- How the body of a form is written; a body without a form is no matter. -/
inductive Form.Fits {size : Nat} : Chars → Form size → Prop
  | fault (body : Chars) (flaw : Fault) : Fits body (.fault flaw)
  | named (body : Chars) : Fits body (.named (trim body))
  | plain {body : Chars} (hcolon : ':' ∉ body) : Fits body (.choice none (trim body))
  | keyword {front back choices : Chars} {hint : Option ChoiceType} (hfront : IsKeyword front)
      (hchoices : choices ⊆ back) : Fits (front ++ ':' :: back) (.choice hint choices)
  | bounded {front : Chars} (back : Chars) (hfront : front ≠ arrayLead) :
      Fits (front ++ ':' :: back) (.bounded (trim front) (trim back))
  | array : Fits arrayLead (.array none none)
  | clause {clause : Chars} (hopen : openBracket? true clause = none) :
      Fits (arrayLead ++ ':' :: clause) (.array (some clause) none)
  | items (part : { part : Chars // part.length < size }) :
      Fits (arrayLead ++ '<' :: (part.1 ++ ['>'])) (.array none (some part))
  | clauseItems {more clause : Chars} {part : { part : Chars // part.length < size }}
      (hopen : openBracket? true more = some (clause, part.1 ++ ['>'])) :
      Fits (arrayLead ++ ':' :: more) (.array (some clause) (some part))
  | union {front back : Chars} {parts : List { part : Chars // part.length < size }}
      (hfront : IsKeyword front) (hbar : '|' ∈ back) : Fits (front ++ ':' :: back) (.union parts)

namespace Form

/-- More room does not matter for what fits. -/
theorem fits_widen {body : Chars} {small large : Nat} (h : small ≤ large) {form : Form small}
    (hform : form.Fits body) : (form.widen h).Fits body := by
  cases hform with
  | fault flaw => exact .fault _ _
  | named => exact .named _
  | plain hcolon => exact .plain hcolon
  | keyword hfront hchoices => exact .keyword hfront hchoices
  | bounded back hfront => exact .bounded back hfront
  | array => exact .array
  | clause hopen => exact .clause hopen
  | items part => exact .items ⟨part.1, _⟩
  | clauseItems hopen => exact .clauseItems hopen
  | union hfront hbar => exact .union hfront hbar

end Form

/-- The form of an array fits the text after its lead. -/
theorem fits_arrayForm? {rest : Chars} {form : Form (rest.length + 1)}
    (h : arrayForm? rest = some form) : form.Fits (arrayLead ++ rest) := by
  rw [arrayForm?.eq_def] at h
  split at h
  · obtain rfl := Option.some.inj h
    exact .array
  · next more =>
      split at h
      · next hopen =>
          obtain rfl := Option.some.inj h
          exact .clause hopen
      · next clause inside hopen =>
          split at h
          · obtain rfl := Option.some.inj h
            exact .fault _ _
          · next items hlast =>
              obtain rfl := Option.some.inj h
              rw [eq_append_of_beforeLast? hlast] at hopen
              exact .clauseItems hopen
  · next inside =>
      split at h
      · obtain rfl := Option.some.inj h
        exact .fault _ _
      · next items hlast =>
          obtain rfl := Option.some.inj h
          obtain rfl := eq_append_of_beforeLast? hlast
          exact .items ⟨items, _⟩
  · cases h

/-- A union has bars to be cut at. -/
theorem fits_unionForm {front back : Chars} (hfront : IsKeyword front) :
    (unionForm (trim back)).Fits (front ++ ':' :: back) := by
  rw [unionForm]
  split
  · exact .fault _ _
  · next pieces hpieces =>
      split
      · exact .fault _ _
      · next hseveral =>
          have hcount := length_le_of_members hpieces
          have hbar : '|' ∈ trim back := List.count_pos_iff.1 (by omega)
          exact .union hfront ((IsPadded.trim back).isInfix.subset hbar)

/-- The form of an enumeration fits the text after its colon. -/
theorem fits_enumForm (size : Nat) {front back : Chars} (hfront : IsKeyword front) :
    (enumForm size (trim back)).Fits (front ++ ':' :: back) := by
  have hback : trim back ⊆ back := (IsPadded.trim back).isInfix.subset
  rw [enumForm]
  split
  · next hint choices hcut =>
      have hchoices : choices ⊆ trim back := by
        intro c hc
        rw [eq_append_of_cutAt? hcut]
        exact List.mem_append_right _ (List.mem_cons_of_mem _ hc)
      split
      · exact .keyword hfront fun c hc => hback (hchoices hc)
      · exact .keyword hfront hback
  · exact .keyword hfront hback

/-- Any other form fits the whole text. -/
theorem fits_generalForm {body : Chars} (h : ∀ rest, body ≠ arrayLead ++ ':' :: rest) :
    (generalForm body).Fits body := by
  rw [generalForm]
  split
  · next hcut =>
      rw [plainForm]
      split
      · exact .plain (not_mem_of_cutAt? hcut)
      · exact .named body
  · next front back hcut =>
      obtain rfl := eq_append_of_cutAt? hcut
      rw [colonForm]
      split
      · exact .fault _ _
      · split
        · next htypes => exact Form.fits_widen _ (fits_unionForm (.inr (eq_toList_of_ofList_eq htypes)))
        · split
          · next henum => exact fits_enumForm _ (.inl (eq_toList_of_ofList_eq henum))
          · refine .bounded back ?_
            rintro rfl
            exact h back rfl

/-- **A BODY IS WRITTEN AS ITS FORM SAYS.** -/
theorem fits_formOf (body : Chars) : (formOf body).Fits body := by
  rw [formOf]
  split
  · next hlead =>
      refine fits_generalForm fun rest hbody => ?_
      rw [hbody, show ['a', 'r', 'r', 'a', 'y'] = arrayLead from rfl, afterLead?_append] at hlead
      cases hlead
  · next rest hlead =>
      obtain rfl := eq_append_of_afterLead? hlead
      split
      · next hnone =>
          refine fits_generalForm fun more hbody => ?_
          obtain rfl := List.append_cancel_left hbody
          exact arrayForm?_colon_ne_none more hnone
      · next form hform => exact Form.fits_widen _ (fits_arrayForm? hform)

/-- Behind the body of a text stand blanks, and perhaps a mark. -/
theorem trimStart_of_bodyOf {text : Chars} {mark : Bool}
    {body : { body : Chars // body.length ≤ text.length }} (h : bodyOf text = .ok (mark, body)) :
    ∃ back, (∀ c ∈ back, IsQuiet 0 c) ∧ trimStart text = body.1 ++ back := by
  have hquiet {part : Chars} (hpart : IsBlankText part) : ∀ c ∈ part, IsQuiet 0 c :=
    fun c hc => isQuiet_of_isBlank (hpart c hc)
  obtain ⟨back, hback, htext⟩ := exists_trimEnd (trimStart text)
  rw [show trimEnd (trimStart text) = trim text from rfl] at htext
  rw [bodyOf] at h
  split at h
  · cases h
  · split at h
    · obtain ⟨-, rfl⟩ := Prod.mk.inj (Except.ok.inj h)
      exact ⟨back, hquiet hback, htext⟩
    · next unmarked hlast =>
        split at h
        · cases h
        · obtain ⟨-, rfl⟩ := Prod.mk.inj (Except.ok.inj h)
          obtain ⟨blanks, hblanks, hunmarked⟩ := exists_trimEnd unmarked
          have hmark : IsQuiet 0 '!' := isQuiet_of_eq_true (p := (· == '!')) rfl (by decide)
          refine ⟨blanks ++ '!' :: back, List.forall_mem_append.2 ⟨hquiet hblanks,
            List.forall_mem_cons.2 ⟨hmark, hquiet hback⟩⟩, ?_⟩
          calc trimStart text
              = trim text ++ back := htext
            _ = unmarked ++ ['!'] ++ back := congrArg (· ++ back) (eq_append_of_beforeLast? hlast)
            _ = trimEnd unmarked ++ blanks ++ ['!'] ++ back := congrArg (· ++ ['!'] ++ back) hunmarked
            _ = trimEnd unmarked ++ (blanks ++ '!' :: back) := by
                rw [List.append_assoc, List.append_assoc]
                rfl

/-! ## Names, choices and clauses -/

/-- Whether the name is that of a built-in type. -/
def IsBuiltin (name : Chars) : Prop := ∃ base, BaseType.ofName? (String.ofList name) = some base

/-- The names of built-in types are quiet. -/
theorem IsBuiltin.isQuiet {name : Chars} (h : IsBuiltin name) : ∀ c ∈ name, IsQuiet 0 c := by
  obtain ⟨base, hbase⟩ := h
  intro c hc
  refine isQuiet_of_isBare 0 (TypeName.isBare_of_mem_text ⟨String.ofList name, base,
    Members.mem_of_valueOf?_eq_some hbase⟩ c ?_)
  rw [String.toList_ofList]
  exact hc

/-- No built-in name is the keyword of choices or of unions. -/
theorem IsBuiltin.not_isKeyword {name : Chars} (h : IsBuiltin (trim name)) : ¬IsKeyword name := by
  obtain ⟨base, hbase⟩ := h
  rintro (hkeyword | hkeyword)
  · rw [hkeyword] at hbase
    cases hbase
  · rw [hkeyword] at hbase
    cases hbase

/-- Choices have bars between them. -/
theorem bar_mem_of_choicesOf {hint : Option ChoiceType} {body : Chars}
    {found : ChoiceType × List Literal} (h : choicesOf hint body = .ok found) : '|' ∈ body := by
  by_contra hbar
  rw [choicesOf, pieces_eq_singleton hbar] at h
  cases h

/-- Every character but the separators is in a piece. -/
theorem exists_mem_pieces {sep c : Char} {text : Chars} (hc : c ∈ text) (hne : c ≠ sep) :
    ∃ piece ∈ pieces sep text, c ∈ piece := by
  induction text with
  | nil => cases hc
  | cons d rest ih =>
      rw [pieces]
      split
      · next hsep =>
          have hrest : c ∈ rest := (List.mem_cons.1 hc).resolve_left fun heq => hne (heq.trans hsep)
          obtain ⟨piece, hpiece, hmem⟩ := ih hrest
          exact ⟨piece, List.mem_cons_of_mem _ hpiece, hmem⟩
      · split
        · next hnil =>
            rw [hnil] at ih
            rcases List.mem_cons.1 hc with rfl | hrest
            · exact ⟨[c], List.mem_cons_self, List.mem_cons_self⟩
            · obtain ⟨piece, hpiece, -⟩ := ih hrest
              cases hpiece
        · next first more hpieces =>
            rw [hpieces] at ih
            rcases List.mem_cons.1 hc with rfl | hrest
            · exact ⟨c :: first, List.mem_cons_self, List.mem_cons_self⟩
            · obtain ⟨piece, hpiece, hmem⟩ := ih hrest
              rcases List.mem_cons.1 hpiece with rfl | hmore
              · exact ⟨d :: piece, List.mem_cons_self, List.mem_cons_of_mem _ hmem⟩
              · exact ⟨piece, List.mem_cons_of_mem _ hmore, hmem⟩

/-- Choices without a fault have no brackets. -/
theorem brackets_not_mem_of_memberFault? {body : Chars} {members : List Chars}
    (h : memberFault? body members = none) : ∀ member ∈ members, ∀ c ∈ member, c ≠ '<' ∧ c ≠ '>' := by
  induction members with
  | nil => exact nofun
  | cons member rest ih =>
      rw [memberFault?] at h
      split at h
      · cases h
      · split at h
        · cases h
        · next hoperator =>
            refine List.forall_mem_cons.2 ⟨fun c hc => ?_, ih h⟩
            constructor
            · rintro rfl
              exact hoperator (List.any_eq_true.2 ⟨'<', hc, rfl⟩)
            · rintro rfl
              exact hoperator (List.any_eq_true.2 ⟨'>', hc, rfl⟩)

/-- No choice has an angle bracket in it. -/
theorem brackets_not_mem_of_choicesOf {hint : Option ChoiceType} {body : Chars}
    {found : ChoiceType × List Literal} (h : choicesOf hint body = .ok found) :
    ∀ c ∈ body, c ≠ '<' ∧ c ≠ '>' := by
  have hfault : memberFault? body ((pieces '|' body).map trim) = none := by
    rw [choicesOf] at h
    split at h
    · cases h
    · split at h
      · cases h
      · next hnone => exact hnone
  have hmembers := brackets_not_mem_of_memberFault? hfault
  -- a bracket is no separator and is not trimmed away
  have hnot (special : Char) (hbar : special ≠ '|') (hblank : isBlank special = false)
      (hspecial : special = '<' ∨ special = '>') : special ∉ body := by
    intro hmem
    obtain ⟨piece, hpiece, hin⟩ := exists_mem_pieces hmem hbar
    have htrim := (IsPadded.trim piece).mem hblank hin
    have hbrackets := hmembers (trim piece) (List.mem_map.2 ⟨piece, hpiece, rfl⟩) special htrim
    exact hspecial.elim hbrackets.1 hbrackets.2
  intro c hc
  constructor
  · rintro rfl
    exact hnot '<' (by decide) (by decide) (.inl rfl) hc
  · rintro rfl
    exact hnot '>' (by decide) (by decide) (.inr rfl) hc

/-- Whether the text looks like choices. -/
def IsListed (text : Chars) : Prop := '|' ∈ text ∧ ∀ c ∈ text, c ≠ '<' ∧ c ≠ '>'

/-- Texts that are trimmed before choices are read from them look like choices. -/
theorem isListed_of_choicesOf {hint : Option ChoiceType} {text : Chars}
    {found : ChoiceType × List Literal} (h : choicesOf hint (trim text) = .ok found) :
    IsListed text := by
  have hbrackets := brackets_not_mem_of_choicesOf h
  have hpadded : IsPadded (trim text) text := .trim text
  refine ⟨hpadded.isInfix.subset (bar_mem_of_choicesOf h), fun c hc => ?_⟩
  constructor
  · rintro rfl
    exact (hbrackets '<' (hpadded.mem (by decide) hc)).1 rfl
  · rintro rfl
    exact (hbrackets '>' (hpadded.mem (by decide) hc)).2 rfl

/-- What constrains a node is choices or a clause, blanks around it or not. -/
theorem isListed_or_isBound_of_constrain {name body text : Chars} {node constrained : Node}
    (h : constrain name body (trim text) node = .ok constrained) : IsListed text ∨ IsBound text := by
  rcases constrain_eq_ok h with ⟨type, choices, -, hchoices, -⟩ | ⟨measure, clause, -, hclause, -⟩
  · exact .inl (isListed_of_choicesOf hchoices)
  · rw [clauseOf_congr (trim_trim text)] at hclause
    exact .inr (isBound_of_clauseOf hclause)

/-! ## Legible texts -/

/-- Whether the text looks like one that denotes something. -/
inductive Legible : Chars → Prop
  | name {text : Chars} (hquiet : ∀ c ∈ text, IsQuiet 0 c) : Legible text
  | plain {text : Chars} (hcolon : ':' ∉ text) (hlisted : IsListed text) : Legible text
  | keyword {front back : Chars} (hfront : IsKeyword front) (hbar : '|' ∈ back) :
      Legible (front ++ ':' :: back)
  | bounded {front back : Chars} (hname : IsBuiltin (trim front))
      (hopen : trimStart front = arrayLead → openBracket? true back = none)
      (hback : IsListed back ∨ IsBound back) : Legible (front ++ ':' :: back)
  | items {front part back : Chars} (hfront : trimStart front = arrayLead) (hpart : Legible part)
      (hback : ∀ c ∈ back, IsQuiet 0 c) : Legible (front ++ '<' :: (part ++ '>' :: back))
  | boundedItems {front more clause part back : Chars} (hfront : trimStart front = arrayLead)
      (hopen : openBracket? true more = some (clause, part ++ '>' :: back)) (hclause : IsBound clause)
      (hpart : Legible part) (hback : ∀ c ∈ back, IsQuiet 0 c) : Legible (front ++ ':' :: more)

/-- Blanks in front of a text do not make it less legible. -/
theorem Legible.blank_append {front text : Chars} (h : Legible text) (hfront : IsBlankText front) :
    Legible (front ++ text) := by
  have htrim (name : Chars) : trim (front ++ name) = trim name :=
    IsPadded.trim_eq ⟨front, [], hfront, nofun, by rw [List.append_nil]⟩
  have hstart (name : Chars) : trimStart (front ++ name) = trimStart name :=
    trimStart_append_blank hfront name
  have hblank : ∀ c ∈ front, IsQuiet 0 c := fun c hc => isQuiet_of_isBlank (hfront c hc)
  -- blanks in front change neither the name nor the bracket that is opened
  cases h with
  | name hquiet => exact .name (List.forall_mem_append.2 ⟨hblank, hquiet⟩)
  | plain hcolon hlisted =>
      refine .plain ?_ ⟨List.mem_append_right _ hlisted.1, List.forall_mem_append.2 ⟨?_, hlisted.2⟩⟩
      · exact List.not_mem_append (fun hmem => (hblank ':' hmem).2.2.1 rfl) hcolon
      · exact fun c hc => ⟨(hblank c hc).1, (hblank c hc).2.1⟩
  | keyword hkeyword hbar =>
      rw [← List.append_assoc]
      exact .keyword (hkeyword.imp (htrim _).trans (htrim _).trans) hbar
  | bounded hname hopen hback =>
      rw [← List.append_assoc]
      refine .bounded ((htrim _).symm ▸ hname) ?_ hback
      rw [hstart]
      exact hopen
  | items hlead hpart hback =>
      rw [← List.append_assoc]
      exact .items ((hstart _).trans hlead) hpart hback
  | boundedItems hlead hopen hclause hpart hback =>
      rw [← List.append_assoc]
      exact .boundedItems ((hstart _).trans hlead) hopen hclause hpart hback

/-- Quiet characters behind a text do not make it less legible. -/
theorem Legible.append_quiet {text back : Chars} (h : Legible text) (hback : ∀ c ∈ back, IsQuiet 0 c) :
    Legible (text ++ back) := by
  have hlisted {choices : Chars} (h : IsListed choices) : IsListed (choices ++ back) :=
    ⟨List.mem_append_left _ h.1, List.forall_mem_append.2
      ⟨h.2, fun c hc => ⟨(hback c hc).1, (hback c hc).2.1⟩⟩⟩
  cases h with
  | name hquiet => exact .name (List.forall_mem_append.2 ⟨hquiet, hback⟩)
  | plain hcolon hchoices =>
      exact .plain (List.not_mem_append hcolon fun hmem => (hback ':' hmem).2.2.1 rfl) (hlisted hchoices)
  | keyword hkeyword hbar =>
      rw [List.append_assoc, List.cons_append]
      exact .keyword hkeyword (List.mem_append_left _ hbar)
  | bounded hname hopen hrest =>
      rw [List.append_assoc, List.cons_append]
      exact .bounded hname (fun hlead => openBracket?_append_quiet (hopen hlead) hback)
        (hrest.imp hlisted fun hbound => hbound.append hback)
  | items hlead hpart hend =>
      rw [List.append_assoc, List.cons_append, List.append_assoc, List.cons_append]
      exact .items hlead hpart (List.forall_mem_append.2 ⟨hend, hback⟩)
  | @boundedItems name more clause part rest hlead hopen hclause hpart hend =>
      rw [List.append_assoc, List.cons_append]
      have hwhole := openBracket?_append_of_some hopen back
      rw [List.append_assoc, List.cons_append] at hwhole
      exact .boundedItems hlead hwhole hclause hpart (List.forall_mem_append.2 ⟨hend, hback⟩)

/-- Legible texts stay so if they are trimmed otherwise. -/
theorem Legible.of_isPadded {part text : Chars} (h : Legible part) (hpadded : IsPadded part text) :
    Legible text := by
  obtain ⟨front, back, hfront, hback, rfl⟩ := hpadded
  exact (h.append_quiet fun c hc => isQuiet_of_isBlank (hback c hc)).blank_append hfront

/-- A reader that has no registry to ask. -/
abbrev Unregistered (names : Names) : Prop := names.registry.Within {}

/-- Without registrations only built-in names are resolved. -/
theorem ensures_builtin (path : String) (name : Chars) :
    Ensures Unregistered (resolve path name) fun _ => IsBuiltin name := by
  refine (ensures_answers {} path name).mono ?_
  intro node hanswers
  rw [Registry.Answers] at hanswers
  split at hanswers
  · next base hbase => exact ⟨base, hbase⟩
  · obtain ⟨registration, hvalue, -⟩ := hanswers
    cases hvalue

/-- A body is legible if what is read of it denotes something. -/
theorem Form.ensures_legible {body : Chars} {size : Nat} {form : Form size} (hfits : form.Fits body)
    (hstart : trimStart body = body)
    (hparts : ∀ part : { part : Chars // part.length < size }, ∀ path,
      Ensures Unregistered ((Outline.ofText part.1).node path) fun _ => Legible part.1)
    (mark : Bool) (path : String) :
    Ensures Unregistered ((form.outline mark body).node path) fun _ => Legible body := by
  have hlead : trimStart arrayLead = arrayLead := by decide
  -- along the ways to write a body: the node is made only if the parts of the form denote
  cases hfits with
  | fault flaw =>
      rw [Form.outline, Outline.node]
      exact .throw _
  | named =>
      rw [Form.outline, Outline.node]
      exact (ensures_builtin path (trim body)).bind fun node hname =>
        .pure (.name (isQuiet_of_isPadded (.trim body) hname.isQuiet))
  | plain hcolon =>
      rw [Form.outline, Outline.node]
      refine (ensures_settle path _).bind ?_
      rintro ⟨type, literals⟩ hchoices
      exact .pure (.plain hcolon (isListed_of_choicesOf hchoices))
  | keyword hfront hchoices =>
      rw [Form.outline, Outline.node]
      refine (ensures_settle path _).bind ?_
      rintro ⟨type, literals⟩ hread
      exact .pure (.keyword hfront (hchoices (bar_mem_of_choicesOf hread)))
  | @bounded front back hfront =>
      rw [Form.outline, Outline.node]
      refine (ensures_builtin path _).bind ?_
      intro node hname
      refine (ensures_settle path _).bind ?_
      intro constrained hconstrained
      refine .pure (.bounded hname ?_ (isListed_or_isBound_of_constrain hconstrained))
      intro harray
      exact absurd ((trimStart_of_append hstart).symm.trans harray) hfront
  | array =>
      rw [Form.outline, Option.map_none, Outline.node]
      refine (ensures_settle path _).bind ?_
      intro bound _
      exact .pure (.name fun c hc => isQuiet_of_isBare 0 (List.all_eq_true.1 (by decide) c hc))
  | clause hopen =>
      rw [Form.outline, Option.map_none, Outline.node]
      refine (ensures_settle path _).bind ?_
      intro bound hbound
      obtain ⟨clause, hclause, -⟩ := exists_of_bind_eq_ok hbound
      exact .pure (.bounded ⟨.array, by decide⟩ (fun _ => hopen) (.inr (isBound_of_clauseOf hclause)))
  | items part =>
      rw [Form.outline, Option.map_some, Outline.node]
      -- items are made before the clause is settled
      refine (hparts part (itemsPath path)).bind ?_
      intro node hpart
      refine (ensures_settle path _).bind ?_
      intro bound _
      exact .pure (.items hlead hpart nofun)
  | @clauseItems more clause part hopen =>
      rw [Form.outline, Option.map_some, Outline.node]
      refine (hparts part (itemsPath path)).bind ?_
      intro node hpart
      refine (ensures_settle path _).bind ?_
      intro bound hbound
      obtain ⟨clause, hclause, -⟩ := exists_of_bind_eq_ok hbound
      exact .pure (.boundedItems hlead hopen (isBound_of_clauseOf hclause) hpart nofun)
  | @union front back parts hfront hbar =>
      have hmembers : ∀ outline ∈ parts.map fun part => Outline.ofText part.1,
          Ensures Unregistered (outline.node path) fun _ => True := by
        intro outline hmem
        obtain ⟨part, -, rfl⟩ := List.mem_map.1 hmem
        exact (hparts part path).mono fun _ _ => trivial
      rw [Form.outline, Outline.node]
      exact (Outline.ensures_nodes hmembers).bind fun nodes _ => .pure (.keyword hfront hbar)

/-- **A TEXT THAT DENOTES SOMETHING IS LEGIBLE**, if there is no registry. -/
theorem ensures_legible (text : Chars) : ∀ path,
    Ensures Unregistered ((Outline.ofText text).node path) fun _ => Legible text := by
  -- the items of an array are a shorter text
  induction hlength : text.length using Nat.strongRecOn generalizing text with
  | ind length ih =>
      intro path
      rcases hbody : bodyOf text with flaw | ⟨mark, body⟩
      · rw [Outline.ofText_of_fault hbody, Outline.node]
        exact .throw _
      · obtain ⟨front, hfront, htext⟩ := exists_trimStart text
        obtain ⟨back, hback, hwhole⟩ := trimStart_of_bodyOf hbody
        have hstart : trimStart (body.1 ++ back) = body.1 ++ back := hwhole ▸ trimStart_trimStart text
        have hparts (part : { part : Chars // part.length < body.1.length }) (path : String) :
            Ensures Unregistered ((Outline.ofText part.1).node path) fun _ => Legible part.1 := by
          have hpart := part.2
          have hbody := body.2
          exact ih part.1.length (by omega) part.1 rfl path
        rw [Outline.ofText_of_bodyOf hbody]
        refine (Form.ensures_legible (fits_formOf body.1) (trimStart_of_append hstart)
          hparts mark path).mono ?_
        intro node hlegible
        rw [htext, hwhole]
        exact (hlegible.append_quiet hback).blank_append hfront

end Conform.Dsl
