import Conform.Dsl.Outline
import Conform.Proofs.Phrase

/-! # Brackets — what the scan for bars and brackets passes over

    The scan for bars goes through a text with a depth, the number of open brackets,
    and with a flag that says whether the character before was a colon.  A text
    PASSES from one depth and flag to others if the scan cuts nothing in it and
    leaves with those.  Texts that pass one after the other pass together, and so
    everything that phrases are put together from can be treated on its own.

    Main fact: a well-formed phrase passes from any depth to the same depth, as long
    as its bars are inside of brackets (`passes_text`).  It is the invariant of the
    scan: brackets of comparisons come right after a colon and count for nothing,
    and every other bracket is closed again in the phrase that opens it.

    Hence members with bars between them are the members that the scan finds
    (`members_separated`). -/

namespace Conform.Dsl

open Conform.Text

/-- Puts a text in front of the first piece. -/
def prepend (text : Chars) (pieces : List Chars) : List Chars := text.foldr extendFirst pieces

/-- A text goes before the first piece, and the later pieces stay. -/
theorem prepend_cons (text piece : Chars) (more : List Chars) :
    prepend text (piece :: more) = (text ++ piece) :: more := by
  induction text with
  | nil => rfl
  | cons c rest ih =>
      show extendFirst c (prepend rest (piece :: more)) = _
      rw [ih]
      rfl

/-- Whether the scan goes through the text from a depth and a flag to others, and cuts
    nothing in it. -/
def Passes (depth : Nat) (afterColon : Bool) (text : Chars) (depth' : Nat)
    (afterColon' : Bool) : Prop :=
  ∀ rest, members depth afterColon (text ++ rest) = prepend text <$> members depth' afterColon' rest

namespace Passes

variable {depth : Nat} {afterColon : Bool}

/-- The empty text changes neither the depth nor what was read last. -/
theorem nil : Passes depth afterColon [] depth afterColon := by
  intro rest
  exact (id_map _).symm

/-- Texts that pass one after the other pass together. -/
theorem append {front back : Chars} {depth₁ depth₂ : Nat} {afterColon₁ afterColon₂ : Bool}
    (hfront : Passes depth afterColon front depth₁ afterColon₁)
    (hback : Passes depth₁ afterColon₁ back depth₂ afterColon₂) :
    Passes depth afterColon (front ++ back) depth₂ afterColon₂ := by
  intro rest
  have hprepend : prepend (front ++ back) = prepend front ∘ prepend back :=
    funext fun pieces => List.foldr_append
  rw [List.append_assoc, hfront, hback, hprepend, comp_map]

theorem cons {c : Char} {text : Chars} {depth₁ depth₂ : Nat} {afterColon₁ afterColon₂ : Bool}
    (hc : Passes depth afterColon [c] depth₁ afterColon₁)
    (htext : Passes depth₁ afterColon₁ text depth₂ afterColon₂) :
    Passes depth afterColon (c :: text) depth₂ afterColon₂ :=
  append hc htext

/-! ## Single characters -/

/-- A character passes unless it is a bar outside of brackets or closes what is not
    open. -/
theorem singleton {c : Char} {depth' : Nat} (hbar : c = '|' → depth ≠ 0)
    (hdepth : depthAfter? depth afterColon c = some depth') :
    Passes depth afterColon [c] depth' (c == ':') := by
  intro rest
  -- the scan cuts at bars of depth zero only
  have hcut : ¬(c = '|' && depth == 0) = true := by
    rw [Bool.and_eq_true, decide_eq_true_eq, beq_iff_eq]
    rintro ⟨hc, hzero⟩
    exact hbar hc hzero
  show members depth afterColon (c :: rest) = _
  rw [members, if_neg hcut, hdepth]
  rfl

/-- After a colon every character but a bar passes. -/
theorem after_colon {c : Char} (hbar : c ≠ '|') (hcolon : c ≠ ':') :
    Passes depth true [c] depth false := by
  have h : Passes depth true [c] depth (c == ':') := singleton (fun hc => absurd hc hbar) (if_pos rfl)
  rwa [beq_eq_false_iff_ne.2 hcolon] at h

/-- A colon leaves the depth, and a bracket right after it opens nothing. -/
theorem colon : Passes depth afterColon [':'] depth true :=
  singleton (fun h => absurd h (by decide)) (by cases afterColon <;> rfl)

theorem bar (h : depth ≠ 0) : Passes depth afterColon ['|'] depth false :=
  singleton (fun _ => h) (by cases afterColon <;> rfl)

/-- An opening bracket goes one level deeper, unless a colon stands before it. -/
theorem opening : Passes depth false ['<'] (depth + 1) false :=
  singleton (fun h => absurd h (by decide)) rfl

theorem closing : Passes (depth + 1) false ['>'] depth false :=
  singleton (fun h => absurd h (by decide)) rfl

end Passes

/-! ## Quiet texts -/

/-- Whether the character is no bracket and no colon, and a bar only inside of
    brackets. -/
def IsQuiet (depth : Nat) (c : Char) : Prop := c ≠ '<' ∧ c ≠ '>' ∧ c ≠ ':' ∧ (c = '|' → depth ≠ 0)

theorem isQuiet_of_isBare {c : Char} (depth : Nat) (h : isBare c = true) : IsQuiet depth c := by
  refine ⟨ne_of_isBare h (by decide), ne_of_isBare h (by decide), ne_of_isBare h (by decide), ?_⟩
  intro hbar
  exact absurd hbar (ne_of_isBare h (by decide))

namespace Passes

variable {depth : Nat} {afterColon : Bool} {text : Chars}

theorem of_isQuiet {c : Char} (h : IsQuiet depth c) : Passes depth afterColon [c] depth false := by
  obtain ⟨hopen, hclose, hcolon, hbar⟩ := h
  have hdepth : depthAfter? depth afterColon c = some depth := by
    unfold depthAfter?
    rw [if_neg hopen, if_neg hclose, ite_self]
  have hpass := singleton hbar hdepth
  rwa [beq_eq_false_iff_ne.2 hcolon] at hpass

/-- Quiet characters leave the depth, one after another. -/
theorem quiet (h : ∀ c ∈ text, IsQuiet depth c) : Passes depth false text depth false := by
  induction text with
  | nil => exact nil
  | cons c rest ih =>
      have hrest := ih fun d hd => h d (List.mem_cons_of_mem _ hd)
      exact cons (of_isQuiet (h c List.mem_cons_self)) hrest

/-- Past a quiet text the colon before it is forgotten. -/
theorem quiet_of_ne_nil (hne : text ≠ []) (h : ∀ c ∈ text, IsQuiet depth c) :
    Passes depth afterColon text depth false := by
  obtain ⟨c, rest, rfl⟩ := List.exists_cons_of_ne_nil hne
  have hrest := quiet fun d hd => h d (List.mem_cons_of_mem _ hd)
  exact cons (of_isQuiet (h c List.mem_cons_self)) hrest

/-- A bare text is passed whatever stands before it, as it has at least one character. -/
theorem bare (hne : text ≠ []) (h : ∀ c ∈ text, isBare c = true) :
    Passes depth afterColon text depth false :=
  quiet_of_ne_nil hne fun c hc => isQuiet_of_isBare depth (h c hc)

/-- Inside of brackets, texts that pass also pass with bars between them. -/
theorem separated {texts : List Chars} (hdepth : depth ≠ 0) (hne : texts ≠ [])
    (h : ∀ text ∈ texts, ∀ afterColon, Passes depth afterColon text depth false) :
    Passes depth afterColon (separated '|' texts) depth false := by
  induction texts generalizing afterColon with
  | nil => exact absurd rfl hne
  | cons text more ih =>
      have htext := h text List.mem_cons_self afterColon
      by_cases hmore : more = []
      · subst hmore
        exact htext
      · rw [separated_cons hmore]
        exact append htext <| cons (bar hdepth)
          (ih hmore fun other hmem => h other (List.mem_cons_of_mem _ hmem))

end Passes

/-- **MEMBERS WITH BARS BETWEEN THEM ARE FOUND AGAIN**, if each passes outside of
    brackets. -/
theorem members_separated {texts : List Chars} {afterColon : Bool} (hne : texts ≠ [])
    (h : ∀ text ∈ texts, ∀ afterColon, Passes 0 afterColon text 0 false) :
    members 0 afterColon (separated '|' texts) = .ok texts := by
  induction texts generalizing afterColon with
  | nil => exact absurd rfl hne
  | cons text more ih =>
      have htext := h text List.mem_cons_self afterColon
      by_cases hmore : more = []
      · subst hmore
        have hlast := htext []
        rw [List.append_nil] at hlast
        show members 0 afterColon text = _
        rw [hlast]
        show Except.ok (prepend text [[]]) = _
        rw [prepend_cons, List.append_nil]
      · have hrest : members 0 false (separated '|' more) = .ok more :=
          ih hmore fun other hmem => h other (List.mem_cons_of_mem _ hmem)
        rw [separated_cons hmore, htext]
        -- the bar leaves an empty piece, which the text is put in front of
        show prepend text <$> (([] :: ·) <$> members 0 false (separated '|' more)) = _
        rw [hrest]
        show Except.ok (prepend text ([] :: more)) = _
        rw [prepend_cons, List.append_nil]

/-! ## Clauses -/

namespace WrittenClause

variable {written : WrittenClause}

/-- Past its first character a clause consists of `=` and of characters that stand for
    themselves. -/
theorem exists_text_eq_cons (h : written.IsPlain) :
    ∃ c more, written.text = c :: more ∧ c ≠ '|' ∧ c ≠ ':'
      ∧ ∀ d ∈ more, d = '=' ∨ isBare d = true := by
  obtain ⟨operator, bare, htext, hoperator, hne, hbare⟩ := exists_text_eq h
  rcases hoperator with rfl | ⟨comparison, rfl⟩
  · obtain ⟨c, more, rfl⟩ := List.exists_cons_of_ne_nil hne
    have hc := hbare c List.mem_cons_self
    refine ⟨c, more, htext, ne_of_isBare hc (by decide), ne_of_isBare hc (by decide), ?_⟩
    intro d hd
    exact Or.inr (hbare d (List.mem_cons_of_mem _ hd))
  · have hend : ∀ d ∈ '=' :: bare, d = '=' ∨ isBare d = true := fun d hd =>
      (List.mem_cons.1 hd).imp_right (hbare d)
    have hbare : ∀ d ∈ bare, d = '=' ∨ isBare d = true := fun d hd => Or.inr (hbare d hd)
    cases comparison with
    | atLeast => exact ⟨'>', _, htext, by decide, by decide, hend⟩
    | atMost => exact ⟨'<', _, htext, by decide, by decide, hend⟩
    | above => exact ⟨'>', _, htext, by decide, by decide, hbare⟩
    | below => exact ⟨'<', _, htext, by decide, by decide, hbare⟩
    | equal => exact ⟨'=', _, htext, by decide, by decide, hbare⟩

/-- A plain clause has no bar. -/
theorem bar_not_mem_text (h : written.IsPlain) : '|' ∉ written.text := by
  obtain ⟨c, more, htext, hbar, -, hmore⟩ := exists_text_eq_cons h
  rw [htext, List.mem_cons, not_or]
  refine ⟨hbar.symm, fun hmem => ?_⟩
  rcases hmore '|' hmem with heq | hbare
  · exact absurd heq (by decide)
  · exact absurd hbare (by decide)

/-- A clause passes after its colon: a bracket in it comes first. -/
theorem passes_text (h : written.IsPlain) (depth : Nat) :
    Passes depth true written.text depth false := by
  obtain ⟨c, more, htext, hbar, hcolon, hmore⟩ := exists_text_eq_cons h
  have hquiet : ∀ d ∈ more, IsQuiet depth d := by
    intro d hd
    rcases hmore d hd with rfl | hbare
    · exact ⟨by decide, by decide, by decide, fun h => absurd h (by decide)⟩
    · exact isQuiet_of_isBare depth hbare
  rw [htext]
  exact .cons (.after_colon hbar hcolon) (.quiet hquiet)

/-- A search for an opening bracket goes past a text that holds neither brackets nor colons. -/
theorem openBracket?_append {text : Chars} (h : ∀ c ∈ text, c ≠ '<' ∧ c ≠ ':') (rest : Chars) :
    openBracket? false (text ++ rest)
      = (openBracket? false rest).map fun halves => (text ++ halves.1, halves.2) := by
  induction text with
  | nil => exact Option.map_id'.symm
  | cons c text ih =>
      obtain ⟨hopen, hcolon⟩ := h c List.mem_cons_self
      rw [List.cons_append, openBracket?, beq_eq_false_iff_ne.2 hcolon,
        ih fun d hd => h d (List.mem_cons_of_mem _ hd), Option.map_map]
      rw [if_neg]
      · rfl
      · rw [decide_eq_false hopen]
        exact Bool.false_ne_true

/-- After the colon of a clause the first opening bracket is one past the clause. -/
theorem openBracket?_text_append (h : written.IsPlain) (rest : Chars) :
    openBracket? true (written.text ++ rest)
      = (openBracket? false rest).map fun halves => (written.text ++ halves.1, halves.2) := by
  obtain ⟨c, more, htext, -, hcolon, hmore⟩ := exists_text_eq_cons h
  have hquiet : ∀ d ∈ more, d ≠ '<' ∧ d ≠ ':' := by
    intro d hd
    rcases hmore d hd with rfl | hbare
    · decide
    · exact ⟨ne_of_isBare hbare (by decide), ne_of_isBare hbare (by decide)⟩
  rw [htext, List.cons_append, openBracket?, beq_eq_false_iff_ne.2 hcolon,
    openBracket?_append hquiet rest, Option.map_map]
  rw [Bool.not_true, Bool.and_false, if_neg Bool.false_ne_true]
  rfl

/-- The bracket of the items is found right after the clause, for one inside it follows a
    colon. -/
theorem openBracket?_text_items (h : written.IsPlain) (inside : Chars) :
    openBracket? true (written.text ++ '<' :: inside) = some (written.text, inside) := by
  rw [openBracket?_text_append h]
  show some (written.text ++ [], inside) = _
  rw [List.append_nil]

theorem openBracket?_text (h : written.IsPlain) : openBracket? true written.text = none := by
  have hnone := openBracket?_text_append h []
  rwa [List.append_nil] at hnone

end WrittenClause

/-! ## Phrases -/

/-- A clause is passed at the depth where it begins, its own comparison included. -/
theorem passes_clauseText {clause : Option WrittenClause} (depth : Nat)
    (h : ∀ written ∈ clause, written.Suits .items) :
    Passes depth false (clauseText clause) depth false := by
  cases clause with
  | none => exact .nil
  | some written =>
      exact .cons .colon (WrittenClause.passes_text (h written rfl).isPlain depth)

theorem passes_markText (mark : Bool) (depth : Nat) :
    Passes depth false (markText mark) depth false := by
  cases mark with
  | false => exact .nil
  | true => exact .of_isQuiet ⟨by decide, by decide, by decide, fun h => absurd h (by decide)⟩

/-- The scan passes the names of types, whatever stands before them. -/
theorem TypeName.passes_text (name : TypeName) {depth : Nat} {afterColon : Bool} :
    Passes depth afterColon name.text.toList depth false :=
  .bare name.text_ne_nil name.isBare_of_mem_text

theorem ChoiceName.passes_text (name : ChoiceName) {depth : Nat} {afterColon : Bool} :
    Passes depth afterColon name.text.toList depth false :=
  .bare name.bare_text.1 name.bare_text.2

/-- A lead passes; whether it leaves a colon behind does not matter. -/
theorem Lead.passes_text (lead : Lead) (depth : Nat) (afterColon : Bool) :
    ∃ afterColon', Passes depth afterColon lead.text depth afterColon' := by
  have hkeyword : Passes depth afterColon choiceLead depth true :=
    .append (.bare (by decide) (List.all_eq_true.1 (by decide)) : Passes depth afterColon ['e', 'n', 'u', 'm'] depth false)
      .colon
  cases lead with
  | nothing => exact ⟨afterColon, .nil⟩
  | typed name => exact ⟨true, .append name.passes_text .colon⟩
  | keyword hint =>
      cases hint with
      | none => exact ⟨true, hkeyword⟩
      | some name => exact ⟨true, .append (.append hkeyword name.passes_text) .colon⟩

/-- Choices are passed inside brackets, where their bars do not separate members. -/
theorem WrittenChoices.passes_texts {choices : WrittenChoices} (h : choices.WellFormed)
    {depth : Nat} {afterColon : Bool} (hdepth : depth ≠ 0) :
    Passes depth afterColon (separated '|' choices.texts) depth false := by
  refine .separated hdepth (texts_ne_nil h) fun text hmem afterColon => ?_
  obtain ⟨hne, hbare⟩ := bare_texts h text hmem
  exact .bare hne hbare

namespace Phrase

/-- What the invariant of the scan says of a phrase. -/
def PassesAlone (phrase : Phrase) : Prop :=
  ∀ depth afterColon, (phrase.hasBars = true → depth ≠ 0) →
    Passes depth afterColon phrase.text depth false

/-- Members with bars between them pass inside of brackets if the members do. -/
theorem passes_memberTexts {members : List Phrase} (hne : members ≠ [])
    (h : ∀ member ∈ members, member.PassesAlone) {depth : Nat} {afterColon : Bool}
    (hdepth : depth ≠ 0) :
    Passes depth afterColon (separated '|' (memberTexts members)) depth false := by
  rw [memberTexts_eq_map]
  refine .separated hdepth (fun hnil => hne (List.map_eq_nil_iff.1 hnil)) ?_
  intro text hmem afterColon
  obtain ⟨member, hmember, rfl⟩ := List.mem_map.1 hmem
  exact h member hmember depth afterColon fun _ => hdepth

/-- **A WELL-FORMED PHRASE PASSES** from any depth to the same depth, as long as its
    bars are inside of brackets. -/
theorem passes_text (phrase : Phrase) : phrase.WellFormed → phrase.PassesAlone := by
  induction phrase using Phrase.induction with
  | named mark name =>
      intro _ depth afterColon _
      exact .append name.passes_text (passes_markText mark depth)
  | bounded mark name clause =>
      intro h depth afterColon _
      obtain ⟨-, measure, -, hsuits⟩ := h
      -- right after the colon the bracket of a comparison opens nothing
      exact .append (.append name.passes_text (.cons .colon (clause.passes_text hsuits.isPlain depth)))
        (passes_markText mark depth)
  | listed mark lead choices =>
      intro h depth afterColon hdepth
      obtain ⟨afterColon', hlead⟩ := lead.passes_text depth afterColon
      exact .append (.append hlead (choices.passes_texts h.1 (hdepth rfl))) (passes_markText mark depth)
  | array mark clause items ih =>
      intro h depth afterColon _
      have hlead : Passes depth afterColon arrayLead depth false := .bare (by decide) (List.all_eq_true.1 (by decide))
      cases items with
      | none => exact .append (.append hlead (passes_clauseText depth h)) (passes_markText mark depth)
      | some items =>
          obtain ⟨hclause, hitems⟩ := h
          -- the bracket before the items makes room for bars in them
          have hinside : Passes (depth + 1) false items.text (depth + 1) false :=
            ih items rfl hitems _ _ fun _ => Nat.succ_ne_zero depth
          exact .append (.append (.append hlead (passes_clauseText depth hclause))
            (.cons .opening (.append hinside .closing))) (passes_markText mark depth)
  | union mark members ih =>
      intro h depth afterColon hdepth
      obtain ⟨hlength, -, -, hall⟩ := h
      have hlead : Passes depth afterColon unionLead depth true :=
        .append (.bare (by decide) (List.all_eq_true.1 (by decide))
          : Passes depth afterColon ['t', 'y', 'p', 'e', 's'] depth false) .colon
      have hne : members ≠ [] := List.ne_nil_of_length_pos (Nat.lt_of_succ_lt hlength)
      -- the union has bars, so the depth that is given is not zero
      refine .append (.append hlead (passes_memberTexts hne ?_ (hdepth rfl)))
        (passes_markText mark depth)
      intro member hmem
      exact ih member hmem ((allWellFormed_iff members).1 hall member hmem)

/-- The scan finds the members of a union. -/
theorem members_texts {members : List Phrase} (hne : members ≠ [])
    (hall : ∀ member ∈ members, member.WellFormed) (hbars : ∀ member ∈ members, member.hasBars = false) :
    Dsl.members 0 false (separated '|' (members.map text)) = .ok (members.map text) := by
  refine members_separated (fun hnil => hne (List.map_eq_nil_iff.1 hnil)) ?_
  intro text hmem afterColon
  obtain ⟨member, hmember, rfl⟩ := List.mem_map.1 hmem
  -- at depth zero a member may have no bars of its own
  refine passes_text member (hall member hmember) 0 afterColon fun hhas => ?_
  rw [hbars member hmember] at hhas
  exact nomatch hhas

end Phrase

end Conform.Dsl
