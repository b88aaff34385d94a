import Conform.Proofs.Brackets

/-! # Forms — one level of the text of a phrase

    The text of a phrase has no blanks, and without its mark it does not end in one;
    so what is read first is whether there is a mark (`bodyOf_text`).  What is read
    next is the form of the body: one lemma for each way of writing a phrase.  In
    each form the parts are the texts of the phrases inside. -/

namespace Conform.Dsl

open Conform.Text

/-! ## Blanks -/

/-- Texts without blanks at their ends leave none at the ends of their listing. -/
theorem unblank_separated {texts : List Chars} (h : ∀ text ∈ texts, Unblank text) :
    Unblank (Text.separated '|' texts) :=
  forall_mem_separated h (by decide)

theorem unblank_clauseText {clause : Option WrittenClause}
    (h : ∀ written ∈ clause, written.Suits .items) : Unblank (clauseText clause) := by
  cases clause with
  | none => exact fun c hc => nomatch hc
  | some written => exact .cons (by decide) (WrittenClause.unblank_text (h written rfl).isPlain)

theorem unblank_markText (mark : Bool) : Unblank (markText mark) := by
  cases mark with
  | false => exact fun c hc => nomatch hc
  | true => exact .cons (by decide) fun c hc => nomatch hc

theorem TypeName.unblank_text (name : TypeName) : Unblank name.text.toList :=
  unblank_of_isBare name.isBare_of_mem_text

theorem Lead.unblank_text (lead : Lead) : Unblank lead.text := by
  have hkeyword : Unblank choiceLead := by decide
  have hcolon : Unblank [':'] := by decide
  cases lead with
  | nothing => exact fun c hc => nomatch hc
  | typed name => exact .append name.unblank_text hcolon
  | keyword hint =>
      cases hint with
      | none => exact hkeyword
      | some name => exact .append (.append hkeyword (unblank_of_isBare name.bare_text.2)) hcolon

theorem WrittenChoices.unblank_texts {choices : WrittenChoices} (h : choices.WellFormed) :
    Unblank (Text.separated '|' choices.texts) :=
  unblank_separated fun text hmem => unblank_of_isBare (bare_texts h text hmem).2

/-- Nothing in a listing of choices can be taken for a hint or for items. -/
theorem WrittenChoices.ne_of_mem_separated {choices : WrittenChoices} (h : choices.WellFormed) :
    ∀ c ∈ Text.separated '|' choices.texts, c ≠ ':' ∧ c ≠ '<' := by
  refine forall_mem_separated (fun text hmem c hc => ?_) (by decide)
  have hbare := (bare_texts h text hmem).2 c hc
  exact ⟨ne_of_isBare hbare (by decide), ne_of_isBare hbare (by decide)⟩

/-- A listing of choices is never empty, since each choice has a text. -/
theorem WrittenChoices.separated_ne_nil {choices : WrittenChoices} (h : choices.WellFormed) :
    Text.separated '|' choices.texts ≠ [] :=
  List.ne_nil_of_mem (mem_separated (length_texts h))

namespace Phrase

/-- A well-formed phrase has no blanks. -/
theorem unblank_text (phrase : Phrase) : phrase.WellFormed → Unblank phrase.text := by
  -- a text without blanks needs no trimming, so each part may be read as it stands
  induction phrase using Phrase.induction with
  | named mark name =>
      intro _
      exact .append name.unblank_text (unblank_markText mark)
  | bounded mark name clause =>
      rintro ⟨-, measure, -, hsuits⟩
      exact .append (.append name.unblank_text (.cons (by decide) (clause.unblank_text hsuits.isPlain)))
        (unblank_markText mark)
  | listed mark lead choices =>
      intro h
      exact .append (.append lead.unblank_text (choices.unblank_texts h.1)) (unblank_markText mark)
  | array mark clause items ih =>
      intro h
      have hlead : Unblank arrayLead := by decide
      cases items with
      | none => exact .append (.append hlead (unblank_clauseText h)) (unblank_markText mark)
      | some items =>
          obtain ⟨hclause, hitems⟩ := h
          have hinside : Unblank (items.text ++ ['>']) := .append (ih items rfl hitems) (by decide)
          exact .append (.append (.append hlead (unblank_clauseText hclause))
            (.cons (by decide) hinside)) (unblank_markText mark)
  | union mark members ih =>
      rintro ⟨-, -, -, hall⟩
      have hlead : Unblank unionLead := by decide
      have hmembers : Unblank (separated '|' (memberTexts members)) := by
        rw [memberTexts_eq_map]
        refine unblank_separated fun text hmem => ?_
        obtain ⟨member, hmember, rfl⟩ := List.mem_map.1 hmem
        exact ih member hmember ((allWellFormed_iff members).1 hall member hmember)
      exact .append (.append hlead hmembers) (unblank_markText mark)

end Phrase

/-! ## Final characters -/

/-- Whether the text ends, and not in a mark. -/
def EndsUnmarked (text : Chars) : Prop := ∃ last ∈ text.getLast?, last ≠ '!'

namespace EndsUnmarked

variable {text front back : Chars}

theorem ne_nil (h : EndsUnmarked text) : text ≠ [] := by
  rintro rfl
  obtain ⟨last, hlast, -⟩ := h
  exact nomatch hlast

/-- Only the end counts. -/
theorem append (hback : EndsUnmarked back) : EndsUnmarked (front ++ back) := by
  obtain ⟨last, hlast, hmark⟩ := hback
  refine ⟨last, ?_, hmark⟩
  rw [List.getLast?_append, Option.mem_def.1 hlast]
  rfl

theorem cons {c : Char} (h : EndsUnmarked text) : EndsUnmarked (c :: text) := by
  show EndsUnmarked ([c] ++ text)
  exact append h

theorem of_isBare (hne : text ≠ []) (h : ∀ c ∈ text, isBare c = true) : EndsUnmarked text := by
  refine ⟨text.getLast hne, List.getLast?_eq_some_getLast hne, ?_⟩
  exact ne_of_isBare (h _ (List.getLast_mem hne)) (by decide)

/-- Separated texts end as the last of them does. -/
theorem separated {texts : List Chars} (hne : texts ≠ [])
    (h : ∀ last ∈ texts.getLast?, EndsUnmarked last) : EndsUnmarked (separated '|' texts) := by
  induction texts with
  | nil => exact absurd rfl hne
  | cons text more ih =>
      cases more with
      | nil => exact h text rfl
      | cons next more =>
          rw [List.getLast?_cons_cons] at h
          exact append (cons (ih (List.cons_ne_nil _ _) h))

end EndsUnmarked

/-- A plain clause ends with a bound or with a closing bracket, so it ends unmarked. -/
theorem WrittenClause.endsUnmarked_text {clause : WrittenClause} (h : clause.IsPlain) :
    EndsUnmarked clause.text := by
  obtain ⟨operator, bare, htext, -, hne, hbare⟩ := exists_text_eq h
  rw [htext]
  exact .append (.of_isBare hne hbare)

namespace Phrase

theorem text_of_mark_eq_false {phrase : Phrase} (h : phrase.mark = false) :
    phrase.text = phrase.body := by
  unfold text
  rw [h]
  exact List.append_nil _

/-- The body of a well-formed phrase does not end in a mark. -/
theorem endsUnmarked_body (phrase : Phrase) : phrase.WellFormed → EndsUnmarked phrase.body := by
  induction phrase using Phrase.induction with
  | named mark name =>
      intro _
      exact .of_isBare name.text_ne_nil name.isBare_of_mem_text
  | bounded mark name clause =>
      rintro ⟨-, measure, -, hsuits⟩
      exact .append (.cons (clause.endsUnmarked_text hsuits.isPlain))
  | listed mark lead choices =>
      intro h
      refine .append (.separated (choices.texts_ne_nil h.1) fun last hlast => ?_)
      obtain ⟨hne, hbare⟩ := choices.bare_texts h.1 last (List.mem_of_getLast? hlast)
      exact .of_isBare hne hbare
  | array mark clause items ih =>
      intro h
      cases items with
      | none =>
          cases clause with
          | none => exact ⟨'y', rfl, by decide⟩
          | some written => exact .append (.cons (WrittenClause.endsUnmarked_text (h written rfl).isPlain))
      | some items =>
          -- a mark of the items stands before the closing bracket
          have hclosing : EndsUnmarked ['>'] := ⟨'>', rfl, by decide⟩
          exact .append (.cons (.append hclosing))
  | union mark members ih =>
      rintro ⟨hlength, -, hlast, hall⟩
      have hne : members ≠ [] := List.ne_nil_of_length_pos (Nat.lt_of_succ_lt hlength)
      show EndsUnmarked (unionLead ++ separated '|' (memberTexts members))
      rw [memberTexts_eq_map]
      refine .append (.separated (fun hnil => hne (List.map_eq_nil_iff.1 hnil)) ?_)
      intro text htext
      rw [List.getLast?_map] at htext
      obtain ⟨last, hmem, rfl⟩ := Option.map_eq_some_iff.1 htext
      -- the mark after the last member would be the union's
      rw [text_of_mark_eq_false (hlast last hmem)]
      have hmem := List.mem_of_getLast? hmem
      exact ih last hmem ((allWellFormed_iff members).1 hall last hmem)

end Phrase

/-! ## The mark -/

section

variable {text : Chars} (hne : trim text ≠ [])
include hne

/-- A text without a mark at its end is its own body. -/
theorem bodyOf_of_unmarked (h : beforeLast? '!' (trim text) = none) :
    ∃ hlength, bodyOf text = .ok (false, ⟨trim text, hlength⟩) := by
  refine ⟨length_trim_le text, ?_⟩
  rw [bodyOf, if_neg fun hempty => hne (List.isEmpty_iff.1 hempty)]
  split
  · rfl
  · next hlast => exact nomatch h.symm.trans hlast

/-- One mark is taken off, with the blanks before it. -/
theorem bodyOf_of_marked {front : Chars} (h : beforeLast? '!' (trim text) = some front)
    (honce : ¬endsWithMark (trimEnd front) = true) :
    ∃ hlength, bodyOf text = .ok (true, ⟨trimEnd front, hlength⟩) := by
  have hlength : (trimEnd front).length ≤ text.length := by
    have hfront := length_beforeLast? h
    have hend := length_trimEnd_le front
    have htrim := length_trim_le text
    omega
  refine ⟨hlength, ?_⟩
  rw [bodyOf, if_neg fun hempty => hne (List.isEmpty_iff.1 hempty)]
  split
  · next hlast => cases h.symm.trans hlast
  · next hlast =>
      obtain rfl := Option.some.inj (h.symm.trans hlast)
      rw [if_neg honce]

/-- **TWO MARKS ARE A FAULT**, also with blanks between them. -/
theorem bodyOf_of_repeated {front : Chars} (h : beforeLast? '!' (trim text) = some front)
    (htwice : endsWithMark (trimEnd front) = true) :
    bodyOf text = .error ⟨trim text, .repeatedMark⟩ := by
  rw [bodyOf, if_neg fun hempty => hne (List.isEmpty_iff.1 hempty)]
  split
  · next hlast => exact nomatch h.symm.trans hlast
  · next hlast =>
      obtain rfl := Option.some.inj (h.symm.trans hlast)
      rw [if_pos htwice]

end

section

variable {body : Chars}

theorem beforeLast?_of_endsUnmarked (h : EndsUnmarked body) : beforeLast? '!' body = none := by
  obtain ⟨last, hlast, hmark⟩ := h
  refine beforeLast?_eq_none fun hmarked => hmark ?_
  exact Option.some.inj ((Option.mem_def.1 hlast).symm.trans hmarked)

/-- A text without a mark is its own body. -/
theorem bodyOf_unmarked (hblank : Unblank body) (hend : EndsUnmarked body) :
    ∃ h, bodyOf body = .ok (false, ⟨body, h⟩) := by
  have htrim := trim_eq_self hblank
  have hne : trim body ≠ [] := htrim.symm ▸ hend.ne_nil
  have hlast : beforeLast? '!' (trim body) = none := by
    rw [htrim]
    exact beforeLast?_of_endsUnmarked hend
  obtain ⟨_, hread⟩ := bodyOf_of_unmarked hne hlast
  exact ⟨Nat.le_refl _, hread.trans (congrArg Except.ok (Prod.ext rfl (Subtype.ext htrim)))⟩

/-- The body of a text with a mark is what stands before it, if no mark stands there
    too. -/
theorem bodyOf_marked (hblank : Unblank body) (hend : EndsUnmarked body) :
    ∃ h, bodyOf (body ++ ['!']) = .ok (true, ⟨body, h⟩) := by
  have hmark : Unblank ['!'] := by decide
  have htrim : trim (body ++ ['!']) = body ++ ['!'] := trim_eq_self (hblank.append hmark)
  have hbody : trimEnd body = body := trimEnd_eq_self hblank
  have hne : trim (body ++ ['!']) ≠ [] := by
    rw [htrim]
    exact List.append_ne_nil_of_left_ne_nil hend.ne_nil _
  have hlast : beforeLast? '!' (trim (body ++ ['!'])) = some body := by
    rw [htrim, beforeLast?_append_singleton]
  -- what stands before the mark has none, so the mark is not repeated
  have honce : ¬endsWithMark (trimEnd body) = true := by
    rw [hbody, endsWithMark, beforeLast?_of_endsUnmarked hend]
    exact Bool.false_ne_true
  obtain ⟨_, hread⟩ := bodyOf_of_marked hne hlast honce
  exact ⟨(List.prefix_append body ['!']).length_le,
    hread.trans (congrArg Except.ok (Prod.ext rfl (Subtype.ext hbody)))⟩

end

/-- Reading the text of a phrase starts with its mark. -/
theorem Phrase.bodyOf_text {phrase : Phrase} (h : phrase.WellFormed) :
    ∃ hlength, bodyOf phrase.text = .ok (phrase.mark, ⟨phrase.body, hlength⟩) := by
  have hblank : Unblank phrase.body := (unblank_text phrase h).of_append.1
  have hend := endsUnmarked_body phrase h
  unfold text
  cases phrase.mark with
  | false =>
      rw [show phrase.body ++ markText false = phrase.body from List.append_nil _]
      exact bodyOf_unmarked hblank hend
  | true => exact bodyOf_marked hblank hend

/-! ## The body -/

/-- The outline of a form whose parts are read on their own. -/
def Form.outline (mark : Bool) (body : Chars) {size : Nat} : Form size → Outline
  | .fault flaw => .fault flaw
  | .named name => .named mark name
  | .choice hint choices => .choice mark hint choices
  | .bounded name rest => .bounded mark name body rest
  | .array clause items => .array mark clause (items.map fun part => Outline.ofText part.1)
  | .union parts => .union mark (parts.map fun part => Outline.ofText part.1)

/-- The room that a form is given does not show in its outline. -/
theorem Form.outline_widen (mark : Bool) (body : Chars) {small large : Nat} (h : small ≤ large)
    (form : Form small) : (form.widen h).outline mark body = form.outline mark body := by
  cases form with
  | array clause items => cases items <;> rfl
  | union parts =>
      show Outline.union mark ((parts.map _).map _) = Outline.union mark (parts.map _)
      rw [List.map_map]
      rfl
  | fault flaw => rfl
  | named name => rfl
  | choice hint choices => rfl
  | bounded name rest => rfl

/-- The outline of a text is that of the form of its body. -/
theorem Outline.ofText_of_bodyOf {text : Chars} {mark : Bool}
    {body : { body : Chars // body.length ≤ text.length }} (h : bodyOf text = .ok (mark, body)) :
    Outline.ofText text = (formOf body.1).outline mark body.1 := by
  rw [Outline.ofText, h]
  dsimp only
  cases formOf body.1 with
  | fault flaw => rfl
  | named name => rfl
  | choice hint choices => rfl
  | bounded name rest => rfl
  | array clause items => cases items <;> rfl
  | union parts => rfl

theorem Outline.ofText_of_fault {text : Chars} {flaw : Fault} (h : bodyOf text = .error flaw) :
    Outline.ofText text = .fault flaw := by
  rw [Outline.ofText, h]

/-- The outline of the text of a phrase is the outline of the form of its body. -/
theorem Phrase.ofText_text {phrase : Phrase} {body : Chars} {form : Form body.length}
    (h : phrase.WellFormed) (hbody : phrase.body = body) (hform : formOf body = form) :
    Outline.ofText phrase.text = form.outline phrase.mark body := by
  obtain ⟨hlength, hread⟩ := bodyOf_text h
  subst hbody hform
  exact Outline.ofText_of_bodyOf hread

/-- Anything that does not begin like an array is read in general. -/
theorem formOf_of_afterLead?_eq_none {body : Chars} (h : afterLead? arrayLead body = none) :
    formOf body = generalForm body := by
  unfold formOf
  split
  · rfl
  · next hsome => exact nomatch h.symm.trans hsome

/-- Without a colon a body is a name, a listing of choices or a fault. -/
theorem generalForm_of_not_mem {body : Chars} (hblank : Unblank body) (h : ':' ∉ body) :
    generalForm body = plainForm body.length body := by
  unfold generalForm
  split
  · rw [trim_eq_self hblank]
  · next hcut => exact nomatch (cutAt?_eq_none h).symm.trans hcut

/-- The first colon cuts a body, and blanks around it do not count. -/
theorem generalForm_cut {name : Chars} (rest : Chars) (h : ':' ∉ name) :
    ∃ hlength, generalForm (name ++ ':' :: rest)
      = colonForm (name ++ ':' :: rest) (trim name) (trim rest) hlength := by
  have hcut := cutAt?_append rest h
  have hlength : (trim rest).length < (name ++ ':' :: rest).length := by
    have htrim := length_trim_le rest
    rw [List.length_append, List.length_cons]
    omega
  refine ⟨hlength, ?_⟩
  rw [generalForm]
  split
  · next hnone => exact nomatch hcut.symm.trans hnone
  · next hsome =>
      obtain ⟨rfl, rfl⟩ := Prod.mk.inj (Option.some.inj (hcut.symm.trans hsome))
      rfl

/-- Where no blanks are written there are none to trim. -/
theorem generalForm_append {name rest : Chars} (hblank : Unblank (name ++ ':' :: rest))
    (h : ':' ∉ name) :
    ∃ hlength, generalForm (name ++ ':' :: rest)
      = colonForm (name ++ ':' :: rest) name rest hlength := by
  have hname : trim name = name := trim_eq_self hblank.of_append.1
  have hrest : trim rest = rest :=
    trim_eq_self fun c hc => hblank.of_append.2 c (List.mem_cons_of_mem _ hc)
  obtain ⟨hlength, hgeneral⟩ := generalForm_cut rest h
  simp only [hname, hrest] at hgeneral
  exact ⟨_, hgeneral⟩

/-! ## Arrays -/

/-- What follows the lead of an array is read as the rest of an array. -/
theorem formOf_arrayLead {rest : Chars} {form : Form (rest.length + 1)}
    (h : arrayForm? rest = some form) :
    ∃ hsize, formOf (arrayLead ++ rest) = form.widen hsize := by
  have hsize : rest.length + 1 ≤ (arrayLead ++ rest).length := by
    show rest.length + 1 ≤ rest.length + 5
    omega
  refine ⟨hsize, ?_⟩
  unfold formOf
  split
  · next hnone => exact nomatch (afterLead?_append arrayLead rest).symm.trans hnone
  · next hsome =>
      obtain rfl := Option.some.inj ((afterLead?_append arrayLead rest).symm.trans hsome)
      rw [h]

/-- What goes on otherwise after the keyword is no array. -/
theorem arrayForm?_eq_none {rest : Chars} (hne : rest ≠ []) (h : ∀ c ∈ rest, c ≠ ':' ∧ c ≠ '<') :
    arrayForm? rest = none := by
  unfold arrayForm?
  split
  · exact absurd rfl hne
  · exact absurd rfl (h ':' List.mem_cons_self).1
  · exact absurd rfl (h '<' List.mem_cons_self).2
  · rfl

/-- A clause without an opening bracket after it is the whole rest. -/
theorem arrayForm?_colon {more : Chars} (h : openBracket? true more = none) :
    arrayForm? (':' :: more) = some (.array (some more) none) := by
  rw [arrayForm?]
  split
  · rfl
  · next hsome => exact nomatch h.symm.trans hsome

/-- A clause ends where the bracket of the items opens, and the items at the last closing one. -/
theorem arrayForm?_colon_items {more clause inside items : Chars}
    (hopen : openBracket? true more = some (clause, inside))
    (hlast : beforeLast? '>' inside = some items) :
    ∃ hitems, arrayForm? (':' :: more) = some (.array (some clause) (some ⟨items, hitems⟩)) := by
  have hlength := length_openBracket? hopen
  have hlength' := length_beforeLast? hlast
  refine ⟨by simp only [List.length_cons] at hlength ⊢; omega, ?_⟩
  rw [arrayForm?]
  split
  · next hnone => exact nomatch hopen.symm.trans hnone
  · next hsome =>
      obtain ⟨rfl, rfl⟩ := Prod.mk.inj (Option.some.inj (hopen.symm.trans hsome))
      split
      · next hnone => exact nomatch hlast.symm.trans hnone
      · next hsome =>
          obtain rfl := Option.some.inj (hlast.symm.trans hsome)
          rfl

/-- Items may follow at once. -/
theorem arrayForm?_items {inside items : Chars} (hlast : beforeLast? '>' inside = some items) :
    ∃ hitems, arrayForm? ('<' :: inside) = some (.array none (some ⟨items, hitems⟩)) := by
  have hlength := length_beforeLast? hlast
  refine ⟨by simp only [List.length_cons]; omega, ?_⟩
  rw [arrayForm?]
  split
  · next hnone => exact nomatch hlast.symm.trans hnone
  · next hsome =>
      obtain rfl := Option.some.inj (hlast.symm.trans hsome)
      rfl

/-- **THE CLAUSE OF AN ARRAY IS READ AS IT IS WRITTEN**, if no items follow. -/
theorem arrayForm?_clauseText {clause : Option WrittenClause}
    (h : ∀ written ∈ clause, written.Suits .items) :
    arrayForm? (clauseText clause) = some (.array (clause.map WrittenClause.text) none) := by
  cases clause with
  | none => rfl
  | some written => exact arrayForm?_colon (WrittenClause.openBracket?_text (h written rfl).isPlain)

/-- If items follow, the clause ends before them, though it may hold a bracket itself. -/
theorem arrayForm?_clauseText_items {clause : Option WrittenClause}
    (h : ∀ written ∈ clause, written.Suits .items) (items : Chars) :
    ∃ hitems, arrayForm? (clauseText clause ++ '<' :: (items ++ ['>']))
      = some (.array (clause.map WrittenClause.text) (some ⟨items, hitems⟩)) := by
  have hlast := beforeLast?_append_singleton '>' items
  cases clause with
  | none => exact arrayForm?_items hlast
  | some written =>
      exact arrayForm?_colon_items (WrittenClause.openBracket?_text_items (h written rfl).isPlain _) hlast

/-! ## Names and choices -/

theorem TypeName.not_mem_text (name : TypeName) : ':' ∉ name.text.toList := fun hmem =>
  absurd (name.isBare_of_mem_text _ hmem) (by decide)

/-- The name of a type other than an array is read as a name. -/
theorem TypeName.formOf_text {name : TypeName} (h : name.base ≠ .array) :
    formOf name.text.toList = .named name.text.toList := by
  have hlead := name.afterLead?_arrayLead h []
  rw [List.append_nil] at hlead
  have hbar : ¬(name.text.toList.any (· == '|')) = true := by
    rw [List.any_eq_true]
    rintro ⟨c, hc, hbar⟩
    exact ne_of_isBare (name.isBare_of_mem_text c hc) (by decide) (beq_iff_eq.1 hbar)
  rw [formOf_of_afterLead?_eq_none hlead, generalForm_of_not_mem name.unblank_text name.not_mem_text]
  exact if_neg hbar

/-- A name with something after its colon. -/
theorem TypeName.formOf_append {name : TypeName} (h : name.base ≠ .array) {rest : Chars}
    (hblank : Unblank rest) (hne : rest ≠ []) :
    formOf (name.text.toList ++ ':' :: rest) = .bounded name.text.toList rest := by
  obtain ⟨hlength, hgeneral⟩ :=
    generalForm_append (name.unblank_text.append (.cons (by decide) hblank)) name.not_mem_text
  have hunion : ¬String.ofList name.text.toList = "types" := by
    rw [String.ofList_toList]
    exact name.text_ne rfl
  have hchoice : ¬String.ofList name.text.toList = "enum" := by
    rw [String.ofList_toList]
    exact name.text_ne rfl
  rw [formOf_of_afterLead?_eq_none (name.afterLead?_arrayLead h _), hgeneral, colonForm,
    if_neg fun hempty => hne (List.isEmpty_iff.1 hempty), if_neg hunion, if_neg hchoice]

/-- Choices without a lead; their first member may start as the keyword of arrays does. -/
theorem formOf_choices {body : Chars} (hblank : Unblank body) (hbar : '|' ∈ body)
    (h : ∀ c ∈ body, c ≠ ':' ∧ c ≠ '<') : formOf body = .choice none body := by
  have hgeneral : formOf body = generalForm body := by
    unfold formOf
    split
    · rfl
    · next rest hsome =>
        -- past the keyword the first member goes on, or a bar ends it
        obtain rfl := eq_append_of_afterLead? hsome
        have hmem : '|' ∈ rest := (List.mem_append.1 hbar).resolve_left (by decide)
        rw [arrayForm?_eq_none (List.ne_nil_of_mem hmem) fun c hc =>
          h c (List.mem_append_right _ hc)]
  rw [hgeneral, generalForm_of_not_mem hblank fun hmem => (h ':' hmem).1 rfl]
  exact if_pos (List.any_eq_true.2 ⟨'|', hbar, rfl⟩)

/-- What follows the lead of an enumeration is read as its choices. -/
theorem formOf_choiceLead {rest : Chars} (hblank : Unblank rest) (hne : rest ≠ []) :
    formOf (choiceLead ++ rest) = enumForm (choiceLead ++ rest).length rest := by
  have hkeyword : Unblank ['e', 'n', 'u', 'm'] := by decide
  obtain ⟨hlength, hgeneral⟩ : ∃ hlength, generalForm (['e', 'n', 'u', 'm'] ++ ':' :: rest) = _ :=
    generalForm_append (hkeyword.append (.cons (by decide) hblank)) (by decide)
  have hform : formOf (choiceLead ++ rest) = generalForm (choiceLead ++ rest) :=
    formOf_of_afterLead?_eq_none rfl
  rw [hform]
  refine hgeneral.trans ?_
  rw [colonForm, if_neg fun hempty => hne (List.isEmpty_iff.1 hempty), if_neg (by decide),
    if_pos (by decide)]
  rfl

theorem enumForm_of_not_mem (size : Nat) {rest : Chars} (h : ':' ∉ rest) :
    (enumForm size rest) = .choice none rest := by
  unfold enumForm
  rw [cutAt?_eq_none h]

/-- A hint ends with the first colon. -/
theorem enumForm_append (size : Nat) (hint : ChoiceName) (rest : Chars) :
    enumForm size (hint.text.toList ++ ':' :: rest) = .choice (some hint.type) rest := by
  have hcolon : ':' ∉ hint.text.toList := fun hmem => absurd (hint.bare_text.2 _ hmem) (by decide)
  have htrim : trim hint.text.toList = hint.text.toList :=
    trim_eq_self (unblank_of_isBare hint.bare_text.2)
  unfold enumForm
  rw [cutAt?_append rest hcolon]
  dsimp only
  rw [htrim, String.ofList_toList, hint.named]

/-! ## Unions -/

/-- The members of a union are cut where they were joined, if the scan over the brackets finds
    them. -/
theorem unionForm_separated {texts : List Chars} (hlength : 2 ≤ texts.length)
    (hblank : ∀ text ∈ texts, Unblank text)
    (hmembers : members 0 false (separated '|' texts) = .ok texts) :
    ∃ parts, unionForm (separated '|' texts) = .union parts ∧ parts.map Subtype.val = texts := by
  unfold unionForm
  split
  · next herror => exact nomatch hmembers.symm.trans herror
  · next pieces hok =>
      obtain rfl := Except.ok.inj (hmembers.symm.trans hok)
      rw [if_neg (Nat.not_lt.2 hlength)]
      refine ⟨_, rfl, ?_⟩
      rw [List.map_map]
      show texts.attach.map (fun piece => trim piece.1) = texts
      rw [List.attach_map_val]
      exact (List.map_congr_left fun text hmem => trim_eq_self (hblank text hmem)).trans
        (List.map_id texts)

/-- What follows the lead of a union is read as its members. -/
theorem formOf_unionLead {texts : List Chars} (hlength : 2 ≤ texts.length)
    (hblank : ∀ text ∈ texts, Unblank text)
    (hmembers : members 0 false (separated '|' texts) = .ok texts) :
    ∃ (parts : List { part : Chars // part.length < (separated '|' texts).length + 1 })
      (hsize : _ ≤ _), formOf (unionLead ++ separated '|' texts) = Form.widen hsize (.union parts)
        ∧ parts.map Subtype.val = texts := by
  have hkeyword : Unblank ['t', 'y', 'p', 'e', 's'] := by decide
  have hne : separated '|' texts ≠ [] := List.ne_nil_of_mem (mem_separated hlength)
  obtain ⟨hrest, hgeneral⟩ :
      ∃ hrest, generalForm (['t', 'y', 'p', 'e', 's'] ++ ':' :: separated '|' texts) = _ :=
    generalForm_append (hkeyword.append (.cons (by decide) (unblank_separated hblank))) (by decide)
  have hform : formOf (unionLead ++ separated '|' texts)
      = generalForm (unionLead ++ separated '|' texts) := formOf_of_afterLead?_eq_none rfl
  obtain ⟨parts, hunion, hparts⟩ := unionForm_separated hlength hblank hmembers
  refine ⟨parts, hrest, ?_, hparts⟩
  rw [hform]
  refine hgeneral.trans ?_
  rw [colonForm, if_neg fun hempty => hne (List.isEmpty_iff.1 hempty), if_pos (by decide), hunion]
  rfl

end Conform.Dsl
