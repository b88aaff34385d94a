import Conform.Proofs.Legible

/-! # Endings — where legible texts end

    In which way a text is legible is decided by the first of its characters that is not
    quiet: a colon (`Legible.of_colon`) or a bracket (`Legible.of_bracket`).  So a text
    and a longer one that starts with it are legible in the same way, and of the longer
    one there is not much left to be: a clause is at its end, and the items of an array
    are closed already (`Legible.not_bracket_of_append`). -/

namespace Conform.Dsl

open Conform.Text

/-! ## The first character that is not quiet -/

/-- The first character that is not quiet cuts a text in one way only. -/
theorem eq_of_quiet_append {front front' back back' : Chars} {c c' : Char}
    (hfront : ∀ d ∈ front, IsQuiet 0 d) (hfront' : ∀ d ∈ front', IsQuiet 0 d) (hc : ¬IsQuiet 0 c)
    (hc' : ¬IsQuiet 0 c') (h : front ++ c :: back = front' ++ c' :: back') :
    front = front' ∧ c = c' ∧ back = back' := by
  induction front generalizing front' with
  | nil =>
      cases front' with
      | nil => exact ⟨rfl, List.cons.inj h⟩
      | cons d rest =>
          obtain ⟨rfl, -⟩ := List.cons.inj h
          exact absurd (hfront' c List.mem_cons_self) hc
  | cons d rest ih =>
      cases front' with
      | nil =>
          obtain ⟨rfl, -⟩ := List.cons.inj h
          exact absurd (hfront d List.mem_cons_self) hc'
      | cons d' rest' =>
          obtain ⟨rfl, hrest⟩ := List.cons.inj h
          obtain ⟨rfl, hsame⟩ := ih (fun e he => hfront e (List.mem_cons_of_mem _ he))
            (fun e he => hfront' e (List.mem_cons_of_mem _ he)) hrest
          exact ⟨rfl, hsame⟩

theorem isQuiet_of_trimStart {text : Chars} (h : trimStart text = arrayLead) :
    ∀ c ∈ text, IsQuiet 0 c := by
  refine isQuiet_of_isPadded (.trimStart text) ?_
  rw [h]
  exact fun c hc => isQuiet_of_isBare 0 (List.all_eq_true.1 (by decide) c hc)

/-- The keywords of types are quiet. -/
theorem IsKeyword.isQuiet {text : Chars} (h : IsKeyword text) : ∀ c ∈ text, IsQuiet 0 c := by
  refine isQuiet_of_isPadded (.trim text) ?_
  rcases h with htext | htext
  · rw [htext]
    exact fun c hc => isQuiet_of_isBare 0 (List.all_eq_true.1 (by decide) c hc)
  · rw [htext]
    exact fun c hc => isQuiet_of_isBare 0 (List.all_eq_true.1 (by decide) c hc)

theorem not_isQuiet_colon : ¬IsQuiet 0 ':' := fun h => h.2.2.1 rfl

theorem not_isQuiet_opening : ¬IsQuiet 0 '<' := fun h => h.1 rfl

namespace Legible

variable {front back : Chars}

/-- **WHAT FOLLOWS A COLON** is choices or a clause, or it is the clause and the items of
    an array. -/
theorem of_colon (h : Legible (front ++ ':' :: back)) (hfront : ∀ c ∈ front, IsQuiet 0 c) :
    IsKeyword front
      ∨ (IsBuiltin (trim front) ∧ (trimStart front = arrayLead → openBracket? true back = none)
          ∧ (IsListed back ∨ IsBound back))
      ∨ (trimStart front = arrayLead ∧ ∃ clause part rest,
          openBracket? true back = some (clause, part ++ '>' :: rest) ∧ IsBound clause ∧ Legible part
            ∧ ∀ c ∈ rest, IsQuiet 0 c) := by
  generalize htext : front ++ ':' :: back = text at h
  have hmem : ':' ∈ text := htext ▸ List.mem_append_right _ List.mem_cons_self
  cases h with
  | name hquiet => exact absurd (hquiet ':' hmem) not_isQuiet_colon
  | plain hcolon hlisted => exact absurd hmem hcolon
  | keyword hkeyword hbar =>
      obtain ⟨rfl, -, rfl⟩ :=
        eq_of_quiet_append hfront hkeyword.isQuiet not_isQuiet_colon not_isQuiet_colon htext
      exact .inl hkeyword
  | bounded hname hopen hback =>
      obtain ⟨rfl, -, rfl⟩ := eq_of_quiet_append hfront
        (isQuiet_of_isPadded (.trim _) hname.isQuiet) not_isQuiet_colon not_isQuiet_colon htext
      exact .inr (.inl ⟨hname, hopen, hback⟩)
  | items hlead hpart hback =>
      obtain ⟨-, hcolon, -⟩ := eq_of_quiet_append hfront (isQuiet_of_trimStart hlead)
        not_isQuiet_colon not_isQuiet_opening htext
      exact absurd hcolon (by decide)
  | boundedItems hlead hopen hclause hpart hback =>
      obtain ⟨rfl, -, rfl⟩ := eq_of_quiet_append hfront (isQuiet_of_trimStart hlead)
        not_isQuiet_colon not_isQuiet_colon htext
      exact .inr (.inr ⟨hlead, _, _, _, hopen, hclause, hpart, hback⟩)

/-- **THE FIRST BRACKET OPENS**, and what follows it is the items of an array. -/
theorem of_bracket {c : Char} (h : Legible (front ++ c :: back)) (hfront : ∀ d ∈ front, IsQuiet 0 d)
    (hc : c = '<' ∨ c = '>') :
    c = '<' ∧ ∃ part rest, back = part ++ '>' :: rest ∧ Legible part ∧ ∀ d ∈ rest, IsQuiet 0 d := by
  generalize htext : front ++ c :: back = text at h
  have hmem : c ∈ text := htext ▸ List.mem_append_right _ List.mem_cons_self
  have hquiet : ¬IsQuiet 0 c := fun h => hc.elim h.1 h.2.1
  have hcolon {name rest : Chars} (hname : ∀ d ∈ name, IsQuiet 0 d) :
      front ++ c :: back ≠ name ++ ':' :: rest := by
    intro heq
    obtain ⟨-, rfl, -⟩ := eq_of_quiet_append hfront hname hquiet not_isQuiet_colon heq
    exact hc.elim (by decide) (by decide)
  cases h with
  | name hall => exact absurd (hall c hmem) hquiet
  | plain _ hlisted => exact absurd hc (not_or.2 (hlisted.2 c hmem))
  | keyword hkeyword hbar => exact absurd htext (hcolon hkeyword.isQuiet)
  | bounded hname hopen hback =>
      exact absurd htext (hcolon (isQuiet_of_isPadded (.trim _) hname.isQuiet))
  | items hlead hpart hback =>
      obtain ⟨-, rfl, rfl⟩ :=
        eq_of_quiet_append hfront (isQuiet_of_trimStart hlead) hquiet not_isQuiet_opening htext
      exact ⟨rfl, _, _, rfl, hpart, hback⟩
  | boundedItems hlead hopen hclause hpart hback =>
      exact absurd htext (hcolon (isQuiet_of_trimStart hlead))

end Legible

/-! ## Legible texts that go on -/

/-- What ends at the last bracket goes on past a bracket that is not the last one. -/
theorem exists_of_append_closing {part more rest back text : Chars} {c : Char}
    (hrest : ∀ d ∈ rest, IsQuiet 0 d) (hc : ¬IsQuiet 0 c)
    (h : part ++ '>' :: (back ++ c :: text) = more ++ '>' :: rest) :
    ∃ inside, more = part ++ '>' :: inside := by
  have hmem : c ∈ back ++ c :: text := List.mem_append_right _ List.mem_cons_self
  rcases List.append_eq_append_iff.1 h with ⟨front, hmore, hfront⟩ | ⟨front, -, hfront⟩
  · cases front with
    | nil =>
        obtain ⟨-, rfl⟩ := List.cons.inj hfront
        exact absurd (hrest c hmem) hc
    | cons d front =>
        obtain ⟨rfl, -⟩ := List.cons.inj hfront
        exact ⟨front, hmore⟩
  · refine absurd (hrest c ?_) hc
    cases front with
    | nil =>
        obtain ⟨-, rfl⟩ := List.cons.inj hfront
        exact hmem
    | cons d front =>
        obtain ⟨-, rfl⟩ := List.cons.inj hfront
        exact List.mem_append_right _ (List.mem_cons_of_mem _ hmem)

/-- Neither a bar nor a closing bracket is quiet outside brackets. -/
theorem not_isQuiet_of_ends {c : Char} (hc : c = '|' ∨ c = '>') : ¬IsQuiet 0 c := by
  rintro ⟨-, hclose, -, hbar⟩
  rcases hc with rfl | rfl
  · exact hbar rfl rfl
  · exact hclose rfl

/-- A clause is at its end: what goes on behind a colon is choices. -/
theorem not_bracket_of_bounded_append {front rest back : Chars} {c : Char} (hname : IsBuiltin (trim front))
    (hopen : trimStart front = arrayLead → openBracket? true rest = none) (hrest : IsBound rest)
    (hc : c = '|' ∨ c = '>') (hwhole : Legible (front ++ ':' :: (rest ++ c :: back))) :
    c = '|' ∧ ∀ d ∈ rest, d ≠ '<' ∧ d ≠ '>' := by
  -- what goes on in a clause is quiet
  have hends {more : Chars} (hmem : c ∈ more) : ¬IsBound (rest ++ more) := fun hmore =>
    not_isQuiet_of_ends hc (hrest.isQuiet_of_append hmore c hmem)
  rcases hwhole.of_colon (isQuiet_of_isPadded (.trim front) hname.isQuiet) with
    hkeyword | ⟨-, -, hlisted | hmore⟩ | ⟨hlead, clause, part, tail, hsome, hclause, -⟩
  · exact absurd hkeyword hname.not_isKeyword
  · obtain ⟨hbrackets, hcmore⟩ := List.forall_mem_append.1 hlisted.2
    exact ⟨hc.resolve_right (hcmore c List.mem_cons_self).2, hbrackets⟩
  · exact absurd hmore (hends List.mem_cons_self)
  · obtain ⟨more, rfl, hmore⟩ := exists_of_openBracket?_append (hopen hlead) hsome
    refine absurd hclause (hends ?_)
    cases more with
    | nil =>
        obtain ⟨rfl, -⟩ := List.cons.inj hmore
        exact absurd hc (by decide)
    | cons d more =>
        obtain ⟨rfl, -⟩ := List.cons.inj hmore
        exact List.mem_cons_self

/-- **A LEGIBLE TEXT WITHOUT BARS GOES ON** only past a bar, and only if there are no
    brackets in it. -/
theorem Legible.not_bracket_of_append {text back : Chars} {c : Char} (h : Legible text) (hbar : '|' ∉ text)
    (hc : c = '|' ∨ c = '>') (hwhole : Legible (text ++ c :: back)) :
    c = '|' ∧ ∀ d ∈ text, d ≠ '<' ∧ d ≠ '>' := by
  -- by induction on how the text is legible: the bracket that is open decides what may follow
  induction h generalizing c back with
  | name hquiet =>
      refine ⟨hc.resolve_right ?_, fun d hd => ⟨(hquiet d hd).1, (hquiet d hd).2.1⟩⟩
      rintro rfl
      exact absurd (hwhole.of_bracket hquiet (.inr rfl)).1 (by decide)
  | plain _ hlisted => exact absurd hlisted.1 hbar
  | keyword _ hmem => exact absurd (List.mem_append_right _ (List.mem_cons_of_mem _ hmem)) hbar
  | @bounded front rest hname hopen hrest =>
      have hfront := isQuiet_of_isPadded (.trim front) hname.isQuiet
      have hbound : IsBound rest := by
        refine hrest.resolve_left fun hlisted => hbar ?_
        exact List.mem_append_right _ (List.mem_cons_of_mem _ hlisted.1)
      rw [List.append_assoc, List.cons_append] at hwhole
      obtain ⟨hcbar, hbrackets⟩ := not_bracket_of_bounded_append hname hopen hbound hc hwhole
      refine ⟨hcbar, List.forall_mem_append.2 ⟨?_, List.forall_mem_cons.2 ⟨by decide, hbrackets⟩⟩⟩
      exact fun d hd => ⟨(hfront d hd).1, (hfront d hd).2.1⟩
  | @items front part rest hlead hpart hrest ih =>
      rw [List.append_assoc, List.cons_append, List.append_assoc, List.cons_append] at hwhole
      obtain ⟨-, more, tail, heq, hmore, htail⟩ :=
        hwhole.of_bracket (isQuiet_of_trimStart hlead) (.inl rfl)
      obtain ⟨inside, rfl⟩ := exists_of_append_closing htail (not_isQuiet_of_ends hc) heq
      -- what follows would have to be inside the bracket, where the text has no bar either
      have hpartbar : '|' ∉ part := fun hmem =>
        hbar (List.mem_append_right _ (List.mem_cons_of_mem _ (List.mem_append_left _ hmem)))
      exact absurd (ih hpartbar (.inr rfl) hmore).1 (by decide)
  | @boundedItems front rest clause part tail hlead hopen hclause hpart _ ih =>
      rw [List.append_assoc, List.cons_append] at hwhole
      have hsome := openBracket?_append_of_some hopen (c :: back)
      rcases hwhole.of_colon (isQuiet_of_trimStart hlead) with hkeyword | ⟨-, hnone, -⟩ |
        ⟨-, clause', more, tail', hsome', -, hmore, htail⟩
      · have htrim : trim front = arrayLead := congrArg trimEnd hlead
        rcases hkeyword with heq | heq
        · exact absurd (htrim.symm.trans heq) (by decide)
        · exact absurd (htrim.symm.trans heq) (by decide)
      · rw [hnone hlead] at hsome
        cases hsome
      · obtain ⟨-, heq⟩ := Prod.mk.inj (Option.some.inj (hsome.symm.trans hsome'))
        rw [List.append_assoc, List.cons_append] at heq
        obtain ⟨inside, rfl⟩ := exists_of_append_closing htail (not_isQuiet_of_ends hc) heq
        have hpartbar : '|' ∉ part := by
          intro hmem
          refine hbar (List.mem_append_right _ (List.mem_cons_of_mem _ ?_))
          rw [eq_append_of_openBracket? hopen]
          exact List.mem_append_right _ (List.mem_cons_of_mem _ (List.mem_append_left _ hmem))
        exact absurd (ih hpartbar (.inr rfl) hmore).1 (by decide)

end Conform.Dsl
