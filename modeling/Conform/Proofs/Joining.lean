import Conform.Proofs.CompilingAlone
import Conform.Proofs.Overriding
import Conform.Proofs.BarScan

/-! # Joining — unions whose members compile by themselves

    Texts without bars are joined with bars and put after `types:`.  The scan for bars
    finds exactly the texts again if each of them is closed (`members_of_isClosed`), and
    what it finds is read as it would be by itself (`Outline.ofText_trim`).  A text that
    leaves a bracket open takes the bar behind it along, and what it is then is not
    legible (`isClosed_of_members`): the union is read, or nothing is. -/

namespace Conform

namespace Dsl

open Conform.Text

/-! ## Cutting joined texts -/

/-- At a bar outside of brackets a text that passes is cut off. -/
theorem members_append_bar {text : Chars} {afterColon : Bool} (h : Passes 0 false text 0 afterColon)
    (rest : Chars) :
    members 0 false (text ++ '|' :: rest) = (text :: ·) <$> members 0 false rest := by
  rw [h]
  show prepend text <$> (([] :: ·) <$> members 0 false rest) = _
  cases members 0 false rest with
  | error fault => rfl
  | ok pieces =>
      show Except.ok (prepend text ([] :: pieces)) = _
      rw [prepend_cons, List.append_nil]
      rfl

/-- Closed texts are found again. -/
theorem members_of_isClosed {texts : List Chars} (hne : texts ≠ [])
    (hbars : ∀ text ∈ texts, '|' ∉ text) (hclosed : ∀ text ∈ texts, IsClosed text) :
    members 0 false (separated '|' texts) = .ok texts := by
  induction texts with
  | nil => exact absurd rfl hne
  | cons text more ih =>
      by_cases hmore : more = []
      · subst hmore
        exact hclosed text List.mem_cons_self
      · obtain ⟨afterColon, hpasses⟩ :=
          (isClosed_iff (hbars text List.mem_cons_self)).1 (hclosed text List.mem_cons_self)
        have hrest := ih hmore (fun other hmem => hbars other (List.mem_cons_of_mem _ hmem))
          fun other hmem => hclosed other (List.mem_cons_of_mem _ hmem)
        rw [separated_cons hmore, members_append_bar hpasses, hrest]
        rfl

/-- What a text is put before begins with the text. -/
theorem exists_prepend_eq_cons {text : Chars} (hne : text ≠ []) (pieces : List Chars) :
    ∃ rest more, prepend text pieces = (text ++ rest) :: more := by
  induction text with
  | nil => exact absurd rfl hne
  | cons c text ih =>
      by_cases htext : text = []
      · subst htext
        cases pieces with
        | nil => exact ⟨[], [], rfl⟩
        | cons piece more => exact ⟨piece, more, rfl⟩
      · obtain ⟨rest, more, hprepend⟩ := ih htext
        refine ⟨rest, more, ?_⟩
        show extendFirst c (prepend text pieces) = _
        rw [hprepend]
        rfl

/-- A text that leaves a bracket open takes the bar behind it along, and what it is then
    is not legible. -/
theorem depth_eq_zero_of_legible {text rest : Chars} {pieces : List Chars} {depth : Nat} {afterColon : Bool}
    (htext : Legible text) (hbar : '|' ∉ text) (hpasses : Passes 0 false text depth afterColon)
    (h : members 0 false (text ++ '|' :: rest) = .ok pieces) (hpieces : ∀ piece ∈ pieces, Legible piece) :
    depth = 0 := by
  by_contra hdepth
  have hbarred : Passes 0 false (text ++ ['|']) depth false := hpasses.append (.bar hdepth)
  have htaken : text ++ '|' :: rest = text ++ ['|'] ++ rest := List.append_cons text '|' rest
  rw [htaken, hbarred] at h
  obtain ⟨inner, -, heq⟩ := exists_of_bind_eq_ok h
  obtain rfl := Except.ok.inj heq
  obtain ⟨tail, others, hfirst⟩ := exists_prepend_eq_cons
    (List.append_ne_nil_of_right_ne_nil text (List.cons_ne_nil '|' [])) inner
  have hlegible : Legible (text ++ '|' :: tail) := by
    have hmem : text ++ ['|'] ++ tail ∈ prepend (text ++ ['|']) inner := hfirst ▸ List.mem_cons_self
    rw [List.append_assoc] at hmem
    exact hpieces _ hmem
  -- only a text without brackets goes on past a bar
  obtain ⟨-, hbrackets⟩ := htext.not_bracket_of_append hbar (.inl rfl) hlegible
  exact hdepth (hpasses.depth_eq_zero (isClosed_of_not_bracket hbar hbrackets))

/-- **ONLY CLOSED TEXTS ARE CUT TO LEGIBLE PIECES** when they are joined. -/
theorem isClosed_of_members {texts pieces : List Chars} (hbars : ∀ text ∈ texts, '|' ∉ text)
    (htexts : ∀ text ∈ texts, Legible text) (h : members 0 false (separated '|' texts) = .ok pieces)
    (hpieces : ∀ piece ∈ pieces, Legible piece) : ∀ text ∈ texts, IsClosed text := by
  induction texts generalizing pieces with
  | nil => exact nofun
  | cons text more ih =>
      obtain ⟨hbar, hmorebars⟩ := List.forall_mem_cons.1 hbars
      obtain ⟨htext, hmoretexts⟩ := List.forall_mem_cons.1 htexts
      by_cases hmore : more = []
      · subst hmore
        exact List.forall_mem_singleton.2 ((isClosed_iff hbar).2 (passes_of_members hbar h))
      · rw [separated_cons hmore] at h
        rcases passes_or_unbalanced hbar 0 false with ⟨depth, afterColon, hpasses⟩ | hfails
        · obtain rfl := depth_eq_zero_of_legible htext hbar hpasses h hpieces
          rw [members_append_bar hpasses] at h
          obtain ⟨inner, hinner, heq⟩ := exists_of_bind_eq_ok h
          obtain rfl := Except.ok.inj heq
          have hrest := ih hmorebars hmoretexts hinner fun piece hmem =>
            hpieces piece (List.mem_cons_of_mem _ hmem)
          exact List.forall_mem_cons.2 ⟨(isClosed_iff hbar).2 ⟨afterColon, hpasses⟩, hrest⟩
        · rw [hfails] at h
          cases h

/-- What the second of two related things passes on to the first, it passes on all along. -/
theorem forall_mem_of_forall₂ {α β : Type} {R : α → β → Prop} {P : α → Prop} {Q : β → Prop}
    {first : List α} {second : List β} (h : List.Forall₂ R first second)
    (hpass : ∀ a b, R a b → Q b → P a) (hsecond : ∀ b ∈ second, Q b) : ∀ a ∈ first, P a := by
  induction h with
  | nil => exact nofun
  | cons hhead _ ih =>
      obtain ⟨hb, hrest⟩ := List.forall_mem_cons.1 hsecond
      exact List.forall_mem_cons.2 ⟨hpass _ _ hhead hb, ih hrest⟩

/-- A text is without bars if it is part of one. -/
theorem bar_not_mem_of_isPadded {part text : Chars} (hpadded : IsPadded part text)
    (hbar : '|' ∉ text) : '|' ∉ part :=
  fun hmem => hbar (hpadded.isInfix.subset hmem)

/-- Blanks around texts do not open or close them. -/
theorem forall_isClosed_iff {pieces texts : List Chars} (h : List.Forall₂ IsPadded pieces texts)
    (hbars : ∀ text ∈ texts, '|' ∉ text) :
    (∀ piece ∈ pieces, IsClosed piece) ↔ ∀ text ∈ texts, IsClosed text := by
  induction h with
  | nil => exact Iff.rfl
  | cons hpiece _ ih =>
      obtain ⟨hbar, hmorebars⟩ := List.forall_mem_cons.1 hbars
      rw [List.forall_mem_cons, List.forall_mem_cons, isClosed_iff_of_isPadded hpiece hbar,
        ih hmorebars]

/-- Closed texts are found again, up to blanks, in what is trimmed. -/
theorem exists_members_of_isClosed {texts : List Chars} (hne : texts ≠ [])
    (hbars : ∀ text ∈ texts, '|' ∉ text) (hclosed : ∀ text ∈ texts, IsClosed text) :
    ∃ pieces, members 0 false (trim (separated '|' texts)) = .ok pieces
      ∧ List.Forall₂ IsPadded pieces texts := by
  obtain ⟨pieces, htrim, hpadded⟩ := exists_trim_separated (show isBlank '|' = false by decide) texts
  have hpieces : pieces ≠ [] := by
    rintro rfl
    exact hne (List.forall₂_nil_left_iff.1 hpadded)
  have hpiecebars : ∀ piece ∈ pieces, '|' ∉ piece :=
    forall_mem_of_forall₂ hpadded (fun _ _ => bar_not_mem_of_isPadded) hbars
  have hpiececlosed := (forall_isClosed_iff hpadded hbars).2 hclosed
  rw [htrim]
  exact ⟨pieces, members_of_isClosed hpieces hpiecebars hpiececlosed, hpadded⟩

/-- Texts are closed if there are legible pieces, once they are joined and trimmed. -/
theorem isClosed_of_members_trim {texts pieces : List Chars} (hbars : ∀ text ∈ texts, '|' ∉ text)
    (htexts : ∀ text ∈ texts, Legible (trim text))
    (h : members 0 false (trim (separated '|' texts)) = .ok pieces)
    (hpieces : ∀ piece ∈ pieces, Legible (trim piece)) : ∀ text ∈ texts, IsClosed text := by
  obtain ⟨trimmed, htrim, hpadded⟩ := exists_trim_separated (show isBlank '|' = false by decide) texts
  have hbars' : ∀ piece ∈ trimmed, '|' ∉ piece :=
    forall_mem_of_forall₂ hpadded (fun _ _ => bar_not_mem_of_isPadded) hbars
  have hlegible : ∀ piece ∈ trimmed, Legible piece := by
    refine forall_mem_of_forall₂ hpadded ?_ htexts
    intro piece text hpiece htext
    rw [hpiece.trim_eq] at htext
    exact htext.of_isPadded (.trim piece)
  rw [htrim] at h
  have hclosed := isClosed_of_members hbars' hlegible h fun piece hmem =>
    (hpieces piece hmem).of_isPadded (.trim piece)
  exact (forall_isClosed_iff hpadded hbars).1 hclosed

/-! ## Reading pieces -/

/-- **BLANKS AROUND A TEXT ARE NO MATTER** to what is read of it. -/
theorem Outline.ofText_trim {text : Chars} (hne : trim text ≠ []) :
    Outline.ofText (trim text) = Outline.ofText text := by
  have htrim : trim (trim text) = trim text := trim_trim text
  have hne' : trim (trim text) ≠ [] := htrim.symm ▸ hne
  cases hlast : beforeLast? '!' (trim text) with
  | none =>
      obtain ⟨hlength, hbody⟩ := bodyOf_of_unmarked hne hlast
      obtain ⟨hlength', hbody'⟩ := bodyOf_of_unmarked hne' (htrim.symm ▸ hlast)
      rw [ofText_of_bodyOf hbody, ofText_of_bodyOf hbody']
      dsimp only
      rw [htrim]
  | some front =>
      have hlast' : beforeLast? '!' (trim (trim text)) = some front := htrim.symm ▸ hlast
      by_cases htwice : endsWithMark (trimEnd front) = true
      · rw [ofText_of_fault (bodyOf_of_repeated hne hlast htwice),
          ofText_of_fault (bodyOf_of_repeated hne' hlast' htwice), htrim]
      · obtain ⟨hlength, hbody⟩ := bodyOf_of_marked hne hlast htwice
        obtain ⟨hlength', hbody'⟩ := bodyOf_of_marked hne' hlast' htwice
        rw [ofText_of_bodyOf hbody, ofText_of_bodyOf hbody']

/-- Pieces are read as the texts that they are with blanks around. -/
theorem map_ofText_of_isPadded {pieces texts : List Chars} (h : List.Forall₂ IsPadded pieces texts)
    (hblank : ∀ text ∈ texts, trim text ≠ []) :
    pieces.map (fun piece => Outline.ofText (trim piece)) = texts.map Outline.ofText := by
  induction h with
  | nil => rfl
  | cons hpiece _ ih =>
      obtain ⟨htext, hrest⟩ := List.forall_mem_cons.1 hblank
      rw [List.map_cons, List.map_cons, ih hrest, ← hpiece.trim_eq, Outline.ofText_trim htext]

/-! ## Unions -/

/-- What stands behind the keyword of unions is read as a union. -/
theorem formOf_union {rest : Chars} (hne : trim rest ≠ []) :
    ∃ hsize, formOf (unionLead ++ rest) = (unionForm (trim rest)).widen hsize := by
  have hkeyword : trim ['t', 'y', 'p', 'e', 's'] = ['t', 'y', 'p', 'e', 's'] := by decide
  obtain ⟨hlength, hgeneral⟩ :
      ∃ hlength, generalForm (['t', 'y', 'p', 'e', 's'] ++ ':' :: rest) = _ :=
    generalForm_cut rest (by decide)
  have hform : formOf (unionLead ++ rest) = generalForm (unionLead ++ rest) :=
    formOf_of_afterLead?_eq_none rfl
  refine ⟨hlength, hform.trans (hgeneral.trans ?_)⟩
  rw [hkeyword, colonForm, if_neg fun hempty => hne (List.isEmpty_iff.1 hempty), if_pos (by decide)]
  rfl

/-- Whether a text ends with a mark shows in its end. -/
theorem endsWithMark_append {back : Chars} (h : back ≠ []) (front : Chars) :
    endsWithMark (front ++ back) = endsWithMark back := by
  induction front with
  | nil => rfl
  | cons c front ih =>
      obtain ⟨d, more, hmore⟩ := List.exists_cons_of_ne_nil (List.append_ne_nil_of_right_ne_nil front h)
      rw [← ih, List.cons_append, hmore, endsWithMark, beforeLast?, Option.isSome_map, endsWithMark]

/-- Behind the keyword of unions a text is read as a union, unless it ends with a mark. -/
theorem Outline.ofText_union {rest : Chars} (hne : trim rest ≠ [])
    (hmark : endsWithMark (trim rest) = false) :
    ∃ body, Outline.ofText (unionLead ++ rest) = (unionForm (trim rest)).outline false body := by
  have htrim : trim (unionLead ++ rest) = unionLead ++ trimEnd rest := by
    rw [trim, show trimStart (unionLead ++ rest) = unionLead ++ rest from trimStart_cons (by decide) _,
      trimEnd_append (trimEnd_ne_nil hne)]
  have hne' : trim (unionLead ++ rest) ≠ [] := by
    rw [htrim]
    exact List.cons_ne_nil _ _
  have hunmarked : beforeLast? '!' (trim (unionLead ++ rest)) = none := by
    obtain ⟨front, hfront⟩ := exists_trimEnd_eq_append hne
    refine Option.not_isSome_iff_eq_none.1 (Bool.eq_false_iff.1 ?_)
    show endsWithMark (trim (unionLead ++ rest)) = false
    rw [htrim, hfront, ← List.append_assoc, endsWithMark_append hne, hmark]
  have hrest : trim (trimEnd rest) = trim rest := (IsPadded.trimEnd rest).trim_eq.symm
  obtain ⟨hlength, hbody⟩ := bodyOf_of_unmarked hne' hunmarked
  obtain ⟨hsize, hform⟩ := formOf_union (hrest.symm ▸ hne : trim (trimEnd rest) ≠ [])
  refine ⟨unionLead ++ trimEnd rest, ?_⟩
  rw [ofText_of_bodyOf hbody]
  dsimp only
  rw [htrim, hform, Form.outline_widen, hrest]

/-- What the scan finds is what the members are read from. -/
theorem outline_unionForm {rest : Chars} {pieces : List Chars} (h : members 0 false rest = .ok pieces)
    (hseveral : 2 ≤ pieces.length) (body : Chars) :
    (unionForm rest).outline false body
      = .union false (pieces.map fun piece => Outline.ofText (trim piece)) := by
  rw [unionForm]
  split
  · next hfault => cases h.symm.trans hfault
  · next hpieces =>
      obtain rfl := Except.ok.inj (h.symm.trans hpieces)
      rw [if_neg (Nat.not_lt.2 hseveral), Form.outline, List.map_map]
      exact congrArg (Outline.union false) (List.attach_map_val (f := Outline.ofText ∘ trim))

/-- What reading each of the members ensures is ensured of all of them. -/
theorem Outline.ensures_each {α : Type} {I : Names → Prop} {P : α → Prop} {f : α → Outline}
    {path : String} {parts : List α} (h : ∀ part ∈ parts, Ensures I ((f part).node path) fun _ => P part) :
    Ensures I (Outline.nodes path (parts.map f)) fun _ => ∀ part ∈ parts, P part := by
  induction parts with
  | nil => exact .pure nofun
  | cons part more ih =>
      obtain ⟨hpart, hmore⟩ := List.forall_mem_cons.1 h
      rw [List.map_cons, Outline.nodes]
      refine hpart.bind ?_
      intro node hfirst
      exact (ih hmore).bind fun nodes hrest => .pure (List.forall_mem_cons.2 ⟨hfirst, hrest⟩)

/-- A union denotes something only if the pieces that the scan finds are legible. -/
theorem ensures_pieces (rest body : Chars) (path : String) :
    Ensures Unregistered (((unionForm rest).outline false body).node path) fun _ =>
      ∃ pieces, members 0 false rest = .ok pieces ∧ ∀ piece ∈ pieces, Legible (trim piece) := by
  by_cases hcut : ∃ pieces, members 0 false rest = .ok pieces ∧ 2 ≤ pieces.length
  · obtain ⟨pieces, hpieces, hseveral⟩ := hcut
    rw [outline_unionForm hpieces hseveral, Outline.node]
    refine (Outline.ensures_each fun piece _ => ensures_legible (trim piece) path).bind ?_
    intro nodes hlegible
    exact .pure ⟨pieces, hpieces, hlegible⟩
  · obtain ⟨flaw, hflaw⟩ : ∃ flaw, unionForm rest = .fault flaw := by
      rw [unionForm]
      split
      · exact ⟨_, rfl⟩
      · next pieces hpieces =>
          split
          · exact ⟨_, rfl⟩
          · next hseveral => exact absurd ⟨pieces, hpieces, Nat.not_lt.1 hseveral⟩ hcut
    rw [hflaw, Form.outline, Outline.node]
    exact .throw _

/-- Reading members that each denote a tree gives the trees. -/
theorem nodes_run {sources : List String} {nodes : List Node}
    (h : List.Forall₂ DenotesAlone sources nodes) (path : String) (names : Names) :
    (Outline.nodes path (sources.map fun source => Outline.ofText source.toList)).run names
      = (.ok nodes, names) := by
  induction h with
  | nil => rfl
  | @cons source node _ _ hsource _ ih =>
      have hfirst : ((Outline.ofText source.toList).node path).run names = (.ok node, names) :=
        hsource path names
      rw [List.map_cons, Outline.nodes, Naming.bind_run_ok hfirst, Naming.bind_run_ok ih]
      rfl

/-! ## Joined texts -/

/-- The texts as the members of a union. -/
def unionText (texts : List String) : String := "types:" ++ joinWith "|" texts

/-- The members of a union are joined with bars. -/
theorem toList_joinWith (texts : List String) :
    (joinWith "|" texts).toList = separated '|' (texts.map String.toList) := by
  induction texts with
  | nil => rfl
  | cons text more ih =>
      cases more with
      | nil => rfl
      | cons next more =>
          rw [joinWith, String.toList_append, String.toList_append, ih, List.append_assoc]
          · rfl
          · exact List.cons_ne_nil next more

theorem toList_unionText (texts : List String) :
    (unionText texts).toList = unionLead ++ separated '|' (texts.map String.toList) := by
  rw [unionText, String.toList_append, toList_joinWith]
  rfl

/-- A text that denotes something is not blank. -/
theorem DenotesAlone.trim_ne_nil {source : String} {node : Node} (h : DenotesAlone source node) :
    trim source.toList ≠ [] := by
  intro hblank
  have hbody : bodyOf source.toList = .error ⟨source.toList, .emptySpecification⟩ := by
    rw [bodyOf, if_pos (List.isEmpty_iff.2 hblank)]
  have hread := h "" ⟨{}, false, false⟩
  rw [read, Outline.ofText_of_fault hbody, Outline.node] at hread
  cases congrArg Prod.fst hread

/-- A text that denotes something is legible. -/
theorem DenotesAlone.legible {source : String} {node : Node} (h : DenotesAlone source node) :
    Legible (trim source.toList) := by
  have hread := congrArg Prod.fst (h "" ⟨{}, false, false⟩)
  rw [read, ← Outline.ofText_trim h.trim_ne_nil] at hread
  exact (ensures_legible (trim source.toList) "" ⟨{}, false, false⟩ fun _ _ hanswers => hanswers).2
    node hread

section

variable {texts : List String} (hlength : 2 ≤ texts.length)
  (hblank : ∀ text ∈ texts, trim text.toList ≠ [])
  (hmark : ∀ last ∈ texts.getLast?, endsWithMark (trim last.toList) = false)
include hlength hblank hmark

/-- **THE TEXT OF A UNION HAS THE OUTLINE OF A UNION**, without a mark of its own. -/
theorem exists_outline_unionText :
    ∃ body, Outline.ofText (unionText texts).toList
      = (unionForm (trim (separated '|' (texts.map String.toList)))).outline false body := by
  have hne : texts ≠ [] := List.ne_nil_of_length_pos (Nat.lt_of_succ_lt hlength)
  have hlast := hblank _ (List.getLast_mem hne)
  have hunmarked := hmark _ (List.getLast?_eq_some_getLast hne)
  -- the joined texts end as the last of them does
  obtain ⟨front, hfront⟩ := exists_separated_append '|' (texts.dropLast.map String.toList)
  have hjoined : separated '|' (texts.map String.toList) = front ++ (texts.getLast hne).toList :=
    calc separated '|' (texts.map String.toList)
        = separated '|' ((texts.dropLast ++ [texts.getLast hne]).map String.toList) := by
          rw [List.dropLast_append_getLast hne]
      _ = separated '|' (texts.dropLast.map String.toList ++ [(texts.getLast hne).toList]) := by
          rw [List.map_append]
          rfl
      _ = front ++ (texts.getLast hne).toList := hfront _
  obtain ⟨start, hstart⟩ := exists_trim_append hlast front
  rw [← hjoined] at hstart
  rw [toList_unionText]
  refine Outline.ofText_union ?_ ?_
  · rw [hstart]
    exact List.append_ne_nil_of_right_ne_nil _ hlast
  · rw [hstart, endsWithMark_append hlast, hunmarked]

variable {nodes : List Node} (hbars : ∀ text ∈ texts, '|' ∉ text.toList)
include hbars

/-- If the texts are closed, the union of what they denote is what the joined texts
    denote. -/
theorem denotesAlone_unionText (hdenote : List.Forall₂ DenotesAlone texts nodes)
    (hclosed : ∀ text ∈ texts, IsClosed text.toList) :
    DenotesAlone (unionText texts) (.union {} nodes) := by
  have hne : texts.map String.toList ≠ [] := by
    rw [Ne, List.map_eq_nil_iff]
    exact List.ne_nil_of_length_pos (Nat.lt_of_succ_lt hlength)
  obtain ⟨body, houtline⟩ := exists_outline_unionText hlength hblank hmark
  obtain ⟨pieces, hpieces, hpadded⟩ :=
    exists_members_of_isClosed hne (List.forall_mem_map.2 hbars) (List.forall_mem_map.2 hclosed)
  have hseveral : 2 ≤ pieces.length := by
    rw [hpadded.length_eq, List.length_map]
    exact hlength
  rw [outline_unionForm hpieces hseveral, map_ofText_of_isPadded hpadded (List.forall_mem_map.2 hblank),
    List.map_map] at houtline
  intro path names
  have hnodes : (Outline.nodes path (texts.map (Outline.ofText ∘ String.toList))).run names
      = (.ok nodes, names) := nodes_run hdenote path names
  rw [read, houtline, Outline.node, Naming.bind_run_ok hnodes]
  rfl

/-- If the joined texts denote anything, the texts are closed. -/
theorem isClosed_of_denotesAlone_unionText (hdenote : List.Forall₂ DenotesAlone texts nodes) {node : Node}
    (h : DenotesAlone (unionText texts) node) : ∀ text ∈ texts, IsClosed text.toList := by
  obtain ⟨body, houtline⟩ := exists_outline_unionText hlength hblank hmark
  have hread := congrArg Prod.fst (h "" ⟨{}, false, false⟩)
  rw [read, houtline] at hread
  obtain ⟨pieces, hpieces, hlegible⟩ :=
    (ensures_pieces _ body "" ⟨{}, false, false⟩ fun _ _ hanswers => hanswers).2 node hread
  have htexts : ∀ text ∈ texts, Legible (trim text.toList) :=
    forall_mem_of_forall₂ hdenote (fun _ _ h _ => h.legible) fun _ _ => trivial
  exact List.forall_mem_map.1 (isClosed_of_members_trim (List.forall_mem_map.2 hbars)
    (List.forall_mem_map.2 htexts) hpieces hlegible)

end

end Dsl

namespace Compiler

/-- **A TEXT COMPILES BY ITSELF** to the tree that it denotes by itself. -/
theorem compiled_text_iff {source : String} {node : Node} :
    compiled (.text source) = .ok node ↔ Dsl.DenotesAlone source node := by
  constructor
  · intro hcompiled
    have hread : ((Dsl.read "" source).run ⟨{}, false, false⟩).1 = .ok node := by
      rw [compiled, compile, compileAt, (compileText_run_of_cacheless "" source rfl).1] at hcompiled
      exact hcompiled
    have hnames : ((Dsl.read "" source).run ⟨{}, false, false⟩).2 = ⟨{}, false, false⟩ :=
      Dsl.read_run_of_detached "" source rfl
    exact Dsl.denotesAlone_of_not_consulted (Prod.ext hread hnames) rfl
  · intro hdenotes
    exact (makes_text hdenotes).compiled_eq

/-- **UNIONS COMPILE MEMBER BY MEMBER** where the scan for bars and the readers of the
    members agree on the brackets.  Of texts without bars that compile by themselves, the
    last one without a mark, the joined texts compile exactly if each of the texts is
    closed to the scan, and to nothing but the union of the trees; and all of them are
    closed if they are tight. -/
theorem joined_compile_to_union {texts : List String} {nodes : List Node} (hlength : 2 ≤ texts.length)
    (hcompile : List.Forall₂ (fun text node => compiled (.text text) = .ok node) texts nodes)
    (hbars : ∀ text ∈ texts, '|' ∉ text.toList)
    (hmark : ∀ last ∈ texts.getLast?, Dsl.endsWithMark (Text.trim last.toList) = false) :
    ((∃ node, compiled (.text (Dsl.unionText texts)) = .ok node)
        ↔ ∀ text ∈ texts, Dsl.IsClosed text.toList)
      ∧ (∀ node, compiled (.text (Dsl.unionText texts)) = .ok node → node = .union {} nodes)
      ∧ ((∀ text ∈ texts, Dsl.IsTight text.toList) →
          compiled (.text (Dsl.unionText texts)) = .ok (.union {} nodes)) := by
  have hdenote : List.Forall₂ Dsl.DenotesAlone texts nodes :=
    hcompile.imp fun _ _ => compiled_text_iff.1
  have hblank : ∀ text ∈ texts, Text.trim text.toList ≠ [] :=
    Dsl.forall_mem_of_forall₂ hdenote (fun _ _ h _ => h.trim_ne_nil) fun _ _ => trivial
  -- being closed is enough for the members, and needed by the text they are joined to
  have hunion (hclosed : ∀ text ∈ texts, Dsl.IsClosed text.toList) :
      compiled (.text (Dsl.unionText texts)) = .ok (.union {} nodes) :=
    compiled_text_iff.2 (Dsl.denotesAlone_unionText hlength hblank hmark hbars hdenote hclosed)
  have hclosed {node : Node} (h : compiled (.text (Dsl.unionText texts)) = .ok node) :
      ∀ text ∈ texts, Dsl.IsClosed text.toList :=
    Dsl.isClosed_of_denotesAlone_unionText hlength hblank hmark hbars hdenote (compiled_text_iff.1 h)
  refine ⟨⟨?_, ?_⟩, ?_, ?_⟩
  · rintro ⟨node, h⟩
    exact hclosed h
  · intro hall
    exact ⟨_, hunion hall⟩
  · intro node h
    exact Except.ok.inj (h.symm.trans (hunion (hclosed h)))
  · intro htight
    have hlegible : ∀ text ∈ texts, Dsl.Legible text.toList :=
      Dsl.forall_mem_of_forall₂ hdenote (fun _ _ h _ => h.legible.of_isPadded (.trim _))
        fun _ _ => trivial
    exact hunion fun text hmem => (hlegible text hmem).isClosed (hbars text hmem) (htight text hmem)

/-- A number less than five, however it is written. -/
theorem compiled_below {source : String}
    (h : Dsl.Outline.ofText source.toList = .bounded false "number".toList source.toList "<5".toList) :
    compiled (.text source) = .ok (.leaf .number { clause := some (.below (.ofNat 5)) }) := by
  have hclause : Dsl.clauseOf .value "<5".toList = .ok (.below (.ofNat 5)) := by
    have hread : (Dsl.clauseOf .value "<5".toList).toOption = some (.below (.ofNat 5)) := by
      decide +kernel
    cases hclause : Dsl.clauseOf .value "<5".toList with
    | error fault =>
        rw [hclause] at hread
        cases hread
    | ok clause =>
        rw [hclause] at hread
        rw [Option.some.inj hread]
  have hconstrain : Dsl.constrain "number".toList source.toList "<5".toList (.ofType (.primitive .number))
      = .ok (.leaf .number { clause := some (.below (.ofNat 5)) }) := by
    rw [Dsl.constrain, if_neg (by decide)]
    show (Dsl.clauseOf .value "<5".toList >>= _) = _
    rw [hclause]
    rfl
  refine compiled_text_iff.2 fun path names => ?_
  have hresolve : Dsl.resolve path "number".toList = pure (.ofType (.primitive .number)) := rfl
  rw [Dsl.read, h, Dsl.Outline.node, hresolve, pure_bind, hconstrain]
  rfl

theorem compiled_string {source : String}
    (h : Dsl.Outline.ofText source.toList = .named false "string".toList) :
    compiled (.text source) = .ok (.leaf .string {}) := by
  refine compiled_text_iff.2 fun path names => ?_
  rw [Dsl.read, h]
  rfl

/-- A comparison may stand apart from the name that it is about. -/
theorem joined_compile_to_union_spaced :
    let texts := ["number :<5", " string "]
    let nodes := [Node.leaf .number { clause := some (.below (.ofNat 5)) }, .leaf .string {}]
    2 ≤ texts.length ∧ List.Forall₂ (fun text node => compiled (.text text) = .ok node) texts nodes
      ∧ (∀ text ∈ texts, '|' ∉ text.toList)
      ∧ (∀ last ∈ texts.getLast?, Dsl.endsWithMark (Text.trim last.toList) = false)
      ∧ (∀ text ∈ texts, Dsl.IsTight text.toList)
      ∧ compiled (.text (Dsl.unionText texts)) = .ok (.union {} nodes) := by
  intro texts nodes
  have hcompile : List.Forall₂ (fun text node => compiled (.text text) = .ok node) texts nodes := by
    refine .cons (compiled_below ?_) (.cons (compiled_string ?_) .nil)
    · rw [Dsl.Outline.ofText]
      rfl
    · rw [Dsl.Outline.ofText]
      rfl
  have hbars : ∀ text ∈ texts, '|' ∉ text.toList := by decide
  have hmark : ∀ last ∈ texts.getLast?, Dsl.endsWithMark (Text.trim last.toList) = false := by decide
  have htight : ∀ text ∈ texts, Dsl.IsTight text.toList := by decide
  exact ⟨by decide, hcompile, hbars, hmark, htight,
    (joined_compile_to_union (by decide) hcompile hbars hmark).2.2 htight⟩

/-- A comparison that stands apart from its colon is taken for a bracket that is never
    closed. -/
theorem unclosed_by_spaced_comparison :
    ¬ ∀ (texts : List String) (nodes : List Node), 2 ≤ texts.length →
      List.Forall₂ (fun text node => compiled (.text text) = .ok node) texts nodes →
      (∀ text ∈ texts, '|' ∉ text.toList) →
      (∀ last ∈ texts.getLast?, Dsl.endsWithMark (Text.trim last.toList) = false) →
      compiled (.text (Dsl.unionText texts)) = .ok (.union {} nodes) := by
  intro h
  have hcompile : List.Forall₂ (fun text node => compiled (.text text) = .ok node)
      ["number: <5", "string"]
      [.leaf .number { clause := some (.below (.ofNat 5)) }, .leaf .string {}] := by
    refine .cons (compiled_below ?_) (.cons (compiled_string ?_) .nil)
    · rw [Dsl.Outline.ofText]
      rfl
    · rw [Dsl.Outline.ofText]
      rfl
  have hunion := compiled_text_iff.1 (h _ _ (by decide) hcompile (by decide) (by decide))
  have houtline : Dsl.Outline.ofText (Dsl.unionText ["number: <5", "string"]).toList
      = .fault ⟨"number: <5|string".toList, .unclosedBracket⟩ := by
    rw [Dsl.Outline.ofText]
    rfl
  have hread := congrArg Prod.fst (hunion "" ⟨{}, false, false⟩)
  rw [Dsl.read, houtline, Dsl.Outline.node] at hread
  cases hread

end Compiler

end Conform
