import Conform.Proofs.Endings

/-! # The scan for bars — what it makes of legible texts

    Phrases are written without blanks; a text that is read may have them nearly
    everywhere.  The scan and the reader of a clause do not agree on one of these places:
    to the scan an angle bracket is a comparison only right after a colon, and to the
    reader blanks before it are no matter.  A text is TIGHT if no comparison stands apart
    from its colon; a legible text that is tight passes (`Legible.passes`), and is closed. -/

namespace Conform.Dsl

open Conform.Text

/-! ## Tight texts -/

/-- Whether the text starts with an angle bracket. -/
def startsWithBracket : Chars → Bool
  | [] => false
  | c :: _ => c == '<' || c == '>'

/-- Whether the text starts with a colon that has an angle bracket after blanks. -/
def startsLoosely : Chars → Bool
  | ':' :: rest => startsWithBracket (trimStart rest) && !startsWithBracket rest
  | _ => false

/-- Whether every comparison in the text stands right after its colon. -/
def IsTight (text : Chars) : Prop := ∀ tail ∈ text.tails, startsLoosely tail = false

instance (text : Chars) : Decidable (IsTight text) := List.decidableBAll _ _

/-- Only the first character decides whether a text starts with a bracket. -/
theorem startsWithBracket_append {front : Chars} (h : front ≠ []) (back : Chars) :
    startsWithBracket (front ++ back) = startsWithBracket front := by
  cases front with
  | nil => exact absurd rfl h
  | cons c rest => rfl

/-- What starts loosely does so whatever comes after it. -/
theorem startsLoosely_append {front : Chars} (h : startsLoosely front = true) (back : Chars) :
    startsLoosely (front ++ back) = true := by
  rw [startsLoosely.eq_def] at h
  split at h
  · next rest =>
      have hne : trimStart rest ≠ [] := by
        intro hnil
        rw [hnil] at h
        cases h
      have hrest : rest ≠ [] := by
        rintro rfl
        exact hne rfl
      have htrim : trimStart (rest ++ back) = trimStart rest ++ back := by
        rw [trimStart, List.dropWhile_append]
        exact if_neg fun hempty => hne (List.isEmpty_iff.1 hempty)
      rw [List.cons_append, startsLoosely, htrim, startsWithBracket_append hne,
        startsWithBracket_append hrest]
      exact h
  · cases h

theorem IsTight.startsLoosely {text : Chars} (h : IsTight text) : Dsl.startsLoosely text = false :=
  h text ((List.mem_tails _ _).2 List.suffix_rfl)

/-- A part of a tight text is tight. -/
theorem IsTight.of_isInfix {part text : Chars} (h : IsTight text) (hpart : part <:+: text) :
    IsTight part := by
  intro tail htail
  obtain ⟨front, back, rfl⟩ := hpart
  obtain ⟨before, rfl⟩ := (List.mem_tails _ _).1 htail
  refine Bool.eq_false_iff.2 fun hloose => ?_
  have hmem : tail ++ back ∈ (front ++ (before ++ tail) ++ back).tails := by
    refine (List.mem_tails _ _).2 ⟨front ++ before, ?_⟩
    rw [List.append_assoc, List.append_assoc, List.append_assoc]
  exact Bool.false_ne_true ((h _ hmem).symm.trans (startsLoosely_append hloose back))

/-- A bracket past blanks and a colon is loose. -/
theorem startsLoosely_of_blank {front : Chars} (hfront : IsBlankText front) (hne : front ≠ [])
    {c : Char} (hc : c = '<' ∨ c = '>') (more : Chars) :
    startsLoosely (':' :: (front ++ c :: more)) = true := by
  obtain ⟨b, rest, rfl⟩ := List.exists_cons_of_ne_nil hne
  obtain ⟨hopen, hclose, -, -⟩ := isQuiet_of_isBlank (hfront b List.mem_cons_self)
  have hstart : startsWithBracket (b :: rest ++ c :: more) = false := by
    rw [List.cons_append, startsWithBracket, beq_eq_false_iff_ne.2 hopen, beq_eq_false_iff_ne.2 hclose]
    rfl
  rw [startsLoosely, hstart, trimStart_append_blank hfront]
  rcases hc with rfl | rfl
  · rfl
  · rfl

/-- **A CLAUSE PASSES AFTER ITS COLON** if it does not stand apart from it. -/
theorem passes_bound {source : Chars} (h : IsBound source)
    (htight : startsLoosely (':' :: source) = false) (depth : Nat) : Passes depth true source depth false := by
  obtain ⟨c, rest, hstart, hc, hrest⟩ := h
  obtain ⟨front, hfront, hsource⟩ := exists_trimStart source
  rw [hstart] at hsource
  subst hsource
  cases front with
  | nil =>
      have hafter : Passes depth true [c] depth false := by
        rcases hc with rfl | rfl | hquiet
        · exact .after_colon (by decide) (by decide)
        · exact .after_colon (by decide) (by decide)
        · exact .of_isQuiet (hquiet.deeper depth)
      exact .cons hafter (.quiet fun d hd => (hrest d hd).deeper depth)
  | cons b front =>
      -- past blanks the scan would take a bracket for one that opens or closes
      have hloose (hbracket : c = '<' ∨ c = '>') : False := by
        have htrue := startsLoosely_of_blank hfront (List.cons_ne_nil b front) hbracket rest
        exact Bool.false_ne_true (htight.symm.trans htrue)
      have hquiet : IsQuiet 0 c := by
        rcases hc with hopen | hclose | hquiet
        · exact (hloose (.inl hopen)).elim
        · exact (hloose (.inr hclose)).elim
        · exact hquiet
      have hall : ∀ d ∈ b :: front ++ c :: rest, IsQuiet 0 d :=
        List.forall_mem_append.2 ⟨fun d hd => isQuiet_of_isBlank (hfront d hd),
          List.forall_mem_cons.2 ⟨hquiet, hrest⟩⟩
      exact .quiet_of_ne_nil (List.cons_ne_nil _ _) fun d hd => (hall d hd).deeper depth

/-- The bracket before the items of an array is closed by the one behind them. -/
theorem passes_items {part back : Chars} {depth : Nat}
    (hpart : Passes (depth + 1) false part (depth + 1) false) (hback : ∀ c ∈ back, IsQuiet 0 c) :
    Passes depth false ('<' :: (part ++ '>' :: back)) depth false := by
  have hend : Passes depth false back depth false := .quiet fun c hc => (hback c hc).deeper depth
  exact .cons .opening (.append hpart (.cons .closing hend))

theorem infix_items (front part back : Chars) : part <:+: front ++ '<' :: (part ++ '>' :: back) :=
  List.IsInfix.trans ⟨['<'], '>' :: back, rfl⟩ (List.suffix_append front _).isInfix

/-- **A TIGHT TEXT WITHOUT BARS PASSES** from any depth to the same depth, if it is
    legible. -/
theorem Legible.passes {text : Chars} (h : Legible text) (hbar : '|' ∉ text) (htight : IsTight text)
    (depth : Nat) : Passes depth false text depth false := by
  induction h generalizing depth with
  | name hquiet => exact .quiet fun c hc => (hquiet c hc).deeper depth
  | plain _ hlisted => exact absurd hlisted.1 hbar
  | keyword _ hmem => exact absurd (List.mem_append_right _ (List.mem_cons_of_mem _ hmem)) hbar
  | @bounded front back hname _ hback =>
      have hfront := isQuiet_of_isPadded (.trim front) hname.isQuiet
      have hbound : IsBound back := by
        refine hback.resolve_left fun hlisted => hbar ?_
        exact List.mem_append_right _ (List.mem_cons_of_mem _ hlisted.1)
      have hclause := htight.of_isInfix (List.suffix_append front (':' :: back)).isInfix
      exact .append (.quiet fun c hc => (hfront c hc).deeper depth)
        (.cons .colon (passes_bound hbound hclause.startsLoosely depth))
  | @items front part back hlead _ hback ih =>
      have hpart := infix_items front part back
      have hinside := ih (fun hmem => hbar (hpart.subset hmem)) (htight.of_isInfix hpart) (depth + 1)
      exact .append (.quiet fun c hc => (isQuiet_of_trimStart hlead c hc).deeper depth)
        (passes_items hinside hback)
  | @boundedItems front more clause part back hlead hopen hbound _ hback ih =>
      obtain rfl := eq_append_of_openBracket? hopen
      have hmore := (List.suffix_append front (':' :: (clause ++ '<' :: (part ++ '>' :: back)))).isInfix
      have hpart := (infix_items (':' :: clause) part back).trans hmore
      have hclause := htight.of_isInfix ((List.prefix_append (':' :: clause) _).isInfix.trans hmore)
      have hinside := ih (fun hmem => hbar (hpart.subset hmem)) (htight.of_isInfix hpart) (depth + 1)
      exact .append (.quiet fun c hc => (isQuiet_of_trimStart hlead c hc).deeper depth)
        (.cons .colon (.append (passes_bound hbound hclause.startsLoosely depth)
          (passes_items hinside hback)))

/-- A legible text without bars is closed if it is tight: its brackets match. -/
theorem Legible.isClosed {text : Chars} (h : Legible text) (hbar : '|' ∉ text) (htight : IsTight text) :
    IsClosed text :=
  (isClosed_iff hbar).2 ⟨false, h.passes hbar htight 0⟩

end Conform.Dsl
