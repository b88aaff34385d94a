import Conform.Proofs.Selecting
import Mathlib.Data.List.Induction
import Mathlib.Tactic.SplitIfs

/-! # Legality — which sequences of calls build a chain

    A call has a FAULT after certain calls when it does not fit there
    (`faultAfter?`).  Of the calls that it took, the draft of a chain records no
    more than whether one ended the chain and which target the latest part has
    (`Records`).  So it takes a call exactly if the call has no fault
    (`Records.step_of_fitting`, `Records.step_of_fault`), and a sequence comes to
    the fault of the first call that has one, whatever is called afterwards
    (`ofCalls_of_fault`).  The sequences without a fault are the legal ones
    (`isLegal_iff_isFaultless`). -/

namespace Conform

namespace Chain

variable {α : Type}

/-! ## Faults of calls -/

/-- The fault that a call has after others, if it has one: the chain has ended,
    no part has begun, it is a second `when`, or a second target of its part. -/
def faultAfter? (before : List (Call α)) (call : Call α) : Option ChainFault :=
  if before.any Call.isFallback then some (.afterFallback call.name)
  else
    match (parts before).getLast? with
    | none => if call.isOpening then none else some (.withoutWhen call.name)
    | some latest =>
        if call.isOpening then some .secondWhen
        else if call.target?.isSome && latest.target?.isSome then some .secondThen
        else none

/-- No call has a fault after those before it. -/
def IsFaultless (calls : List (Call α)) : Prop :=
  ∀ before call after, calls = before ++ call :: after → faultAfter? before call = none

theorem isFaultless_nil : IsFaultless ([] : List (Call α)) := by
  intro before call after h
  exact absurd h.symm (List.append_ne_nil_of_right_ne_nil before (List.cons_ne_nil call after))

/-- One more call is faultless exactly if it is allowed after the others. -/
theorem isFaultless_append_singleton_iff {calls : List (Call α)} {call : Call α} :
    IsFaultless (calls ++ [call]) ↔ IsFaultless calls ∧ faultAfter? calls call = none := by
  constructor
  · intro h
    refine ⟨?_, h calls call [] rfl⟩
    intro before other after heq
    refine h before other (after ++ [call]) ?_
    rw [heq, List.append_assoc, List.cons_append]
  · rintro ⟨h, hcall⟩ before other after heq
    rcases List.eq_nil_or_concat after with rfl | ⟨more, last, rfl⟩
    · obtain ⟨rfl, hother⟩ := List.append_inj' heq rfl
      obtain rfl := List.singleton_inj.1 hother
      exact hcall
    · -- the two last calls are the same, so `other` is one of the calls before
      rw [List.concat_eq_append, ← List.cons_append, ← List.append_assoc] at heq
      exact h before other more (List.append_inj' heq rfl).1

/-- A sequence has no fault, or a first one. -/
theorem isFaultless_or_exists_fault (calls : List (Call α)) :
    IsFaultless calls ∨ ∃ before call after fault, calls = before ++ call :: after
      ∧ IsFaultless before ∧ faultAfter? before call = some fault := by
  induction calls using List.reverseRecOn with
  | nil => exact Or.inl isFaultless_nil
  | append_singleton calls last ih =>
      rcases ih with hclean | ⟨before, call, after, fault, rfl, hbefore, hfault⟩
      · cases hlast : faultAfter? calls last with
        | none => exact Or.inl (isFaultless_append_singleton_iff.2 ⟨hclean, hlast⟩)
        | some fault => exact Or.inr ⟨calls, last, [], fault, rfl, hclean, hlast⟩
      · refine Or.inr ⟨before, call, after ++ [last], fault, ?_, hbefore, hfault⟩
        rw [List.append_assoc, List.cons_append]

/-! ## Parts of a longer sequence -/

/-- The part with one more call. -/
def Part.heard (call : Call α) (part : Part α) : Part α :=
  { part with calls := part.calls ++ [call] }

theorem getLast?_mapLast {β : Type} (f : β → β) (l : List β) :
    (mapLast f l).getLast? = l.getLast?.map f := by
  rcases List.eq_nil_or_concat l with rfl | ⟨before, last, rfl⟩
  · rfl
  · rw [List.concat_eq_append, mapLast_append_singleton, List.getLast?_concat,
      List.getLast?_concat]
    rfl

/-- A call that begins a part begins the last one. -/
theorem split_append_of_starts {call : Call α} {root : Predicate}
    (h : call.starts? = some root) (calls : List (Call α)) :
    split (calls ++ [call]) = ((split calls).1, parts calls ++ [⟨root, []⟩]) := by
  induction calls with
  | nil => exact split_cons_of_starts h []
  | cons first rest ih =>
      rw [List.cons_append, parts]
      cases hfirst : first.starts? with
      | some other => rw [split_cons_of_starts hfirst, split_cons_of_starts hfirst, ih]; rfl
      | none => rw [split_cons_of_not_starts hfirst, split_cons_of_not_starts hfirst, ih]; rfl

/-- Any other call goes to the last part, if one has begun. -/
theorem split_append_of_not_starts {call : Call α} (h : call.starts? = none)
    (calls : List (Call α)) :
    split (calls ++ [call])
      = (if (parts calls).isEmpty then (split calls).1 ++ [call] else (split calls).1,
          mapLast (Part.heard call) (parts calls)) := by
  induction calls with
  | nil => exact split_cons_of_not_starts h []
  | cons first rest ih =>
      rw [List.cons_append, parts]
      cases hfirst : first.starts? with
      | some other =>
          rw [split_cons_of_starts hfirst, split_cons_of_starts hfirst, ih]
          show (_, _ :: mapLast _ (parts rest)) = (_, mapLast _ (_ :: parts rest))
          cases parts rest <;> rfl
      | none =>
          rw [split_cons_of_not_starts hfirst, split_cons_of_not_starts hfirst, ih]
          show (_ :: ite _ _ _, _) = (ite ((parts rest).isEmpty = true) _ _, _)
          cases (parts rest).isEmpty <;> rfl

theorem getLast?_parts_of_starts {call : Call α} {root : Predicate}
    (h : call.starts? = some root) (calls : List (Call α)) :
    (parts (calls ++ [call])).getLast? = some ⟨root, []⟩ := by
  rw [parts, split_append_of_starts h, List.getLast?_concat]

theorem getLast?_parts_of_not_starts {call : Call α} (h : call.starts? = none)
    (calls : List (Call α)) :
    (parts (calls ++ [call])).getLast? = (parts calls).getLast?.map (Part.heard call) := by
  rw [parts, split_append_of_not_starts h, getLast?_mapLast]

/-- The latest target counts. -/
theorem Part.target?_heard (call : Call α) (part : Part α) :
    (part.heard call).target? = (call.target? <|> part.target?) := by
  show ((part.calls ++ [call]).filterMap Call.target?).getLast? = _
  rw [List.filterMap_append, List.getLast?_append]
  cases hcall : call.target? with
  | none => rw [List.filterMap_cons_none hcall]; rfl
  | some handed => rw [List.filterMap_cons_some hcall]; rfl

/-! ## Legal sequences -/

theorem Call.exists_eq_opening {call : Call α} (h : call.isOpening = true) :
    ∃ root, call = .opening root := by
  cases call with
  | opening root => exact ⟨root, rfl⟩
  | _ => exact nomatch h

/-- What it is to fit where a part has begun. -/
theorem fits_of_latest {before : List (Call α)} {latest : Part α} {call : Call α}
    (hlatest : (parts before).getLast? = some latest) (h : faultAfter? before call = none) :
    before.any Call.isFallback = false ∧ call.isOpening = false
      ∧ (call.target?.isSome && latest.target?.isSome) = false := by
  simp only [faultAfter?, hlatest] at h
  split_ifs at h with hclosed hopening htarget
  · exact ⟨eq_false_of_ne_true hclosed, eq_false_of_ne_true hopening, eq_false_of_ne_true htarget⟩

/-- What it is to fit where no part has begun. -/
theorem fits_of_no_part {before : List (Call α)} {call : Call α}
    (hnone : (parts before).getLast? = none) (h : faultAfter? before call = none) :
    before.any Call.isFallback = false ∧ ∃ root, call = .opening root := by
  simp only [faultAfter?, hnone] at h
  split_ifs at h with hclosed hopening
  · exact ⟨eq_false_of_ne_true hclosed, Call.exists_eq_opening hopening⟩

/-- A legal sequence has begun a part. -/
theorem IsLegal.exists_latest {calls : List (Call α)} (h : IsLegal calls) :
    ∃ latest, (parts calls).getLast? = some latest := by
  obtain ⟨root, rest, rfl, -⟩ := h.opens
  rw [parts, split_cons_of_starts rfl]
  exact ⟨_, List.getLast?_cons⟩

/-- A chain may be just opened. -/
theorem isLegal_opening (root : Predicate) : IsLegal [(.opening root : Call α)] := by
  refine ⟨⟨root, [], rfl, fun _ hmem => nomatch hmem⟩, ?_, fun _ hmem => nomatch hmem⟩
  intro part hmem
  obtain rfl := List.mem_singleton.1 hmem
  exact Nat.zero_le 1

theorem mem_mapLast {β : Type} {f : β → β} {l : List β} {b : β} (h : b ∈ mapLast f l) :
    b ∈ l ∨ ∃ last, l.getLast? = some last ∧ b = f last := by
  rcases List.eq_nil_or_concat l with rfl | ⟨before, last, rfl⟩
  · exact Or.inl h
  · rw [List.concat_eq_append, mapLast_append_singleton] at h
    rw [List.concat_eq_append, List.getLast?_concat]
    rcases List.mem_append.1 h with hmem | hmem
    · exact Or.inl (List.mem_append_left _ hmem)
    · exact Or.inr ⟨last, rfl, List.mem_singleton.1 hmem⟩

/-- **A LEGAL SEQUENCE STAYS LEGAL** with one more call that has no fault after it. -/
theorem IsLegal.append_singleton {calls : List (Call α)} {call : Call α} (h : IsLegal calls)
    (hcall : faultAfter? calls call = none) : IsLegal (calls ++ [call]) := by
  obtain ⟨latest, hlatest⟩ := h.exists_latest
  obtain ⟨hopen, hfurther, htargets⟩ := fits_of_latest hlatest hcall
  constructor
  case opens =>
    obtain ⟨root, rest, rfl, hrest⟩ := h.opens
    refine ⟨root, rest ++ [call], rfl, ?_⟩
    intro other hmem
    rcases List.mem_append.1 hmem with hmem | hmem
    · exact hrest other hmem
    · rw [List.mem_singleton.1 hmem]
      exact hfurther
  case single =>
    intro part hmem
    cases hstarts : call.starts? with
    | some root =>
        rw [parts, split_append_of_starts hstarts] at hmem
        rcases List.mem_append.1 hmem with hmem | hmem
        · exact h.single part hmem
        · rw [List.mem_singleton.1 hmem]
          exact Nat.zero_le 1
    | none =>
        rw [parts, split_append_of_not_starts hstarts] at hmem
        rcases mem_mapLast hmem with hmem | ⟨last, hlast, rfl⟩
        · exact h.single part hmem
        · obtain rfl : latest = last := Option.some.inj (hlatest.symm.trans hlast)
          show ((latest.calls ++ [call]).filterMap Call.target?).length ≤ 1
          rw [List.filterMap_append]
          cases htarget : call.target? with
          | none =>
              rw [List.filterMap_cons_none htarget, List.filterMap_nil, List.append_nil]
              exact h.single latest (List.mem_of_getLast? hlatest)
          | some handed =>
              -- the part that takes a target had none before
              have hfree : latest.calls.filterMap Call.target? = [] := by
                cases ht : latest.target? with
                | none => exact List.getLast?_eq_none_iff.1 ht
                | some other =>
                    rw [htarget, ht] at htargets
                    exact absurd htargets.symm Bool.false_ne_true
              rw [hfree, List.filterMap_cons_some htarget]
              exact Nat.le_refl 1
  case ends =>
    rw [List.dropLast_concat]
    intro other hmem
    exact Bool.eq_false_iff.2 (List.any_eq_false.1 hopen other hmem)

/-- **A SEQUENCE WITHOUT A FAULT IS LEGAL**, unless it is empty. -/
theorem isLegal_of_isFaultless {calls : List (Call α)} (h : IsFaultless calls) :
    calls ≠ [] → IsLegal calls := by
  induction calls using List.reverseRecOn with
  | nil => exact fun hne => absurd rfl hne
  | append_singleton calls call ih =>
      intro _
      obtain ⟨hbefore, hcall⟩ := isFaultless_append_singleton_iff.1 h
      by_cases hnil : calls = []
      · subst hnil
        obtain ⟨-, root, rfl⟩ := fits_of_no_part rfl hcall
        exact isLegal_opening root
      · exact (ih hbefore hnil).append_singleton hcall

/-! ## Drafts -/

namespace Draft

/-- What a draft shows of the calls that it took: whether one of them ended the
    chain, and the target of the latest part. -/
structure Records (draft : Draft α) (calls : List (Call α)) : Prop where
  closed : draft.closed = calls.any Call.isFallback
  latest : draft.entries.getLast?.map Entry.target = (parts calls).getLast?.map Part.target?

theorem records_nil : ({} : Draft α).Records [] := ⟨rfl, rfl⟩

namespace Records

variable {draft : Draft α} {before : List (Call α)} {call : Call α}

theorem entries_eq_nil (h : draft.Records before) (hnone : (parts before).getLast? = none) :
    draft.entries = [] := by
  have hlatest := h.latest
  rw [hnone, Option.map_none, Option.map_eq_none_iff] at hlatest
  exact List.getLast?_eq_none_iff.1 hlatest

/-- A draft knows whether its last part has a target. -/
theorem hasTarget_eq (h : draft.Records before) {latest : Part α}
    (hlatest : (parts before).getLast? = some latest) :
    draft.entries.isEmpty = false ∧ draft.hasTarget = latest.target?.isSome := by
  have hentry := h.latest
  rw [hlatest, Option.map_some] at hentry
  obtain ⟨entry, hlast, htarget⟩ := Option.map_eq_some_iff.1 hentry
  constructor
  · cases hentries : draft.entries with
    | nil =>
        rw [hentries] at hlast
        exact nomatch hlast
    | cons first rest => rfl
  · rw [Draft.hasTarget, hlast, ← htarget]

/-- A call that begins a part opens an entry. -/
theorem start (h : draft.Records before) {root : Predicate} (hstarts : call.starts? = some root)
    (kind : EntryKind) :
    Records { draft with entries := draft.entries ++ [Entry.start kind root] } (before ++ [call])
    where
  closed := by
    have hcall : call.isFallback = false := by
      cases call <;> first | rfl | exact nomatch hstarts
    rw [List.any_append, List.any_cons, hcall, List.any_nil, Bool.or_false, Bool.or_false]
    exact h.closed
  latest := by
    rw [getLast?_parts_of_starts hstarts, List.getLast?_concat]
    rfl

/-- The target of the latest part after a call that goes to it. -/
theorem getLast?_heard (hstarts : call.starts? = none) :
    (parts (before ++ [call])).getLast?.map Part.target?
      = ((parts before).getLast?.map Part.target?).map (call.target? <|> ·) := by
  have hheard : Part.target? ∘ Part.heard call = (call.target? <|> ·) ∘ Part.target? :=
    funext (Part.target?_heard call)
  rw [getLast?_parts_of_not_starts hstarts, Option.map_map, Option.map_map, hheard]

/-- A call that goes to the latest part goes to the latest entry. -/
theorem revise (h : draft.Records before) (hstarts : call.starts? = none)
    (hfallback : call.isFallback = false) {f : Entry α → Entry α}
    (hf : ∀ entry, (f entry).target = (call.target? <|> entry.target)) :
    (draft.revise f).Records (before ++ [call]) where
  closed := by
    rw [List.any_append, List.any_cons, hfallback, List.any_nil, Bool.or_false, Bool.or_false]
    exact h.closed
  latest := by
    have hentry : Entry.target ∘ f = (call.target? <|> ·) ∘ Entry.target := funext hf
    show (mapLast f draft.entries).getLast?.map Entry.target = _
    rw [getLast?_heard hstarts, ← h.latest, getLast?_mapLast, Option.map_map, Option.map_map, hentry]

/-- A call that ends the chain leaves the entries as they are. -/
theorem close (h : draft.Records before) (hfallback : call.isFallback = true)
    (fallback : Fallback α) :
    Records { draft with fallback := fallback, closed := true } (before ++ [call]) where
  closed := by
    rw [List.any_append, List.any_cons, hfallback, Bool.true_or, Bool.or_true]
  latest := by
    have hsilent : call.starts? = none ∧ call.target? = none := by
      cases call <;> first | exact ⟨rfl, rfl⟩ | exact nomatch hfallback
    rw [getLast?_heard hsilent.1, hsilent.2, ← h.latest]
    show _ = (draft.entries.getLast?.map Entry.target).map id
    rw [Option.map_id_apply]

/-- **A DRAFT REFUSES A CALL THAT HAS A FAULT**, on account of that fault. -/
theorem step_of_fault (h : draft.Records before) {fault : ChainFault}
    (hfault : faultAfter? before call = some fault) : draft.step call = .error fault := by
  unfold Draft.step
  rw [h.closed]
  -- a fallback closes the chain to every call; short of that the latest part decides
  by_cases hclosed : before.any Call.isFallback = true
  · rw [faultAfter?, if_pos hclosed] at hfault
    rw [if_pos hclosed, Option.some.inj hfault]
  · rw [if_neg hclosed]
    cases hlatest : (parts before).getLast? with
    | none =>
        simp only [faultAfter?, if_neg hclosed, hlatest] at hfault
        rw [h.entries_eq_nil hlatest]
        cases call with
        | opening root => exact absurd hfault.symm (Option.some_ne_none fault)
        | _ => exact congrArg Except.error (Option.some.inj hfault)
    | some latest =>
        simp only [faultAfter?, if_neg hclosed, hlatest] at hfault
        obtain ⟨hentries, htaken⟩ := h.hasTarget_eq hlatest
        rw [hentries, if_neg Bool.false_ne_true]
        cases call with
        | opening root => exact congrArg Except.error (Option.some.inj hfault)
        | target handed =>
            rw [Draft.continued, htaken]
            cases ht : latest.target?.isSome with
            | true =>
                rw [ht] at hfault
                exact congrArg Except.error (Option.some.inj hfault)
            | false =>
                rw [ht] at hfault
                exact absurd hfault.symm (Option.some_ne_none fault)
        | _ => exact absurd hfault.symm (Option.some_ne_none fault)

/-- **A DRAFT TAKES A CALL THAT FITS**, and records it. -/
theorem step_of_fitting (h : draft.Records before) (hcall : faultAfter? before call = none) :
    ∃ next, draft.step call = .ok next ∧ next.Records (before ++ [call]) := by
  -- before any part only an opening fits, and afterwards anything else that the latest part
  -- allows
  cases hlatest : (parts before).getLast? with
  | none =>
      obtain ⟨hopen, root, rfl⟩ := fits_of_no_part hlatest hcall
      have hentries := h.entries_eq_nil hlatest
      have hstarts : (Call.opening root : Call α).starts? = some root := rfl
      have hstart := h.start hstarts .first
      rw [hentries] at hstart
      refine ⟨_, ?_, hstart⟩
      rw [Draft.step, h.closed, hopen, hentries]
      rfl
  | some latest =>
      obtain ⟨hopen, hfurther, htargets⟩ := fits_of_latest hlatest hcall
      obtain ⟨hentries, htaken⟩ := h.hasTarget_eq hlatest
      unfold Draft.step
      rw [h.closed, hopen, if_neg Bool.false_ne_true, hentries, if_neg Bool.false_ne_true]
      cases call with
      | opening root => exact nomatch hfurther
      | conj predicate => exact ⟨_, rfl, h.revise rfl rfl fun _ => rfl⟩
      | disj predicate => exact ⟨_, rfl, h.revise rfl rfl fun _ => rfl⟩
      | message text => exact ⟨_, rfl, h.revise rfl rfl fun _ => rfl⟩
      | further predicate => exact ⟨_, rfl, h.start rfl .further⟩
      | target handed =>
          have hfree : draft.hasTarget = false := htaken.trans htargets
          refine ⟨draft.revise fun entry => { entry with target := some handed }, ?_,
            h.revise rfl rfl fun _ => rfl⟩
          rw [Draft.continued, hfree]
          rfl
      | otherwise handed => exact ⟨_, rfl, h.close rfl (.target handed)⟩
      | otherwiseNothing => exact ⟨_, rfl, h.close rfl .nothing⟩

end Records

/-- Calls are made one after another, up to the first one that is refused. -/
theorem after_append (draft : Draft α) (before more : List (Call α)) :
    draft.after (before ++ more)
      = match draft.after before with
        | .ok next => next.after more
        | .error fault => .error fault := by
  induction before generalizing draft with
  | nil => rfl
  | cons call rest ih =>
      rw [List.cons_append, Draft.after, Draft.after]
      cases draft.step call with
      | ok next => exact ih next
      | error fault => rfl

/-- The draft after a sequence without a fault. -/
theorem exists_after_of_isFaultless {calls : List (Call α)} (h : IsFaultless calls) :
    ∃ draft, Draft.after {} calls = .ok draft ∧ draft.Records calls := by
  induction calls using List.reverseRecOn with
  | nil => exact ⟨{}, rfl, records_nil⟩
  | append_singleton calls call ih =>
      obtain ⟨hbefore, hcall⟩ := isFaultless_append_singleton_iff.1 h
      obtain ⟨draft, hafter, hrecords⟩ := ih hbefore
      obtain ⟨next, hstep, hnext⟩ := hrecords.step_of_fitting hcall
      refine ⟨next, ?_, hnext⟩
      rw [after_append, hafter]
      show (match draft.step call with
        | .ok next => next.after []
        | .error fault => .error fault) = _
      rw [hstep]
      rfl

end Draft

/-- **THE FIRST FAULT IS THAT OF THE SEQUENCE**, whatever is called after it. -/
theorem ofCalls_of_fault {before : List (Call α)} {call : Call α} {fault : ChainFault}
    (hbefore : IsFaultless before) (hfault : faultAfter? before call = some fault)
    (more : List (Call α)) : ofCalls (before ++ call :: more) = .error fault := by
  obtain ⟨draft, hafter, hrecords⟩ := Draft.exists_after_of_isFaultless hbefore
  rw [ofCalls, Draft.after_append, hafter]
  simp only [Draft.after, hrecords.step_of_fault hfault]

/-- **THE LEGAL SEQUENCES ARE THOSE WITHOUT A FAULT**, the empty one apart. -/
theorem isLegal_iff_isFaultless {calls : List (Call α)} :
    IsLegal calls ↔ calls ≠ [] ∧ IsFaultless calls := by
  constructor
  · intro h
    refine ⟨?_, ?_⟩
    · rintro rfl
      obtain ⟨root, rest, heq, -⟩ := h.opens
      exact nomatch heq
    · rcases isFaultless_or_exists_fault calls with hclean | hfaulty
      · exact hclean
      · -- a legal sequence builds a chain, so it has no first fault
        obtain ⟨before, call, after, fault, rfl, hbefore, hfault⟩ := hfaulty
        exact nomatch (ofCalls_of_isLegal h).symm.trans (ofCalls_of_fault hbefore hfault after)
  · rintro ⟨hne, h⟩
    exact isLegal_of_isFaultless h hne

/-! ## The chain of a legal sequence -/

/-- The entries of a chain are in order: the first one alone opens the chain, and
    the first condition of an entry alone is its root. -/
structure IsOrdered (chain : Chain α) : Prop where
  kinds : ∃ first rest, chain.entries = first :: rest ∧ first.kind = .first
    ∧ ∀ entry ∈ rest, entry.kind = .further
  joins : ∀ entry ∈ chain.entries, ∃ root more, entry.conditions = root :: more
    ∧ root.join = .root ∧ ∀ condition ∈ more, condition.join ≠ .root

/-- What the entries hand over is no matter for their order. -/
theorem IsOrdered.map {β : Type} {chain : Chain α} (h : chain.IsOrdered) (f : α → β) :
    (chain.map f).IsOrdered := by
  constructor
  case kinds =>
    obtain ⟨first, rest, hentries, hfirst, hrest⟩ := h.kinds
    refine ⟨first.map f, rest.map (Entry.map f), congrArg (List.map (Entry.map f)) hentries,
      hfirst, ?_⟩
    intro entry hmem
    obtain ⟨other, hother, rfl⟩ := List.mem_map.1 hmem
    exact hrest other hother
  case joins =>
    intro entry hmem
    obtain ⟨other, hother, rfl⟩ := List.mem_map.1 hmem
    exact h.joins other hother

/-- Only the first condition of a part has nothing to be joined to. -/
theorem join_ne_root_of_mem_joined {calls : List (Call α)} {condition : Condition}
    (h : condition ∈ joined calls) : condition.join ≠ .root := by
  induction calls with
  | nil => exact absurd h List.not_mem_nil
  | cons call rest ih =>
      rw [joined] at h
      split at h
      · rename_i join predicate hjoins
        rcases List.mem_cons.1 h with rfl | hmem
        · cases call with
          | conj predicate =>
              obtain ⟨rfl, -⟩ := Prod.mk.inj (Option.some.inj hjoins)
              show Join.conj ≠ .root
              decide
          | disj predicate =>
              obtain ⟨rfl, -⟩ := Prod.mk.inj (Option.some.inj hjoins)
              show Join.disj ≠ .root
              decide
          | _ => exact absurd hjoins.symm (Option.some_ne_none _)
        · exact ih hmem
      · exact ih h

/-- **WHAT LEGAL CALLS BUILD IS ORDERED**: conditions follow the first one of their part. -/
theorem isOrdered_built {calls : List (Call α)} (h : IsLegal calls) : (built calls).IsOrdered := by
  constructor
  case kinds =>
    obtain ⟨root, rest, rfl, -⟩ := h.opens
    have hparts : parts (.opening root :: rest) = ⟨root, (split rest).1⟩ :: parts rest :=
      congrArg Prod.snd (split_cons_of_starts rfl rest)
    refine ⟨Part.entry .first ⟨root, (split rest).1⟩, (parts rest).map (Part.entry .further),
      congrArg builtEntries hparts, rfl, ?_⟩
    intro entry hmem
    obtain ⟨part, -, rfl⟩ := List.mem_map.1 hmem
    rfl
  case joins =>
    intro entry hmem
    obtain ⟨part, -, kind, rfl⟩ := exists_part_of_mem_builtEntries hmem
    exact ⟨_, _, rfl, rfl, fun condition hcondition => join_ne_root_of_mem_joined hcondition⟩

end Chain

namespace Compiler

open Chain (Call IsLegal IsFaultless faultAfter?)

/-- A sequence with a fault compiles to that fault. -/
theorem compiled_byCalls_of_fault {calls : List (Call Spec)} {fault : ChainFault}
    (h : Chain.ofCalls calls = .error fault) :
    compiled (.byCalls calls) = .error (.sequence fault) := by
  have hspec : Spec.byCalls calls = .chain (.error fault) := congrArg Spec.chain h
  rw [hspec]
  rfl

/-- **EXACTLY THE LEGAL SEQUENCES COMPILE**, provided that their targets do, and to a
    chain whose entries are in order.  Any other sequence has no call at all, or a first
    call with a fault, and that fault is what comes of it, whatever is called
    afterwards. -/
theorem compiles_iff_isLegal {calls : List (Call Spec)}
    (htargets : ∀ spec, .target spec ∈ calls ∨ .otherwise spec ∈ calls →
      ∃ node, compiled spec = .ok node) :
    ((∃ node, compiled (.byCalls calls) = .ok node) ↔ IsLegal calls)
      ∧ (¬ IsLegal calls →
          calls = [] ∧ compiled (.byCalls calls) = .error (.sequence .noWhen)
          ∨ ∃ before call after fault, calls = before ++ call :: after ∧ IsFaultless before
              ∧ faultAfter? before call = some fault
              ∧ ∀ more, compiled (.byCalls (before ++ call :: more)) = .error (.sequence fault))
      ∧ ∀ node, compiled (.byCalls calls) = .ok node →
          ∃ chain, node = .chain {} chain ∧ chain.IsOrdered := by
  -- a legal sequence builds a chain, and any other one stops at its first fault
  have hlegal : IsLegal calls → ∃ chain : Chain Node,
      compiled (.byCalls calls) = .ok (.chain {} chain) ∧ chain.IsOrdered := by
    intro h
    let tree (spec : Spec) : Node := (compiled spec).toOption.getD default
    have htree : ∀ spec, .target spec ∈ calls ∨ .otherwise spec ∈ calls →
        compiled spec = .ok (tree spec) := by
      intro spec hmem
      obtain ⟨node, hnode⟩ := htargets spec hmem
      show _ = Except.ok ((compiled spec).toOption.getD default)
      rw [hnode]
      rfl
    exact ⟨_, compiled_byCalls_of_isLegal h htree, (Chain.isOrdered_built h).map tree⟩
  have hfaulty : ¬ IsLegal calls →
      calls = [] ∧ compiled (.byCalls calls) = .error (.sequence .noWhen)
      ∨ ∃ before call after fault, calls = before ++ call :: after ∧ IsFaultless before
          ∧ faultAfter? before call = some fault
          ∧ ∀ more, compiled (.byCalls (before ++ call :: more)) = .error (.sequence fault) := by
    intro h
    rcases Chain.isFaultless_or_exists_fault calls with hclean | hfault
    · refine Or.inl ?_
      have hnil : calls = [] := by
        by_contra hne
        exact h (Chain.isLegal_of_isFaultless hclean hne)
      rw [hnil]
      exact ⟨rfl, compiled_byCalls_of_fault rfl⟩
    · obtain ⟨before, call, after, fault, heq, hbefore, hfault⟩ := hfault
      refine Or.inr ⟨before, call, after, fault, heq, hbefore, hfault, ?_⟩
      exact fun more => compiled_byCalls_of_fault (Chain.ofCalls_of_fault hbefore hfault more)
  -- so the two outcomes exclude each other
  have hcompiles : ∀ node, compiled (.byCalls calls) = .ok node → IsLegal calls := by
    intro node hnode
    by_contra h
    rcases hfaulty h with ⟨-, herror⟩ | ⟨before, call, after, fault, rfl, -, -, herror⟩
    · exact nomatch hnode.symm.trans herror
    · exact nomatch hnode.symm.trans (herror after)
  refine ⟨⟨?_, ?_⟩, hfaulty, ?_⟩
  · rintro ⟨node, hnode⟩
    exact hcompiles node hnode
  · intro h
    obtain ⟨chain, hchain, -⟩ := hlegal h
    exact ⟨_, hchain⟩
  · intro node hnode
    obtain ⟨chain, hchain, hordered⟩ := hlegal (hcompiles node hnode)
    exact ⟨chain, Except.ok.inj (hnode.symm.trans hchain), hordered⟩

theorem exists_compiled_sampleCalls :
    (∀ spec, .target spec ∈ sampleCalls ∨ .otherwise spec ∈ sampleCalls →
        ∃ node, compiled spec = .ok node)
      ∧ ∃ node, compiled (.byCalls sampleCalls) = .ok node := by
  have htargets : ∀ spec, .target spec ∈ sampleCalls ∨ .otherwise spec ∈ sampleCalls →
      ∃ node, compiled spec = .ok node :=
    fun spec hmem => ⟨_, compiled_of_mem_sampleCalls spec hmem⟩
  exact ⟨htargets, (compiles_iff_isLegal htargets).1.2 isLegal_sampleCalls⟩

/-- The first call after the end is the fault, not the second `when` after it. -/
example (predicate : Predicate) :
    compiled (.byCalls (sampleCalls ++ [.conj predicate, .opening predicate]))
      = .error (.sequence (.afterFallback "and")) := by rfl

end Compiler

end Conform
