import Conform.Proofs.Calls

/-! # Building — the chain that a sequence of calls builds

    Calls change a draft one after another: a call that begins a part adds an entry, and
    every other call goes to the latest one.  So an entry holds what its calls said
    (`foldl_said_start`), the entries of a draft are the parts of the calls so far
    (`after_of_continues`), and a legal sequence builds the chain whose entries are its
    parts (`ofCalls_of_isLegal`). -/

namespace Conform.Chain

variable {α : Type}

/-! ## Entries as their calls make them -/

/-- The entry after a call that goes to it. -/
def Entry.said (entry : Entry α) : Call α → Entry α
  | .conj predicate => entry.joined .conj predicate
  | .disj predicate => entry.joined .disj predicate
  | .message text => entry.throwing text
  | .target target => { entry with target := some target }
  | _ => entry

/-- The entry that a part makes. -/
def Part.entry (kind : EntryKind) (part : Part α) : Entry α :=
  ⟨kind, part.conditions, part.target?, part.lastText?, part.lastText?.isSome⟩

/-- The last one is the one that was added last. -/
theorem mapLast_append_singleton {β : Type} (f : β → β) (before : List β) (last : β) :
    mapLast f (before ++ [last]) = before ++ [f last] := by
  induction before with
  | nil => rfl
  | cons first rest ih =>
      cases rest with
      | nil => rfl
      | cons second rest =>
          show first :: mapLast f ((second :: rest) ++ [last]) = _
          rw [ih]
          rfl

theorem getLast?_cons_eq_orElse {β : Type} (first : β) (rest : List β) :
    (first :: rest).getLast? = (rest.getLast? <|> some first) := by
  rw [List.getLast?_cons]
  cases rest.getLast? <;> rfl

theorem getLast?_cons_orElse {β : Type} (first : β) (rest : List β) (before : Option β) :
    ((first :: rest).getLast? <|> before) = (rest.getLast? <|> some first) := by
  rw [getLast?_cons_eq_orElse]
  cases rest.getLast? <;> rfl

/-- A call that joins no condition and has no text leaves what is attached. -/
theorem attached?_cons_of_silent {call : Call α} (hjoins : call.joins? = none)
    (htext : call.text? = none) (rest : List (Call α)) :
    attached? (call :: rest) = attached? rest := by
  rw [attached?, hjoins, htext]
  cases attached? rest <;> rfl

/-- **AN ENTRY HOLDS WHAT ITS CALLS SAID**: each text goes to the condition that was called
    for last, and the last text of all to the entry. -/
theorem foldl_said (calls : List (Call α)) (kind : EntryKind) (before : List Condition)
    (latest : Condition) (target : Option α) (message : Option String) (throws : Bool) :
    calls.foldl Entry.said ⟨kind, before ++ [latest], target, message, throws⟩
      = ⟨kind,
          before ++ { latest with message := attached? calls <|> latest.message } :: joined calls,
          (calls.filterMap Call.target?).getLast? <|> target,
          (calls.filterMap Call.text?).getLast? <|> message,
          throws || ((calls.filterMap Call.text?).getLast?).isSome⟩ := by
  -- every call changes the entry, so the induction is over all entries that it may be
  induction calls generalizing before latest target message throws with
  | nil =>
      show Entry.mk _ _ _ _ _ = Entry.mk _ _ _ _ (throws || false)
      rw [Bool.or_false]
      rfl
  | cons call rest ih =>
      -- what the entry is after the first call, and what is said of the rest
      have hjoined : ∀ join predicate,
          rest.foldl Entry.said (Entry.joined join predicate
              ⟨kind, before ++ [latest], target, message, throws⟩)
            = ⟨kind, before ++ latest :: ⟨join, predicate, attached? rest⟩ :: joined rest,
                (rest.filterMap Call.target?).getLast? <|> target,
                (rest.filterMap Call.text?).getLast? <|> message,
                throws || ((rest.filterMap Call.text?).getLast?).isSome⟩ := by
        intro join predicate
        refine (ih (before ++ [latest]) ⟨join, predicate, none⟩ target message throws).trans ?_
        rw [List.append_assoc]
        show Entry.mk _ (_ ++ _ :: ⟨_, _, (attached? rest <|> none)⟩ :: _) _ _ _ = _
        cases attached? rest <;> rfl
      cases call with
      | conj predicate => exact hjoined .conj predicate
      | disj predicate => exact hjoined .disj predicate
      | message text =>
          show rest.foldl Entry.said ⟨kind, mapLast _ (before ++ [latest]), target, some text, true⟩ = _
          have hattached : attached? (Call.message text :: rest) = (attached? rest <|> some text) := rfl
          have hmessage : ((attached? rest <|> some text) <|> latest.message)
              = (attached? rest <|> some text) := by
            cases attached? rest <;> rfl
          rw [mapLast_append_singleton, ih, List.filterMap_cons_some (f := Call.text?) rfl,
            getLast?_cons_orElse, hattached, hmessage]
          cases (rest.filterMap Call.text?).getLast? <;> cases throws <;> rfl
      | target handed =>
          refine (ih before latest (some handed) message throws).trans ?_
          rw [List.filterMap_cons_some (f := Call.target?) (b := handed) rfl, getLast?_cons_orElse,
            attached?_cons_of_silent rfl rfl]
          rfl
      | opening predicate =>
          rw [attached?_cons_of_silent rfl rfl]
          exact ih before latest target message throws
      | further predicate =>
          rw [attached?_cons_of_silent rfl rfl]
          exact ih before latest target message throws
      | otherwise handed =>
          rw [attached?_cons_of_silent rfl rfl]
          exact ih before latest target message throws
      | otherwiseNothing =>
          rw [attached?_cons_of_silent rfl rfl]
          exact ih before latest target message throws

/-- A new entry becomes the entry of its part. -/
theorem foldl_said_start (kind : EntryKind) (part : Part α) :
    part.calls.foldl Entry.said (Entry.start kind part.root) = part.entry kind := by
  refine (foldl_said part.calls kind [] ⟨.root, part.root, none⟩ none none false).trans ?_
  have horElse : ∀ {β : Type} (x : Option β), (x <|> none) = x := by
    intro β x
    cases x <;> rfl
  rw [List.nil_append, horElse, horElse, horElse]
  rfl

/-! ## Drafts -/

/-- The fallback that a sequence leaves: what its last call says for the case that no part
    triggers. -/
def fallbackOf (calls : List (Call α)) : Fallback α :=
  match calls.getLast? with
  | some (.otherwise target) => .target target
  | some .otherwiseNothing => .nothing
  | _ => .undefined

/-- What is said by a call that says nothing of the end is said by those after it. -/
theorem fallbackOf_cons {call : Call α} (h : call.isFallback = false) (rest : List (Call α)) :
    fallbackOf (call :: rest) = fallbackOf rest := by
  cases rest with
  | nil => cases call <;> first | rfl | exact nomatch h
  | cons next rest =>
      unfold fallbackOf
      rw [List.getLast?_cons_cons]

/-- The calls go on from a draft that is open and has an entry: none of them opens a
    chain, no part of them has two targets, and only the last may end it. -/
structure Continues (entry : Entry α) (calls : List (Call α)) : Prop where
  opens : ∀ call ∈ calls, call.isOpening = false
  here : (((split calls).1.filterMap Call.target?) ++ entry.target.toList).length ≤ 1
  single : ∀ part ∈ parts calls, (part.calls.filterMap Call.target?).length ≤ 1
  ends : ∀ call ∈ calls.dropLast, call.isFallback = false

/-- The entries of a draft after some calls: those before stay, the latest holds what
    goes to it, and every part begins a new one. -/
def entriesAfter (before : List (Entry α)) (entry : Entry α) (calls : List (Call α)) :
    List (Entry α) :=
  before ++ (split calls).1.foldl Entry.said entry :: (parts calls).map (Part.entry .further)

/-- What holds of all but the last one holds of all but the last one after the first. -/
theorem forall_dropLast_of_cons {β : Type} {P : β → Prop} {first : β} {rest : List β}
    (h : ∀ b ∈ (first :: rest).dropLast, P b) : ∀ b ∈ rest.dropLast, P b := by
  cases rest with
  | nil => exact fun _ hmem => nomatch hmem
  | cons second rest => exact fun b hmem => h b (List.mem_cons_of_mem _ hmem)

theorem split_cons_of_starts {call : Call α} {root : Predicate} (h : call.starts? = some root)
    (rest : List (Call α)) :
    split (call :: rest) = ([], ⟨root, (split rest).1⟩ :: (split rest).2) := by
  rw [split, h]

theorem split_cons_of_not_starts {call : Call α} (h : call.starts? = none) (rest : List (Call α)) :
    split (call :: rest) = (call :: (split rest).1, (split rest).2) := by
  rw [split, h]

/-- The calls after one that goes to the entry. -/
theorem Continues.said {entry : Entry α} {call : Call α} {rest : List (Call α)}
    (h : Continues entry (call :: rest)) (hstarts : call.starts? = none)
    (htarget : (entry.said call).target = (call.target? <|> entry.target)) :
    Continues (entry.said call) rest where
  opens next hmem := h.opens next (List.mem_cons_of_mem _ hmem)
  here := by
    have hhere := h.here
    rw [split_cons_of_not_starts hstarts, List.length_append] at hhere
    rw [htarget, List.length_append]
    cases hc : call.target? with
    | none =>
        rw [List.filterMap_cons_none hc] at hhere
        exact hhere
    | some handed =>
        rw [List.filterMap_cons_some hc, List.length_cons] at hhere
        show _ + 1 ≤ 1
        omega
  single := by
    have hsingle := h.single
    rw [parts, split_cons_of_not_starts hstarts] at hsingle
    exact hsingle
  ends := forall_dropLast_of_cons h.ends

/-- The calls after one that begins a part. -/
theorem Continues.further {entry : Entry α} {predicate : Predicate} {rest : List (Call α)}
    (h : Continues entry (.further predicate :: rest)) :
    Continues (Entry.start .further predicate) rest where
  opens next hmem := h.opens next (List.mem_cons_of_mem _ hmem)
  here := by
    rw [List.length_append]
    exact h.single ⟨predicate, (split rest).1⟩ List.mem_cons_self
  single part hmem := h.single part (List.mem_cons_of_mem _ hmem)
  ends := forall_dropLast_of_cons h.ends

/-- What ends a chain is the last call. -/
theorem Continues.rest_eq_nil {entry : Entry α} {call : Call α} {rest : List (Call α)}
    (h : Continues entry (call :: rest)) (hfallback : call.isFallback = true) : rest = [] := by
  cases rest with
  | nil => rfl
  | cons next rest => exact nomatch hfallback.symm.trans (h.ends call List.mem_cons_self)

/-- A draft that is open and has an entry goes on. -/
theorem after_cons (before : List (Entry α)) (entry : Entry α) (call : Call α)
    (rest : List (Call α)) :
    Draft.after ⟨before ++ [entry], .undefined, false⟩ (call :: rest)
      = match Draft.continued ⟨before ++ [entry], .undefined, false⟩ call with
        | .ok next => next.after rest
        | .error fault => .error fault := by
  have hempty : (before ++ [entry]).isEmpty = false := by
    cases before <;> rfl
  rw [Draft.after]
  unfold Draft.step
  rewrite [if_neg Bool.false_ne_true, hempty, if_neg Bool.false_ne_true]
  rfl

theorem revise_latest (f : Entry α → Entry α) (before : List (Entry α)) (entry : Entry α) :
    Draft.revise ⟨before ++ [entry], .undefined, false⟩ f = ⟨before ++ [f entry], .undefined, false⟩ := by
  unfold Draft.revise
  rw [mapLast_append_singleton]

/-- A target is taken by an entry that has none. -/
theorem continued_target {before : List (Entry α)} {entry : Entry α} (handed : α)
    (h : entry.target = none) :
    Draft.continued ⟨before ++ [entry], .undefined, false⟩ (.target handed)
      = .ok ⟨before ++ [{ entry with target := some handed }], .undefined, false⟩ := by
  have hfree : Draft.hasTarget ⟨before ++ [entry], .undefined, false⟩ = false := by
    unfold Draft.hasTarget
    rw [List.getLast?_concat]
    show entry.target.isSome = false
    rw [h]
    rfl
  rw [Draft.continued, hfree, revise_latest]
  rfl

/-- **A DRAFT AFTER SOME CALLS** has the parts of the calls as entries. -/
theorem after_of_continues (calls : List (Call α)) (before : List (Entry α)) (entry : Entry α)
    (h : Continues entry calls) :
    ∃ closed, Draft.after ⟨before ++ [entry], .undefined, false⟩ calls
      = .ok ⟨entriesAfter before entry calls, fallbackOf calls, closed⟩ := by
  induction calls generalizing before entry with
  | nil => exact ⟨false, rfl⟩
  | cons call rest ih =>
      -- a call that goes to the entry, which takes in what it says
      have hsaid : call.starts? = none → call.isFallback = false →
          (entry.said call).target = (call.target? <|> entry.target) →
          Draft.continued ⟨before ++ [entry], .undefined, false⟩ call
            = .ok ⟨before ++ [entry.said call], .undefined, false⟩ →
          ∃ closed, Draft.after ⟨before ++ [entry], .undefined, false⟩ (call :: rest)
            = .ok ⟨entriesAfter before entry (call :: rest), fallbackOf (call :: rest), closed⟩ := by
        intro hstarts hfallback htarget hcontinued
        obtain ⟨closed, hafter⟩ := ih before (entry.said call) (h.said hstarts htarget)
        refine ⟨closed, ?_⟩
        rw [after_cons, hcontinued, fallbackOf_cons hfallback, entriesAfter, parts,
          split_cons_of_not_starts hstarts]
        exact hafter
      cases call with
      | opening predicate => exact nomatch h.opens _ List.mem_cons_self
      | conj predicate => exact hsaid rfl rfl rfl (congrArg Except.ok (revise_latest _ before entry))
      | disj predicate => exact hsaid rfl rfl rfl (congrArg Except.ok (revise_latest _ before entry))
      | message text => exact hsaid rfl rfl rfl (congrArg Except.ok (revise_latest _ before entry))
      | target handed =>
          have hnone : entry.target = none := by
            have hhere := h.here
            rw [split_cons_of_not_starts rfl,
              List.filterMap_cons_some (f := Call.target?) (b := handed) rfl, List.length_append,
              List.length_cons] at hhere
            cases ht : entry.target with
            | none => rfl
            | some other =>
                rw [ht] at hhere
                exact absurd hhere (by simp)
          exact hsaid rfl rfl rfl (continued_target handed hnone)
      | further predicate =>
          -- the entry is left behind, and the rest goes on from a new one
          obtain ⟨closed, hafter⟩ :=
            ih (before ++ [entry]) (Entry.start .further predicate) h.further
          refine ⟨closed, ?_⟩
          have hentries : entriesAfter (before ++ [entry]) (Entry.start .further predicate) rest
              = entriesAfter before entry (.further predicate :: rest) := by
            unfold entriesAfter parts
            rw [split_cons_of_starts rfl, List.map_cons, List.append_assoc, ← foldl_said_start]
            rfl
          rw [after_cons, fallbackOf_cons rfl, ← hentries]
          exact hafter
      | otherwise handed =>
          obtain rfl := h.rest_eq_nil rfl
          refine ⟨true, ?_⟩
          rw [after_cons]
          rfl
      | otherwiseNothing =>
          obtain rfl := h.rest_eq_nil rfl
          refine ⟨true, ?_⟩
          rw [after_cons]
          rfl

/-- The entries that parts make: the first part opens the chain. -/
def builtEntries : List (Part α) → List (Entry α)
  | [] => []
  | first :: rest => first.entry .first :: rest.map (Part.entry .further)

/-- The chain that a legal sequence builds. -/
def built (calls : List (Call α)) : Chain α := ⟨builtEntries (parts calls), fallbackOf calls⟩

/-- **A LEGAL SEQUENCE BUILDS THE CHAIN OF ITS PARTS.** -/
theorem ofCalls_of_isLegal {calls : List (Call α)} (h : IsLegal calls) :
    ofCalls calls = .ok (built calls) := by
  obtain ⟨root, rest, rfl, hopens⟩ := h.opens
  have hparts : parts (.opening root :: rest) = ⟨root, (split rest).1⟩ :: parts rest :=
    congrArg Prod.snd (split_cons_of_starts rfl rest)
  have hsingle := h.single
  rw [hparts] at hsingle
  have hcontinues : Continues (Entry.start .first root) rest := by
    refine ⟨hopens, ?_, ?_, forall_dropLast_of_cons h.ends⟩
    · rw [List.length_append]
      exact hsingle _ List.mem_cons_self
    · exact fun part hmem => hsingle part (List.mem_cons_of_mem _ hmem)
  obtain ⟨closed, hafter⟩ := after_of_continues rest [] _ hcontinues
  have hentries : entriesAfter [] (Entry.start .first root) rest
      = builtEntries (parts (.opening root :: rest)) := by
    rw [hparts]
    exact congrArg (fun entry => entry :: (parts rest).map (Part.entry .further))
      (foldl_said_start .first ⟨root, (split rest).1⟩)
  unfold ofCalls
  show (match Draft.after ⟨[] ++ [Entry.start .first root], .undefined, false⟩ rest with
    | .ok draft => draft.finish
    | .error fault => .error fault) = _
  rw [hafter, hentries, hparts]
  show Except.ok _ = Except.ok (Chain.mk _ _)
  rw [hparts, fallbackOf_cons rfl]

/-! ## Targets -/

/-- What is in a part, or before the first one, is in the sequence. -/
theorem mem_of_mem_split {calls : List (Call α)} {call : Call α} :
    (call ∈ (split calls).1 → call ∈ calls)
      ∧ ∀ part ∈ parts calls, call ∈ part.calls → call ∈ calls := by
  induction calls with
  | nil => exact ⟨id, fun _ hmem => nomatch hmem⟩
  | cons first rest ih =>
      obtain ⟨hbefore, hparts⟩ := ih
      unfold parts
      cases hstarts : first.starts? with
      | some root =>
          rw [split_cons_of_starts hstarts]
          refine ⟨nofun, ?_⟩
          intro part hmem hcall
          rcases List.mem_cons.1 hmem with rfl | hmem
          · exact List.mem_cons_of_mem _ (hbefore hcall)
          · exact List.mem_cons_of_mem _ (hparts part hmem hcall)
      | none =>
          rw [split_cons_of_not_starts hstarts]
          refine ⟨?_, ?_⟩
          · intro hmem
            rcases List.mem_cons.1 hmem with rfl | hmem
            · exact List.mem_cons_self
            · exact List.mem_cons_of_mem _ (hbefore hmem)
          · intro part hmem hcall
            exact List.mem_cons_of_mem _ (hparts part hmem hcall)

/-- **EVERY ENTRY COMES FROM A PART** of what was said. -/
theorem exists_part_of_mem_builtEntries {said : List (Part α)} {entry : Entry α}
    (h : entry ∈ builtEntries said) : ∃ part ∈ said, ∃ kind, entry = part.entry kind := by
  cases said with
  | nil => exact nomatch h
  | cons first rest =>
      rcases List.mem_cons.1 h with rfl | h
      · exact ⟨first, List.mem_cons_self, .first, rfl⟩
      · obtain ⟨part, hmem, rfl⟩ := List.mem_map.1 h
        exact ⟨part, List.mem_cons_of_mem _ hmem, .further, rfl⟩

/-- An entry hands over what a call of the sequence said. -/
theorem mem_of_built_target {calls : List (Call α)} {entry : Entry α}
    (hmem : entry ∈ (built calls).entries) {handed : α} (h : entry.target = some handed) :
    .target handed ∈ calls := by
  obtain ⟨part, hpart, kind, rfl⟩ := exists_part_of_mem_builtEntries hmem
  obtain ⟨call, hcall, htarget⟩ := List.mem_filterMap.1 (List.mem_of_getLast? h)
  rw [← Call.eq_target_of_target? htarget]
  exact mem_of_mem_split.2 part hpart hcall

/-- A fallback that leads to a target was handed over by a call. -/
theorem mem_of_fallbackOf {calls : List (Call α)} {handed : α}
    (h : fallbackOf calls = .target handed) : .otherwise handed ∈ calls := by
  unfold fallbackOf at h
  split at h
  · rename_i said hlast
    obtain rfl := Fallback.target.inj h
    exact List.mem_of_getLast? hlast
  · exact nomatch h
  · exact nomatch h

end Conform.Chain
