import Conform.Proofs.Building
import Conform.Proofs.CompilingAlone

/-! # Selecting — a chain selects what its calls say

    The entry of a part triggers when the part does and decides as the part does
    (`value_trigger?_entry`, `decision_entry`), so the chain that a legal sequence builds
    selects what the sequence says (`value_select_built`).  Compiling replaces the targets
    and nothing else, hence so does the chain that the sequence compiles to
    (`select_of_isLegal`). -/

namespace Conform

namespace Chain

variable {α : Type}

/-! ## Conditions -/

/-- The conditions of an entry are asked until the first one that is met. -/
theorem value_firstHolding? (data : Json) (conditions : List Condition) :
    (firstHolding? data conditions).value = conditions.find? (Condition.isMet data) := by
  induction conditions with
  | nil => rfl
  | cons condition rest ih =>
      show (if condition.isMet data = true then pure (some condition)
        else firstHolding? data rest : Noted (Option Condition)).value = _
      cases hmet : condition.isMet data with
      | true =>
          rw [List.find?_cons_of_pos hmet]
          rfl
      | false =>
          rw [List.find?_cons_of_neg (by rw [hmet]; exact Bool.false_ne_true)]
          exact ih

/-- The conditions of an entry hold if all of them are met. -/
theorem value_allHold (data : Json) (conditions : List Condition) :
    (allHold data conditions).value = conditions.all (Condition.isMet data) := by
  induction conditions with
  | nil => rfl
  | cons condition rest ih =>
      show (if condition.isMet data = true then allHold data rest
        else pure false : Noted Bool).value = _
      rw [List.all_cons]
      cases hmet : condition.isMet data with
      | true => exact ih
      | false => rfl

/-! ## Entries -/

/-- What a condition that decides says, or else what is said in the end. -/
theorem value_decided (data : Json) (conditions : List Condition) (last : Option String) :
    (do
        match ← firstHolding? data conditions with
        | some hit => return some (hit.message <|> last)
        | none => return none : Noted (Option (Option String))).value
      = if conditions.any (Condition.isMet data) = true then
          some ((conditions.find? (Condition.isMet data)).bind Condition.message <|> last)
        else none := by
  have hany : conditions.any (Condition.isMet data)
      = (conditions.find? (Condition.isMet data)).isSome := by
    rw [Bool.eq_iff_iff, List.any_eq_true, List.find?_isSome]
  rw [Noted.value_bind, value_firstHolding?, hany]
  cases conditions.find? (Condition.isMet data) with
  | none => rfl
  | some hit => rfl

/-- **AN ENTRY TRIGGERS WHEN ITS PART DOES**, with the text of the condition that decides
    or else the last text. -/
theorem value_trigger?_entry (kind : EntryKind) (part : Part α) (data : Json) :
    ((part.entry kind).trigger? data).value
      = if part.triggers data = true then
          some ((part.decider? data).bind Condition.message <|> part.lastText?)
        else none := by
  have heach : (part.entry kind).checksEach = part.asksEach := rfl
  unfold Entry.trigger? Part.triggers Part.decider?
  rw [heach]
  cases part.asksEach with
  | true => exact value_decided data part.conditions part.lastText?
  | false =>
      rw [if_neg Bool.false_ne_true, if_neg Bool.false_ne_true, if_neg Bool.false_ne_true,
        Noted.value_bind]
      have htogether : (allHold data ((part.entry kind).conditions.filter
          fun condition => condition.join != .disj)).value
          = part.together.all (Condition.isMet data) := value_allHold data part.together
      rw [htogether]
      cases part.together.all (Condition.isMet data) with
      | true => rfl
      | false => exact value_decided data part.alternatives part.lastText?

/-- An entry that triggers decides what comes of its part. -/
theorem decision_entry (kind : EntryKind) (part : Part α) (data : Json) :
    (part.entry kind).decision ((part.decider? data).bind Condition.message <|> part.lastText?)
      = part.outcome data := by
  unfold Entry.decision Part.outcome Part.entry
  cases hlast : part.lastText? with
  | none => rfl
  | some last => cases (part.decider? data).bind Condition.message <;> rfl

/-! ## Chains -/

/-- An entry that is triggered decides, and otherwise the later ones do. -/
theorem value_selectFrom_entry (kind : EntryKind) (part : Part α) (fallback : Fallback α)
    (data : Json) (entries : List (Entry α)) :
    (selectFrom fallback data (part.entry kind :: entries)).value
      = if part.triggers data = true then part.outcome data
        else (selectFrom fallback data entries).value := by
  rw [selectFrom, Noted.value_bind, value_trigger?_entry]
  cases part.triggers data with
  | true => exact decision_entry kind part data
  | false =>
      rw [if_neg Bool.false_ne_true, if_neg Bool.false_ne_true]

/-- **THE FIRST PART THAT IS TRIGGERED DECIDES**, and without one the fallback does. -/
theorem value_selectFrom_map_entry (fallback : Fallback α) (data : Json) (said : List (Part α)) :
    (selectFrom fallback data (said.map (Part.entry .further))).value
      = match said.find? (Part.triggers data) with
        | some part => part.outcome data
        | none => fallback.decision := by
  induction said with
  | nil => rfl
  | cons part rest ih =>
      rw [List.map_cons, value_selectFrom_entry]
      cases ht : part.triggers data with
      | true =>
          rw [List.find?_cons_of_pos ht]
          rfl
      | false =>
          rw [List.find?_cons_of_neg (by rw [ht]; exact Bool.false_ne_true)]
          exact ih

/-- The fallback that the last call leaves decides what comes of the end. -/
theorem decision_fallbackOf (calls : List (Call α)) : (fallbackOf calls).decision = ending calls := by
  unfold fallbackOf ending
  cases calls.getLast? with
  | none => rfl
  | some call => cases call <;> rfl

/-- **THE CHAIN OF A SEQUENCE SELECTS WHAT THE SEQUENCE SAYS.** -/
theorem value_select_built (calls : List (Call α)) (data : Json) :
    ((built calls).select data).value = reading calls data := by
  rw [reading, ← decision_fallbackOf]
  show (selectFrom (fallbackOf calls) data (builtEntries (parts calls))).value = _
  cases parts calls with
  | nil => rfl
  | cons first rest =>
      show (selectFrom _ data (first.entry .first :: rest.map (Part.entry .further))).value = _
      rw [value_selectFrom_entry, value_selectFrom_map_entry]
      cases ht : first.triggers data with
      | true =>
          rw [List.find?_cons_of_pos ht]
          rfl
      | false =>
          rw [List.find?_cons_of_neg (by rw [ht]; exact Bool.false_ne_true)]
          rfl

end Chain

/-! ## Compiling a sequence -/

namespace Compiler

open Chain (Call IsLegal Part)

variable {tree : Spec → Node}

/-- The entries compile to entries with the compiled targets. -/
theorem makes_compileEntries {entries : List (Chain.Entry Spec)}
    (h : ∀ entry ∈ entries, ∀ spec ∈ entry.target, compiled spec = .ok (tree spec)) :
    Makes (compileEntries "" entries) (entries.map (Chain.Entry.map tree)) := by
  induction entries with
  | nil =>
      unfold compileEntries
      exact makes_pure _
  | cons entry rest ih =>
      have htarget : Makes (compileTarget "" entry.target) (entry.target.map tree) := by
        cases ht : entry.target with
        | none =>
            unfold compileTarget
            exact makes_pure _
        | some spec =>
            unfold compileTarget
            exact (makes_of_compiled (h entry List.mem_cons_self spec ht)).bind (makes_pure _)
      have hrest := ih fun other hmem => h other (List.mem_cons_of_mem _ hmem)
      obtain ⟨kind, conditions, target, message, throws⟩ := entry
      unfold compileEntries
      exact htarget.bind (hrest.bind (makes_pure _))

/-- The fallback compiles to one with the compiled target. -/
theorem makes_compileFallback {fallback : Chain.Fallback Spec}
    (h : ∀ spec, fallback = .target spec → compiled spec = .ok (tree spec)) :
    Makes (compileFallback "" fallback) (fallback.map tree) := by
  cases fallback with
  | undefined =>
      unfold compileFallback
      exact makes_pure _
  | nothing =>
      unfold compileFallback
      exact makes_pure _
  | target spec =>
      unfold compileFallback
      exact (makes_of_compiled (h spec rfl)).bind (makes_pure _)

/-- A legal sequence compiles to the chain of its parts, with trees for targets. -/
theorem compiled_byCalls_of_isLegal {calls : List (Call Spec)} (hlegal : IsLegal calls)
    (htargets : ∀ spec, .target spec ∈ calls ∨ .otherwise spec ∈ calls →
      compiled spec = .ok (tree spec)) :
    compiled (.byCalls calls) = .ok (.chain {} ((Chain.built calls).map tree)) := by
  have hentries : Makes (compileEntries "" (Chain.built calls).entries) _ :=
    makes_compileEntries fun entry hmem spec htarget =>
      htargets spec (Or.inl (Chain.mem_of_built_target hmem htarget))
  have hfallback : Makes (compileFallback "" (Chain.built calls).fallback) _ :=
    makes_compileFallback fun spec heq => htargets spec (Or.inr (Chain.mem_of_fallbackOf heq))
  have hspec : Spec.byCalls calls = .chain (.ok (Chain.built calls)) :=
    congrArg Spec.chain (Chain.ofCalls_of_isLegal hlegal)
  rw [hspec]
  exact Makes.compiled_eq (hentries.bind (hfallback.bind (makes_pure _)))

/-- **A CHAIN MEANS WHAT ITS CALLS SAY.**  If the targets of a legal sequence compile, then
    so does the sequence, and for all data the chain selects what the sequence says; a
    failure carries a text that the deciding part was given. -/
theorem select_of_isLegal {calls : List (Call Spec)} (hlegal : IsLegal calls)
    (htargets : ∀ spec, .target spec ∈ calls ∨ .otherwise spec ∈ calls →
      compiled spec = .ok (tree spec)) :
    ∃ chain, compiled (.byCalls calls) = .ok (.chain {} chain)
      ∧ ∀ data, (chain.select data).value = (Chain.reading calls data).map tree
        ∧ ∀ text, (chain.select data).value = .fail text →
            ∃ part, (Chain.parts calls).find? (Part.triggers data) = some part
              ∧ .message text ∈ part.calls := by
  -- the chain that the calls build, with a tree in the place of each specification
  refine ⟨(Chain.built calls).map tree, compiled_byCalls_of_isLegal hlegal htargets, ?_⟩
  intro data
  have hselect : (((Chain.built calls).map tree).select data).value
      = (Chain.reading calls data).map tree := by
    rw [← Chain.value_select_built, Chain.select_map]
    rfl
  refine ⟨hselect, ?_⟩
  intro text hfail
  rw [hselect] at hfail
  refine Chain.exists_part_of_reading_eq_fail ?_
  cases hreading : Chain.reading calls data with
  | fail message =>
      rw [hreading] at hfail
      exact congrArg Chain.Selection.fail (Chain.Selection.fail.inj hfail)
  | validate spec =>
      rw [hreading] at hfail
      exact nomatch hfail
  | pass =>
      rw [hreading] at hfail
      exact nomatch hfail

/-- Calls with a part whose conditions are asked one by one, a part with a target, and a
    last call. -/
def sampleCalls : List (Call Spec) :=
  [.opening ⟨0, fun data => pure (.known data.isNull)⟩, .message "MISSING",
    .conj ⟨1, fun data => pure (.known data.isString)⟩, .message "TEXT",
    .further ⟨2, fun data => pure (if data.isIntegral then .known true else .failed)⟩,
    .target (.node (.leaf .integer {})), .otherwise (.node (.leaf .boolean {}))]

/-- The tree of a ready node. -/
def readyTree : Spec → Node
  | .node node => node
  | _ => default

theorem isLegal_sampleCalls : IsLegal sampleCalls :=
  ⟨⟨_, _, rfl, by decide⟩, by decide, by decide⟩

theorem compiled_of_mem_sampleCalls (spec : Spec)
    (h : .target spec ∈ sampleCalls ∨ .otherwise spec ∈ sampleCalls) :
    compiled spec = .ok (readyTree spec) := by
  simp only [sampleCalls, List.mem_cons, reduceCtorEq, Call.target.injEq, Call.otherwise.injEq,
    List.not_mem_nil, or_false, false_or] at h
  rcases h with rfl | rfl <;> rfl

theorem select_sampleCalls :
    IsLegal sampleCalls
      ∧ (∀ spec, .target spec ∈ sampleCalls ∨ .otherwise spec ∈ sampleCalls →
          compiled spec = .ok (readyTree spec))
      ∧ ∃ chain, compiled (.byCalls sampleCalls) = .ok (.chain {} chain)
        ∧ ∀ data, (chain.select data).value = (Chain.reading sampleCalls data).map readyTree
          ∧ ∀ text, (chain.select data).value = .fail text →
              ∃ part, (Chain.parts sampleCalls).find? (Part.triggers data) = some part
                ∧ .message text ∈ part.calls :=
  ⟨isLegal_sampleCalls, compiled_of_mem_sampleCalls,
    select_of_isLegal isLegal_sampleCalls compiled_of_mem_sampleCalls⟩

/-- The second condition holds by itself, and fails with its own text. -/
example : Chain.reading sampleCalls (.string "x") = .fail "TEXT" := by rfl

end Compiler

end Conform
