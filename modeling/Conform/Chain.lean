import Conform.Json
import Conform.Noted

/-! # Chains — conditional selection

    A chain is a list of entries, each with conditions on the data, and a
    fallback.  The first entry that triggers decides: it fails with a message
    or hands over its target; without any, the fallback decides.

    An entry that throws, whose root condition has a message of its own and
    which has some `and` but no `or`, is checked condition by condition: the
    first that holds triggers it.  Any other entry triggers when its root and
    every `and` hold, or else when some `or` holds.

    The type of what an entry hands over is a parameter that selecting never
    looks into: that is `selectFrom_map`. -/

namespace Conform

/-- What a predicate says: an answer, no answer, or that it failed. -/
inductive Verdict where
  | known (holds : Bool)
  | noValue
  | failed
deriving DecidableEq

/-- A condition given from outside.  The serial number is its identity. -/
structure Predicate where
  serial : Nat
  test : Json → Noted Verdict

/-- A predicate without an answer, or that failed, does not hold. -/
def Predicate.holds (predicate : Predicate) (data : Json) : Noted Bool := do
  let verdict ← predicate.test data
  return verdict == .known true

namespace Chain

/-- How a condition is joined to those before it. -/
inductive Join where
  | root
  | conj
  | disj
deriving DecidableEq

/-- A predicate with its message. -/
structure Condition where
  join : Join
  predicate : Predicate
  message : Option String

/-- Whether an entry opened the chain or continued it. -/
inductive EntryKind where
  | first
  | further
deriving DecidableEq

/-- One entry: its conditions, what it hands over, and its message.  An entry
    that was given a message throws. -/
structure Entry (α : Type) where
  kind : EntryKind
  conditions : List Condition
  target : Option α
  message : Option String
  throws : Bool

/-- What happens when no entry triggers: nothing was said, nothing is to be
    checked, or there is a target. -/
inductive Fallback (α : Type) where
  | undefined
  | nothing
  | target (node : α)

/-- What a chain decides. -/
inductive Selection (α : Type) where
  | fail (message : String)
  | validate (node : α)
  | pass

end Chain

/-- Entries with a fallback. -/
structure Chain (α : Type) where
  entries : List (Chain.Entry α)
  fallback : Chain.Fallback α

namespace Chain

variable {α β : Type}

/-- The message of a throwing entry that has none. -/
def fallbackMessage : String := "conditional"

/-- Whether an entry is checked condition by condition. -/
def Entry.checksEach (entry : Entry α) : Bool :=
  entry.throws
    && (entry.conditions.head?.map fun c => c.message.isSome).getD false
    && entry.conditions.any (fun c => c.join == .conj)
    && !entry.conditions.any (fun c => c.join == .disj)

/-- The first condition that holds; those after it are not asked. -/
def firstHolding? (data : Json) : List Condition → Noted (Option Condition)
  | [] => pure none
  | condition :: rest => do
      if ← condition.predicate.holds data then return some condition
      firstHolding? data rest

/-- Whether all conditions hold; those after one that does not are not asked. -/
def allHold (data : Json) : List Condition → Noted Bool
  | [] => pure true
  | condition :: rest => do
      if ← condition.predicate.holds data then allHold data rest
      else return false

/-- Whether the entry triggers, and with which message. -/
def Entry.trigger? (entry : Entry α) (data : Json) : Noted (Option (Option String)) := do
  if entry.checksEach then
    match ← firstHolding? data entry.conditions with
    | some hit => return some (hit.message <|> entry.message)
    | none => return none
  else if ← allHold data (entry.conditions.filter fun c => c.join != .disj) then
    return some entry.message
  else
    match ← firstHolding? data (entry.conditions.filter fun c => c.join == .disj) with
    | some hit => return some (hit.message <|> entry.message)
    | none => return none

/-- What an entry decides once it has triggered. -/
def Entry.decision (entry : Entry α) (message : Option String) : Selection α :=
  if entry.throws then .fail ((message <|> entry.message).getD fallbackMessage)
  else
    match entry.target with
    | some node => .validate node
    | none => .pass

/-- What the fallback decides. -/
def Fallback.decision : Fallback α → Selection α
  | .target node => .validate node
  | _ => .pass

/-- The first entry that triggers decides; otherwise the fallback does. -/
def selectFrom (fallback : Fallback α) (data : Json) : List (Entry α) → Noted (Selection α)
  | [] => pure fallback.decision
  | entry :: rest => do
      match ← entry.trigger? data with
      | some message => return entry.decision message
      | none => selectFrom fallback data rest

/-- What the chain decides for the data. -/
def select (chain : Chain α) (data : Json) : Noted (Selection α) :=
  selectFrom chain.fallback data chain.entries

/-- The targets of the entries in order, then that of the fallback. -/
def targets (chain : Chain α) : List α :=
  chain.entries.filterMap Entry.target
    ++ match chain.fallback with
      | .target node => [node]
      | _ => []

/-! ## Changing targets -/

/-- Replaces the target of an entry. -/
def Entry.map (f : α → β) (entry : Entry α) : Entry β :=
  ⟨entry.kind, entry.conditions, entry.target.map f, entry.message, entry.throws⟩

/-- Replaces the target of a fallback. -/
def Fallback.map (f : α → β) : Fallback α → Fallback β
  | .undefined => .undefined
  | .nothing => .nothing
  | .target node => .target (f node)

/-- Replaces the target of a selection. -/
def Selection.map (f : α → β) : Selection α → Selection β
  | .fail message => .fail message
  | .validate node => .validate (f node)
  | .pass => .pass

/-- Replaces the targets of a chain. -/
def map (f : α → β) (chain : Chain α) : Chain β :=
  ⟨chain.entries.map (Entry.map f), chain.fallback.map f⟩

/-- What an entry decides is changed in its target. -/
theorem Entry.decision_map (f : α → β) (entry : Entry α) (message : Option String) :
    (entry.map f).decision message = (entry.decision message).map f := by
  unfold Entry.decision
  show (if entry.throws = true then _ else _) = _
  split
  · rfl
  · show (match entry.target.map f with | some node => Selection.validate node | none => .pass) = _
    cases entry.target <;> rfl

theorem Fallback.decision_map (f : α → β) (fallback : Fallback α) :
    (fallback.map f).decision = fallback.decision.map f := by
  cases fallback <;> rfl

/-- **SELECTION IS NATURAL**: it asks the same predicates whatever the targets
    are, and hands over the target that stands at the deciding place. -/
theorem selectFrom_map (f : α → β) (fallback : Fallback α) (data : Json)
    (entries : List (Entry α)) :
    selectFrom (fallback.map f) data (entries.map (Entry.map f))
      = Selection.map f <$> selectFrom fallback data entries := by
  induction entries with
  | nil =>
      simp only [List.map_nil, selectFrom, map_pure, Fallback.decision_map]
  | cons entry rest ih =>
      simp only [List.map_cons, selectFrom, map_bind]
      congr 1
      funext hit
      cases hit with
      | none => exact ih
      | some message =>
          show pure ((entry.map f).decision message) = _
          rw [Entry.decision_map]
          rfl

/-- The same of a whole chain. -/
theorem select_map (f : α → β) (chain : Chain α) (data : Json) :
    (chain.map f).select data = Selection.map f <$> chain.select data :=
  selectFrom_map f chain.fallback data chain.entries

/-- The targets of a chain are changed one by one. -/
theorem targets_map (f : α → β) (chain : Chain α) :
    (chain.map f).targets = chain.targets.map f := by
  obtain ⟨entries, fallback⟩ := chain
  have hentries : (entries.map (Entry.map f)).filterMap Entry.target
      = (entries.filterMap Entry.target).map f := by
    rw [List.filterMap_map, List.map_filterMap]
    rfl
  show (entries.map (Entry.map f)).filterMap Entry.target ++ _ = List.map f (_ ++ _)
  rw [hentries, List.map_append]
  cases fallback <;> rfl

/-! ## What is handed over -/

/-- What an entry hands over is its target. -/
theorem Entry.target_of_decision {entry : Entry α} {message : Option String} {target : α}
    (h : entry.decision message = .validate target) : entry.target = some target := by
  unfold Entry.decision at h
  split at h
  · exact nomatch h
  · cases ht : entry.target with
    | none =>
        rw [ht] at h
        exact nomatch h
    | some found =>
        rw [ht] at h
        rw [Selection.validate.inj h]

/-- What a chain hands over is one of its targets. -/
theorem mem_targets_of_selectFrom {fallback : Fallback α} {data : Json} {target : α} :
    ∀ {entries : List (Entry α)},
      (selectFrom fallback data entries).value = .validate target →
      target ∈ targets ⟨entries, fallback⟩ := by
  intro entries
  -- by induction on the entries: the first one that triggers decides, and else the fallback
  induction entries with
  | nil =>
      intro h
      cases fallback with
      | undefined => exact nomatch h
      | nothing => exact nomatch h
      | target found =>
          rw [Selection.validate.inj h]
          exact List.mem_singleton_self target
  | cons entry rest ih =>
      intro h
      unfold selectFrom at h
      rw [Noted.value_bind] at h
      cases ht : (entry.trigger? data).value with
      | some message =>
          rw [ht] at h
          have htarget := Entry.target_of_decision h
          exact List.mem_append_left _ (List.mem_filterMap.2 ⟨entry, List.mem_cons_self, htarget⟩)
      | none =>
          rw [ht] at h
          rcases List.mem_append.1 (ih h) with he | hf
          · obtain ⟨found, hmem, htarget⟩ := List.mem_filterMap.1 he
            exact List.mem_append_left _
              (List.mem_filterMap.2 ⟨found, List.mem_cons_of_mem _ hmem, htarget⟩)
          · exact List.mem_append_right _ hf

end Chain

end Conform
