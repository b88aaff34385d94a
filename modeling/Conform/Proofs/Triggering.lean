import Mathlib.Data.List.Flatten
import Mathlib.Data.List.Perm.Subperm
import Conform.Proofs.Ordering
import Conform.Proofs.Selecting

/-! # Triggering — which conditions a selection asks

    A condition is asked when its predicate is called, and a call can be observed by the
    notes it makes.  An entry that is checked condition by condition asks them up to the
    first that is met.  Any other entry asks those that must hold together up to the first
    that is not met, and only if there is one also those that are enough by themselves, up
    to the first that is met.  A chain asks its entries up to the first that triggers.

    Main facts: a selection makes the notes of the conditions that are ASKED, and no other
    (`notes_select`), and no condition is asked twice (`subperm_asked`). -/

namespace Conform.Chain

variable {α : Type}

/-! ## Conditions -/

/-- The notes that asking a condition makes. -/
def Condition.notes (data : Json) (condition : Condition) : List String :=
  (condition.predicate.test data).notes

theorem Condition.notes_holds (data : Json) (condition : Condition) :
    (condition.predicate.holds data).notes = condition.notes data := by
  show (condition.predicate.test data).notes ++ [] = _
  rw [List.append_nil]
  rfl

/-- Looking for a condition that is met asks them up to the first one. -/
theorem notes_firstHolding? (data : Json) (conditions : List Condition) :
    (firstHolding? data conditions).notes
      = (upTo (Condition.isMet data) conditions).flatMap (Condition.notes data) := by
  induction conditions with
  | nil => rfl
  | cons condition rest ih =>
      show (condition.predicate.holds data).notes
          ++ (if condition.isMet data = true then pure (some condition)
            else firstHolding? data rest : Noted (Option Condition)).notes = _
      rw [Condition.notes_holds, upTo]
      cases condition.isMet data with
      | true =>
          rw [if_pos rfl, if_pos rfl, List.flatMap_singleton]
          exact List.append_nil _
      | false =>
          rw [if_neg Bool.false_ne_true, if_neg Bool.false_ne_true, List.flatMap_cons, ih]

/-- Making sure that conditions hold together asks them up to the first that is not met. -/
theorem notes_allHold (data : Json) (conditions : List Condition) :
    (allHold data conditions).notes
      = (upTo (fun condition => !condition.isMet data) conditions).flatMap (Condition.notes data) := by
  induction conditions with
  | nil => rfl
  | cons condition rest ih =>
      show (condition.predicate.holds data).notes
          ++ (if condition.isMet data = true then allHold data rest
            else pure false : Noted Bool).notes = _
      rw [Condition.notes_holds, upTo]
      cases condition.isMet data with
      | true =>
          rw [if_pos rfl, Bool.not_true, if_neg Bool.false_ne_true, List.flatMap_cons, ih]
      | false =>
          rw [if_neg Bool.false_ne_true, Bool.not_false, if_pos rfl, List.flatMap_singleton]
          exact List.append_nil _

/-! ## Entries -/

namespace Entry

/-- The conditions that must hold together: the first one and those joined by `and`. -/
def together (entry : Entry α) : List Condition :=
  entry.conditions.filter fun condition => condition.join != .disj

/-- The conditions that are enough by themselves: those joined by `or`. -/
def alternatives (entry : Entry α) : List Condition :=
  entry.conditions.filter fun condition => condition.join == .disj

/-- Whether the entry triggers. -/
def triggers (data : Json) (entry : Entry α) : Bool :=
  if entry.checksEach then entry.conditions.any (Condition.isMet data)
  else entry.together.all (Condition.isMet data) || entry.alternatives.any (Condition.isMet data)

/-- The conditions that the entry asks, in this order. -/
def asked (data : Json) (entry : Entry α) : List Condition :=
  if entry.checksEach then upTo (Condition.isMet data) entry.conditions
  else
    upTo (fun condition => !condition.isMet data) entry.together
      ++ if entry.together.all (Condition.isMet data) then []
        else upTo (Condition.isMet data) entry.alternatives

/-- An entry has a trigger exactly if it is triggered. -/
theorem isSome_trigger? (data : Json) (entry : Entry α) :
    (entry.trigger? data).value.isSome = entry.triggers data := by
  unfold trigger? triggers
  by_cases heach : entry.checksEach = true
  · rw [if_pos heach, if_pos heach]
    refine (congrArg Option.isSome (value_decided data entry.conditions entry.message)).trans ?_
    cases entry.conditions.any (Condition.isMet data) <;> rfl
  · rw [if_neg heach, if_neg heach, Noted.value_bind, value_allHold]
    change Option.isSome (Noted.value (if entry.together.all (Condition.isMet data) = true then _
      else _)) = _
    cases entry.together.all (Condition.isMet data) with
    | true => rfl
    | false =>
        rw [if_neg Bool.false_ne_true, Bool.false_or]
        refine (congrArg Option.isSome
          (value_decided data entry.alternatives entry.message)).trans ?_
        cases entry.alternatives.any (Condition.isMet data) <;> rfl

/-- What is made of the condition that decides makes no notes. -/
theorem notes_decided (data : Json) (conditions : List Condition) (last : Option String) :
    (do
        match ← firstHolding? data conditions with
        | some hit => return some (hit.message <|> last)
        | none => return none : Noted (Option (Option String))).notes
      = (firstHolding? data conditions).notes := by
  rw [Noted.notes_bind]
  cases (firstHolding? data conditions).value <;> exact List.append_nil _

/-- **AN ENTRY ASKS THE CONDITIONS THAT IT NEEDS**, in its order. -/
theorem notes_trigger? (data : Json) (entry : Entry α) :
    (entry.trigger? data).notes = (entry.asked data).flatMap (Condition.notes data) := by
  unfold trigger? asked
  by_cases heach : entry.checksEach = true
  · rw [if_pos heach, if_pos heach, ← notes_firstHolding?]
    exact notes_decided data entry.conditions entry.message
  · rw [if_neg heach, if_neg heach, Noted.notes_bind, value_allHold, notes_allHold,
      List.flatMap_append]
    refine congrArg (_ ++ ·) ?_
    change Noted.notes (if entry.together.all (Condition.isMet data) = true then _ else _) = _
    cases entry.together.all (Condition.isMet data) with
    | true => rfl
    | false =>
        rw [if_neg Bool.false_ne_true, if_neg Bool.false_ne_true, ← notes_firstHolding?]
        exact notes_decided data entry.alternatives entry.message

/-- The conditions that must hold together and the others are all conditions. -/
theorem together_append_alternatives (entry : Entry α) :
    (entry.together ++ entry.alternatives).Perm entry.conditions := by
  have hrest : entry.alternatives
      = entry.conditions.filter fun condition => !(condition.join != .disj) := by
    unfold alternatives
    refine congrArg (List.filter · entry.conditions) (funext fun condition => ?_)
    rw [bne, Bool.not_not]
  rw [hrest]
  exact List.filter_append_perm (fun condition : Condition => condition.join != .disj)
    entry.conditions

/-- An entry asks none of its conditions twice. -/
theorem asked_subperm (data : Json) (entry : Entry α) :
    (entry.asked data).Subperm entry.conditions := by
  unfold asked
  split
  · exact (Rules.upTo_sublist _ _).subperm
  · refine List.Subperm.trans ?_ entry.together_append_alternatives.subperm
    refine ((Rules.upTo_sublist _ entry.together).append ?_).subperm
    split
    · exact List.nil_sublist _
    · exact Rules.upTo_sublist _ entry.alternatives

end Entry

/-! ## Chains -/

/-- All conditions of a chain. -/
def conditions (chain : Chain α) : List Condition := chain.entries.flatMap Entry.conditions

/-- The conditions that the chain asks: those of its entries, up to the first that triggers. -/
def asked (data : Json) (chain : Chain α) : List Condition :=
  (upTo (Entry.triggers data) chain.entries).flatMap (Entry.asked data)

/-- **SELECTING ASKS THE CONDITIONS OF THE ENTRIES UP TO THE FIRST ONE THAT IS TRIGGERED.** -/
theorem notes_selectFrom (fallback : Fallback α) (data : Json) (entries : List (Entry α)) :
    (selectFrom fallback data entries).notes
      = ((upTo (Entry.triggers data) entries).flatMap (Entry.asked data)).flatMap
          (Condition.notes data) := by
  induction entries with
  | nil => rfl
  | cons entry rest ih =>
      have htriggers := entry.isSome_trigger? data
      unfold selectFrom
      rw [Noted.notes_bind, Entry.notes_trigger?, upTo]
      cases htrigger : (entry.trigger? data).value with
      | some message =>
          rw [htrigger] at htriggers
          rw [← htriggers, Option.isSome_some, if_pos rfl, List.flatMap_singleton]
          exact List.append_nil _
      | none =>
          rw [htrigger] at htriggers
          rw [← htriggers, Option.isSome_none, if_neg Bool.false_ne_true, List.flatMap_cons,
            List.flatMap_append, ← ih]

/-- **A SELECTION ASKS THE CONDITIONS THAT IT NEEDS**, in order. -/
theorem notes_select (data : Json) (chain : Chain α) :
    (chain.select data).notes = (chain.asked data).flatMap (Condition.notes data) :=
  notes_selectFrom chain.fallback data chain.entries

/-- No condition is asked twice: what is asked is taken from what stands there. -/
theorem flatMap_asked_subperm (data : Json) (entries : List (Entry α)) :
    (entries.flatMap (Entry.asked data)).Subperm (entries.flatMap Entry.conditions) := by
  induction entries with
  | nil => exact List.Subperm.refl _
  | cons entry rest ih =>
      rw [List.flatMap_cons, List.flatMap_cons]
      exact (entry.asked_subperm data).append ih

/-- **NO CONDITION IS ASKED TWICE** by a selection. -/
theorem subperm_asked (data : Json) (chain : Chain α) :
    (chain.asked data).Subperm chain.conditions :=
  (flatMap_asked_subperm data _).trans
    ((Rules.upTo_sublist (Entry.triggers data) chain.entries).flatMap Entry.conditions).subperm

/-! ## Calls by name -/

/-- The same condition, whose predicate notes a name whenever it is called. -/
def Condition.announcing (name : Condition → String) (condition : Condition) : Condition :=
  { condition with
    predicate :=
      { condition.predicate with
        test := fun data => do
          Noted.note (name condition)
          condition.predicate.test data } }

/-- The entry with conditions that note their names. -/
def Entry.announcing (name : Condition → String) (entry : Entry α) : Entry α :=
  { entry with conditions := entry.conditions.map (Condition.announcing name) }

/-- The chain with conditions that note their names. -/
def announcing (name : Condition → String) (chain : Chain α) : Chain α :=
  { chain with entries := chain.entries.map (Entry.announcing name) }

namespace Entry

variable (name : Condition → String) (data : Json) (entry : Entry α)

/-- Announcing conditions changes no entry's way of being checked. -/
theorem checksEach_announcing : (entry.announcing name).checksEach = entry.checksEach := by
  obtain ⟨kind, conditions, target, message, throws⟩ := entry
  unfold checksEach announcing
  dsimp only
  rw [List.head?_map, Option.map_map, List.any_map, List.any_map]
  rfl

theorem together_announcing :
    (entry.announcing name).together = entry.together.map (Condition.announcing name) :=
  List.filter_map

theorem alternatives_announcing :
    (entry.announcing name).alternatives = entry.alternatives.map (Condition.announcing name) :=
  List.filter_map

/-- An announced entry is triggered when the entry is. -/
theorem triggers_announcing : (entry.announcing name).triggers data = entry.triggers data := by
  unfold triggers
  rw [checksEach_announcing, together_announcing, alternatives_announcing, List.all_map,
    List.any_map]
  show (if entry.checksEach = true then (entry.conditions.map _).any _ else _) = _
  rw [List.any_map]
  rfl

/-- The entry asks the same conditions when they note their names. -/
theorem asked_announcing :
    (entry.announcing name).asked data = (entry.asked data).map (Condition.announcing name) := by
  unfold asked
  rw [checksEach_announcing, together_announcing, alternatives_announcing, List.all_map,
    upTo_map, upTo_map]
  show (if entry.checksEach = true then upTo _ (entry.conditions.map _) else _) = _
  rw [upTo_map, apply_ite (List.map (Condition.announcing name)), List.map_append,
    apply_ite (List.map (Condition.announcing name)), List.map_nil]
  rfl

end Entry

theorem asked_announcing (name : Condition → String) (data : Json) (chain : Chain α) :
    (chain.announcing name).asked data = (chain.asked data).map (Condition.announcing name) := by
  have htriggers : Entry.triggers (α := α) data ∘ Entry.announcing name = Entry.triggers data :=
    funext (Entry.triggers_announcing name data)
  unfold asked announcing
  dsimp only
  rw [upTo_map, htriggers, List.flatMap_map, List.map_flatMap]
  exact congrArg (List.flatMap · _) (funext (Entry.asked_announcing name data))

/-- **THE CALLS OF A SELECTION**, by the names of the conditions: these are called, in this
    order, and no others. -/
theorem notes_select_announcing (name : Condition → String) (data : Json) (chain : Chain α) :
    ((chain.announcing name).select data).notes
      = (chain.asked data).flatMap fun condition => name condition :: condition.notes data := by
  rw [notes_select, asked_announcing, List.flatMap_map]
  rfl

end Conform.Chain
