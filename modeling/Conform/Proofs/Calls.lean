import Conform.Chain.Call

/-! # Calls — what a sequence of calls says

    A sequence of calls is read in PARTS: a part is the call that begins it, `when` or
    `else_when`, with the calls up to the next of these.  A text belongs to the condition
    that was called for last.  What a part asks, when it triggers and what comes of it is
    said by its calls alone, and so is what the whole sequence selects (`reading`).

    A part that fails does so with one of its own texts
    (`exists_part_of_reading_eq_fail`). -/

namespace Conform.Chain

variable {α : Type}

/-! ## Single calls -/

namespace Call

/-- The predicate of a call that begins a part. -/
def starts? : Call α → Option Predicate
  | .opening predicate => some predicate
  | .further predicate => some predicate
  | _ => none

/-- The predicate of a further condition, with how it is joined. -/
def joins? : Call α → Option (Join × Predicate)
  | .conj predicate => some (.conj, predicate)
  | .disj predicate => some (.disj, predicate)
  | _ => none

/-- The text of a message. -/
def text? : Call α → Option String
  | .message text => some text
  | _ => none

/-- What is handed over when a part triggers. -/
def target? : Call α → Option α
  | .target handed => some handed
  | _ => none

/-- Whether the call opens a chain. -/
def isOpening : Call α → Bool
  | .opening _ => true
  | _ => false

/-- Whether the call says what happens when no part triggers. -/
def isFallback : Call α → Bool
  | .otherwise _ => true
  | .otherwiseNothing => true
  | _ => false

/-- Only one kind of call sets a text. -/
theorem eq_message_of_text? {call : Call α} {text : String} (h : call.text? = some text) :
    call = .message text := by
  cases call with
  | message said => rw [Option.some.inj h]
  | opening predicate => exact nomatch h
  | conj predicate => exact nomatch h
  | disj predicate => exact nomatch h
  | further predicate => exact nomatch h
  | target target => exact nomatch h
  | otherwise target => exact nomatch h
  | otherwiseNothing => exact nomatch h

/-- Only one kind of call hands over a target. -/
theorem eq_target_of_target? {call : Call α} {handed : α} (h : call.target? = some handed) :
    call = .target handed := by
  cases call with
  | target said => rw [Option.some.inj h]
  | opening predicate => exact nomatch h
  | conj predicate => exact nomatch h
  | disj predicate => exact nomatch h
  | further predicate => exact nomatch h
  | message text => exact nomatch h
  | otherwise said => exact nomatch h
  | otherwiseNothing => exact nomatch h

end Call

/-! ## Parts -/

/-- A part: its first condition, and the calls after it. -/
structure Part (α : Type) where
  root : Predicate
  calls : List (Call α)

/-- The calls before the first part, and the parts. -/
def split : List (Call α) → List (Call α) × List (Part α)
  | [] => ([], [])
  | call :: rest =>
      match call.starts? with
      | some root => ([], ⟨root, (split rest).1⟩ :: (split rest).2)
      | none => (call :: (split rest).1, (split rest).2)

/-- The parts of a sequence. -/
def parts (calls : List (Call α)) : List (Part α) := (split calls).2

/-- A sequence is legal when it begins with the only `when`, no part has two targets, and
    what says how it ends is its last call. -/
structure IsLegal (calls : List (Call α)) : Prop where
  opens : ∃ root rest, calls = .opening root :: rest ∧ ∀ call ∈ rest, call.isOpening = false
  single : ∀ part ∈ parts calls, (part.calls.filterMap Call.target?).length ≤ 1
  ends : ∀ call ∈ calls.dropLast, call.isFallback = false

/-- The text that calls attach to the condition before them: the last one before the next
    condition. -/
def attached? : List (Call α) → Option String
  | [] => none
  | call :: rest =>
      match call.joins? with
      | some _ => none
      | none => attached? rest <|> call.text?

/-- The conditions that calls join to those before, each with the text attached to it. -/
def joined : List (Call α) → List Condition
  | [] => []
  | call :: rest =>
      match call.joins? with
      | some (join, predicate) => ⟨join, predicate, attached? rest⟩ :: joined rest
      | none => joined rest

/-- Whether the predicate of a condition says yes. -/
def Condition.isMet (data : Json) (condition : Condition) : Bool :=
  (condition.predicate.test data).value == .known true

namespace Part

/-- The conditions of a part, in the order of the calls. -/
def conditions (part : Part α) : List Condition :=
  ⟨.root, part.root, attached? part.calls⟩ :: joined part.calls

/-- The conditions that must hold together: the first one and those joined by `and`. -/
def together (part : Part α) : List Condition :=
  part.conditions.filter fun condition => condition.join != .disj

/-- The conditions that are enough by themselves: those joined by `or`. -/
def alternatives (part : Part α) : List Condition :=
  part.conditions.filter fun condition => condition.join == .disj

/-- The last text of the part. -/
def lastText? (part : Part α) : Option String := (part.calls.filterMap Call.text?).getLast?

/-- What the part hands over; a legal part has no more than one target. -/
def target? (part : Part α) : Option α := (part.calls.filterMap Call.target?).getLast?

/-- Whether every condition is enough by itself: there is a message, one on the first
    condition, some `and` and no `or`. -/
def asksEach (part : Part α) : Bool :=
  part.lastText?.isSome && (attached? part.calls).isSome
    && part.conditions.any (fun condition => condition.join == .conj)
    && !part.conditions.any (fun condition => condition.join == .disj)

/-- Whether the part triggers. -/
def triggers (data : Json) (part : Part α) : Bool :=
  if part.asksEach then part.conditions.any (Condition.isMet data)
  else part.together.all (Condition.isMet data) || part.alternatives.any (Condition.isMet data)

/-- The condition that decides, if the part is not decided by several together. -/
def decider? (data : Json) (part : Part α) : Option Condition :=
  if part.asksEach then part.conditions.find? (Condition.isMet data)
  else if part.together.all (Condition.isMet data) then none
  else part.alternatives.find? (Condition.isMet data)

/-- What comes of a part that triggers: it fails if it has a message, with the text of the
    condition that decides or else its last text. -/
def outcome (data : Json) (part : Part α) : Selection α :=
  match part.lastText? with
  | some last => .fail (((part.decider? data).bind Condition.message).getD last)
  | none =>
      match part.target? with
      | some target => .validate target
      | none => .pass

end Part

/-- What comes of a sequence none of whose parts triggers: a target that the last call hands
    over is validated, and after any other end the value passes. -/
def ending (calls : List (Call α)) : Selection α :=
  match calls.getLast? with
  | some (.otherwise target) => .validate target
  | _ => .pass

/-- **WHAT A SEQUENCE OF CALLS SAYS**: the first part that triggers decides, and if none
    does, the last call. -/
def reading (calls : List (Call α)) (data : Json) : Selection α :=
  match (parts calls).find? (Part.triggers data) with
  | some part => part.outcome data
  | none => ending calls

theorem ending_ne_fail (calls : List (Call α)) (text : String) : ending calls ≠ .fail text := by
  intro h
  unfold ending at h
  split at h <;> cases h

/-! ## Texts -/

/-- A text that is attached to the first condition was set by a call. -/
theorem mem_of_attached? {calls : List (Call α)} {text : String} (h : attached? calls = some text) :
    .message text ∈ calls := by
  induction calls with
  | nil => exact nomatch h
  | cons call rest ih =>
      rw [attached?] at h
      split at h
      · exact nomatch h
      · cases hrest : attached? rest with
        | some later =>
            rw [hrest] at h
            obtain rfl : later = text := Option.some.inj h
            exact List.mem_cons_of_mem _ (ih hrest)
        | none =>
            rw [hrest] at h
            rw [Call.eq_message_of_text? h]
            exact List.mem_cons_self

/-- A text that is attached to a later condition was set by a call. -/
theorem mem_of_mem_joined {calls : List (Call α)} {condition : Condition}
    (hmem : condition ∈ joined calls) {text : String} (h : condition.message = some text) :
    .message text ∈ calls := by
  induction calls with
  | nil => exact nomatch hmem
  | cons call rest ih =>
      rw [joined] at hmem
      split at hmem
      · rcases List.mem_cons.1 hmem with rfl | hmem
        · exact List.mem_cons_of_mem _ (mem_of_attached? h)
        · exact List.mem_cons_of_mem _ (ih hmem)
      · exact List.mem_cons_of_mem _ (ih hmem)

namespace Part

variable {part : Part α} {data : Json} {text : String}

theorem mem_of_lastText? (h : part.lastText? = some text) : .message text ∈ part.calls := by
  obtain ⟨call, hmem, hcall⟩ := List.mem_filterMap.1 (List.mem_of_getLast? h)
  rw [← Call.eq_message_of_text? hcall]
  exact hmem

theorem mem_of_mem_conditions {condition : Condition} (hmem : condition ∈ part.conditions)
    (h : condition.message = some text) : .message text ∈ part.calls := by
  rcases List.mem_cons.1 hmem with rfl | hmem
  · exact mem_of_attached? h
  · exact mem_of_mem_joined hmem h

/-- The condition that decides is one of the part. -/
theorem mem_of_decider? {condition : Condition} (h : part.decider? data = some condition) :
    condition ∈ part.conditions := by
  unfold decider? at h
  split at h
  · exact List.mem_of_find?_eq_some h
  · split at h
    · exact nomatch h
    · exact (List.mem_filter.1 (List.mem_of_find?_eq_some h)).1

/-- **A PART FAILS WITH ONE OF ITS OWN TEXTS.** -/
theorem mem_of_outcome_eq_fail (h : part.outcome data = .fail text) : .message text ∈ part.calls := by
  unfold outcome at h
  split at h
  · rename_i last hlast
    obtain rfl := Selection.fail.inj h
    cases hdecider : (part.decider? data).bind Condition.message with
    | none => exact mem_of_lastText? hlast
    | some attached =>
        obtain ⟨condition, hcondition, hmessage⟩ := Option.bind_eq_some_iff.1 hdecider
        exact mem_of_mem_conditions (mem_of_decider? hcondition) hmessage
  · split at h
    · exact nomatch h
    · exact nomatch h

end Part

/-- Only a part that triggers makes a sequence fail, and with one of its texts. -/
theorem exists_part_of_reading_eq_fail {calls : List (Call α)} {data : Json} {text : String}
    (h : reading calls data = .fail text) :
    ∃ part, (parts calls).find? (Part.triggers data) = some part ∧ .message text ∈ part.calls := by
  unfold reading at h
  cases hpart : (parts calls).find? (Part.triggers data) with
  | some part =>
      rw [hpart] at h
      exact ⟨part, rfl, Part.mem_of_outcome_eq_fail h⟩
  | none =>
      rw [hpart] at h
      exact absurd h (ending_ne_fail calls text)

end Conform.Chain
