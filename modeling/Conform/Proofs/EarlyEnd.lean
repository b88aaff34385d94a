import Conform.Proofs.Immediate
import Conform.Proofs.Starting

/-! # Ending early — the first error of the full run

    Two configurations may differ in one thing only: whether the first error ends
    the validation.  The findings of a node are the same under both.  What a slot
    comes to, once it is decided, depends on the slot alone (`outcome?`), so both
    runs go through one list of slots in the order of the document, and the run
    that ends early stops at the first slot that comes to an error
    (`decide_eq`).  A suspended check after that slot is never started. -/

namespace Conform

/-- The notes that deciding a slot makes; an error is decided already. -/
def Slot.notes : Slot → List String
  | .ready _ => []
  | .undecided check => (check.check check.value).run.notes

/-- The report of the first error alone. -/
def Report.first (report : Report) : Report := .ofErrors (report.errors.take 1)

namespace Rules

variable (rules : Rules)

/-! ## Deciding slots -/

/-- The error that a slot comes to once it is decided. -/
def outcome? : Slot → Option FieldError
  | .ready error => some error
  | .undecided check => (check.check check.value).run.value.map (rules.lateObjection check)

/-- Whether a slot comes to an error. -/
def fails (slot : Slot) : Bool := (rules.outcome? slot).isSome

/-- The slots that are decided: all, unless the first error ends the validation. -/
def decided (slots : List Slot) : List Slot :=
  if rules.config.abortEarly then upTo rules.fails slots else slots

/-- After an error nothing more is decided when validation ends early. -/
theorem decideFrom_true_of_abortEarly (h : rules.config.abortEarly = true) (slots : List Slot) :
    rules.decideFrom true slots = pure [] := by
  cases slots with
  | nil => rfl
  | cons slot rest =>
      unfold decideFrom
      rw [h]
      rfl

/-- One slot is decided, and then the rest. -/
theorem decideFrom_cons {found : Bool} (h : (rules.config.abortEarly && found) = false)
    (slot : Slot) (rest : List Slot) :
    rules.decideFrom found (slot :: rest)
      = ⟨(rules.outcome? slot).toList
            ++ (rules.decideFrom (found || rules.fails slot) rest).value,
          slot.notes ++ (rules.decideFrom (found || rules.fails slot) rest).notes⟩ := by
  conv => lhs; unfold decideFrom
  rw [if_neg (by rw [h]; exact Bool.false_ne_true)]
  cases slot with
  | ready error =>
      -- an error is there before anything is asked, so this step adds no notes
      have hf : (found || rules.fails (.ready error)) = true := Bool.or_true found
      rw [hf]
      show Noted.mk _ ((rules.decideFrom true rest).notes ++ []) = _
      rw [List.append_nil]
      rfl
  | undecided check =>
      -- the answer of the check and what it notes come from one run of it
      rcases hr : (check.check check.value).run with ⟨objection, notes⟩
      have ho : rules.outcome? (.undecided check) = objection.map (rules.lateObjection check) := by
        show (check.check check.value).run.value.map _ = _
        rw [hr]
      have hn : Slot.notes (.undecided check) = notes := by
        show (check.check check.value).run.notes = _
        rw [hr]
      unfold fails
      rw [ho, hn]
      dsimp only
      rw [hr]
      cases objection with
      | some text =>
          rw [Option.map_some, Option.isSome_some, Bool.or_true]
          show Noted.mk _ (notes ++ ((rules.decideFrom true rest).notes ++ [])) = _
          rw [List.append_nil]
          rfl
      | none =>
          rw [Option.map_none, Option.isSome_none, Bool.or_false]
          rfl

/-- The outcome of the first slot comes before the outcomes of the others. -/
theorem toList_append_filterMap (slot : Slot) (rest : List Slot) :
    (rules.outcome? slot).toList ++ rest.filterMap rules.outcome?
      = (slot :: rest).filterMap rules.outcome? := by
  rw [List.filterMap_cons]
  cases rules.outcome? slot <;> rfl

/-- Ending early, slots are decided up to the first one that fails. -/
theorem decideFrom_of_abortEarly (h : rules.config.abortEarly = true) (slots : List Slot) :
    rules.decideFrom false slots
      = ⟨(upTo rules.fails slots).filterMap rules.outcome?,
          (upTo rules.fails slots).flatMap Slot.notes⟩ := by
  induction slots with
  | nil => rfl
  | cons slot rest ih =>
      rw [decideFrom_cons rules (Bool.and_false _), upTo, Bool.false_or]
      by_cases hs : rules.fails slot = true
      -- the slot comes to an error, and the rest is not decided any more
      · rw [if_pos hs, hs, decideFrom_true_of_abortEarly rules h, ← toList_append_filterMap]
        rfl
      · rw [if_neg hs, Bool.eq_false_iff.2 hs, ih, ← toList_append_filterMap, List.flatMap_cons]

/-- Not ending early, every slot is decided. -/
theorem decideFrom_of_not_abortEarly (h : rules.config.abortEarly = false) (slots : List Slot) :
    ∀ found, rules.decideFrom found slots
      = ⟨slots.filterMap rules.outcome?, slots.flatMap Slot.notes⟩ := by
  induction slots with
  | nil =>
      intro found
      rfl
  | cons slot rest ih =>
      intro found
      rw [decideFrom_cons rules (by rw [h]; rfl), ih, ← toList_append_filterMap, List.flatMap_cons]

/-- **DECIDING GOES DOWN THE LIST** of slots that are decided: their errors in
    order, and the notes of the checks that wait among them. -/
theorem decide_eq (slots : List Slot) :
    rules.decide slots
      = ⟨(rules.decided slots).filterMap rules.outcome?,
          (rules.decided slots).flatMap Slot.notes⟩ := by
  unfold decided
  cases h : rules.config.abortEarly with
  | true => exact decideFrom_of_abortEarly rules h slots
  | false => exact decideFrom_of_not_abortEarly rules h slots false

theorem fails_of_isReady (slot : Slot) (h : slot.isReady = true) : rules.fails slot = true := by
  cases slot with
  | ready error => rfl
  | undecided check => exact nomatch h

/-- What was not kept would not be decided either. -/
theorem decided_keep (slots : List Slot) : rules.decided (rules.keep slots) = rules.decided slots := by
  unfold decided keep
  split
  · exact upTo_upTo rules.fails_of_isReady slots
  · rfl

/-! ## Outcomes by findings -/

/-- A walk that reports what is found keeps as much of it as the rules keep. -/
theorem run_of_reports {checker : Checker} {site : Site} {found : List Slot}
    (h : rules.Reports (checker site) found) :
    (checker site []).run = ⟨.ok (rules.keep found), (checker site []).run.notes⟩ := by
  have hw : (checker site (rules.keep [])).run.value = .ok (rules.keep ([] ++ found)) := h []
  rw [keep_nil, List.nil_append] at hw
  rw [← hw]

/-- What a checker that waits comes to, by what it reports. -/
theorem reportLater_of_reports {checker : Checker} {value : Json} {found : List Slot}
    (h : rules.Reports (checker (.root value)) found) :
    rules.reportLater checker value
      = ⟨.ok (.ofErrors ((rules.decided found).filterMap rules.outcome?)),
          (checker (.root value) []).run.notes ++ (rules.decided found).flatMap Slot.notes⟩ := by
  unfold reportLater
  rw [run_of_reports rules h]
  show Noted.mk (Except.ok (Report.ofErrors (rules.decide (rules.keep found)).value))
    (_ ++ ((rules.decide (rules.keep found)).notes ++ [])) = _
  rw [decide_eq, decided_keep, List.append_nil]

/-- What an immediate checker comes to where there is no suspended check. -/
theorem reportNow_of_reports {checker : Checker} {value : Json} {found : List Slot}
    (h : rules.Reports (checker (.root value)) found) :
    (reportNow none checker value).value = .ok (.ofErrors (readyErrors (rules.keep found))) := by
  unfold reportNow
  dsimp only
  rw [run_of_reports rules h]
  rfl

/-- **VALIDATION THAT WAITS REPORTS WHAT IS DECIDED ON**, and makes the notes of the walk before
    those of the checks it waits for. -/
theorem validateWaiting_eq (node : Node) (value : Json) :
    rules.validateWaiting node value
      = ⟨.ok (.ofErrors ((rules.decided (rules.findings node (.root value))).filterMap rules.outcome?)),
          (rules.walk .suspending node (.root value) []).run.notes
            ++ (rules.decided (rules.findings node (.root value))).flatMap Slot.notes⟩ :=
  reportLater_of_reports rules (walk_reports node _)

/-- **VALIDATION AT ONCE REFUSES** a tree with a suspended check, and names its place. -/
theorem value_validate_of_suspended {node : Node} {place : Place} (value : Json)
    (h : node.firstSuspended? .root = some place) :
    (rules.validate node value).value = .error (.suspendedCheck place.text) := by
  unfold validate
  rw [h]
  rfl

/-- Without suspended checks, validation at once reports the errors that are found. -/
theorem value_validate_of_immediate {node : Node} (value : Json)
    (h : node.firstSuspended? .root = none) :
    (rules.validate node value).value
      = .ok (.ofErrors (readyErrors (rules.keep (rules.findings node (.root value))))) := by
  unfold validate
  rw [h, walk_immediate ((Node.firstSuspended?_eq_none_iff .root node).1 h)]
  exact reportNow_of_reports rules (walk_reports node _)

/-! ## Two ways of ending -/

/-- The same rules, with or without an end at the first error. -/
def ending (early : Bool) : Rules :=
  { rules with config := { rules.config with abortEarly := early } }

/-- No wording asks whether the first error ends the validation. -/
theorem findings_ending (early : Bool) (node : Node) :
    (rules.ending early).findings node = rules.findings node := by
  delta findings
  rfl

theorem outcome?_ending (early : Bool) : (rules.ending early).outcome? = rules.outcome? := by
  funext slot
  cases slot <;> rfl

/-- Of all outcomes the first one is left when validation ends early. -/
theorem outcomes_decided_ending (slots : List Slot) :
    ((rules.ending true).decided slots).filterMap rules.outcome?
      = (slots.filterMap rules.outcome?).take 1 := by
  show (upTo (rules.ending true).fails slots).filterMap rules.outcome? = _
  unfold fails
  rw [outcome?_ending]
  exact filterMap_upTo rules.outcome? slots

/-- **ENDING EARLY REPORTS THE FIRST ERROR OF THE FULL RUN**, at once and with waiting,
    and an error of the entry point alike.  With `found`, what the tree finds in the
    order of the document, the full run reports what each of `found` comes to; the
    run that ends early starts the checks among `found` up to the first that comes
    to an error, and no other: the walk before that makes the notes it makes with
    any other suspended checks in their place. -/
theorem ending_early_reports_first_error (node : Node) (value : Json) :
    let found := rules.findings node (.root value)
    ((rules.ending true).validate node value).value
        = ((rules.ending false).validate node value).value.map Report.first
      ∧ ((rules.ending true).validateWaiting node value).value
        = ((rules.ending false).validateWaiting node value).value.map Report.first
      ∧ ((rules.ending false).validateWaiting node value).value
        = .ok (.ofErrors (found.filterMap rules.outcome?))
      ∧ ∀ f, ((rules.ending true).validateWaiting node value).notes
        = ((rules.ending true).walk .suspending (node.withSuspended f) (.root value) []).run.notes
          ++ (upTo rules.fails found).flatMap Slot.notes := by
  intro found
  have hearly : (rules.ending true).findings node (.root value) = found := by
    rw [findings_ending]
  have hfull : (rules.ending false).findings node (.root value) = found := by
    rw [findings_ending]
  refine ⟨?_, ?_, ?_, ?_⟩
  · cases hs : node.firstSuspended? .root with
    | some place =>
        rw [value_validate_of_suspended _ value hs, value_validate_of_suspended _ value hs]
        rfl
    | none =>
        -- keeping ends at the first error of the walk
        rw [value_validate_of_immediate _ value hs, value_validate_of_immediate _ value hs,
          hearly, hfull]
        show Except.ok (Report.ofErrors (readyErrors (upTo Slot.isReady found))) = _
        rw [readyErrors_upTo]
        rfl
  · rw [validateWaiting_eq, validateWaiting_eq, hearly, hfull]
    show Except.ok (Report.ofErrors _) = Except.ok (Report.ofErrors (List.take 1 _))
    rw [outcome?_ending, outcome?_ending, outcomes_decided_ending]
    rfl
  · rw [validateWaiting_eq, hfull, outcome?_ending]
    rfl
  · intro f
    -- the walk itself starts no suspended check, so only deciding does
    rw [validateWaiting_eq, hearly, notes_walk_withSuspended]
    show _ ++ (upTo (rules.ending true).fails found).flatMap Slot.notes = _
    unfold fails
    rw [outcome?_ending]

end Rules

end Conform
