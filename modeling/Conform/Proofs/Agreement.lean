import Conform.Proofs.Declared
import Conform.Proofs.Waiting

/-! # Agreement — one report, whatever is asked

    A value can be validated, asserted, checked, or validated with waiting.  In a tree
    without suspended checks all four come from one report.  Validating at once and
    validating with waiting are one computation there, notes included
    (`reportLater_eq_reportNow`): both make the same walk, and the slots that it leaves are
    errors, so there is nothing to wait for and nothing to leave out. -/

namespace Conform

namespace Rules

variable {rules : Rules} {checker : Checker} {found : List Slot} {value : Json}

/-! ## Slots without suspended checks -/

/-- What is decided on is something that was found. -/
theorem mem_of_mem_decided {slot : Slot} (h : slot ∈ rules.decided found) : slot ∈ found := by
  by_cases habort : rules.config.abortEarly = true
  · rw [decided, if_pos habort] at h
    exact mem_of_mem_upTo h
  · rw [decided, if_neg habort] at h
    exact h

/-- Errors are decided already, so deciding them makes no note. -/
theorem notes_decided_of_isReady (h : ∀ slot ∈ found, slot.isReady = true) :
    (rules.decided found).flatMap Slot.notes = [] := by
  refine List.flatMap_eq_nil_iff.2 ?_
  intro slot hmem
  have hready := h slot (mem_of_mem_decided hmem)
  cases slot with
  | ready error => rfl
  | undecided check => exact nomatch hready

/-- **WITH NOTHING TO WAIT FOR, WAITING IS CHECKING AT ONCE**: where a checker finds errors
    only, the two reports are one, and so are the notes. -/
theorem reportLater_eq_reportNow (h : rules.Reports (checker (.root value)) found)
    (hready : ∀ slot ∈ found, slot.isReady = true) :
    rules.reportLater checker value = reportNow none checker value := by
  have hlater := reportLater_of_reports rules h
  rw [outcomes_decided, settle_of_isReady hready, notes_decided_of_isReady hready] at hlater
  rw [hlater, reportNow, run_of_reports rules h]
  rfl

/-- **NOTHING WAITS IN A TREE OF IMMEDIATE CHECKS**: every slot that the walk fills is ready. -/
theorem isReady_of_mem_findings {node : Node} (h : node.IsImmediate) (site : Site) :
    ∀ slot ∈ rules.findings node site, slot.isReady = true :=
  exchange_isReady.findings node site h

/-! ## Trees -/

/-- Without checks that wait, validating at once never refuses to run. -/
theorem exists_report_of_isImmediate {node : Node} (h : node.IsImmediate) (value : Json) :
    ∃ report, (rules.validate node value).value = .ok report :=
  ⟨_, value_validate_of_immediate rules value ((Node.firstSuspended?_eq_none_iff .root node).2 h)⟩

theorem validateWaiting_eq_validate {node : Node} (h : node.IsImmediate) (value : Json) :
    rules.validateWaiting node value = rules.validate node value := by
  have hfirst := (Node.firstSuspended?_eq_none_iff .root node).2 h
  rw [validate, hfirst, walk_immediate h]
  exact reportLater_eq_reportNow (walk_reports node (.root value)) (isReady_of_mem_findings h _)

/-! ## Chains -/

section

variable {chain : Chain Node} (h : ∀ node ∈ chain.targets, node.IsImmediate)
include h

/-- An immediate validation makes the walk of a validation that waits. -/
theorem validateChain_eq_reportNow (value : Json) :
    rules.validateChain chain value = reportNow none (rules.walkChain .suspending chain) value := by
  have hwalks : ∀ node ∈ chain.targets, rules.walk .immediate node = rules.walk .suspending node :=
    fun node hmem => walk_immediate (h node hmem)
  rw [validateChain, (Chain.firstSuspendedOf?_eq_none_iff .root chain).2 h, walkChain,
    walkChain_immediate chain hwalks, walkChain]

/-- No slot waits behind a chain either, if none of its targets has a check that waits. -/
theorem isReady_of_mem_selectionFindings (site : Site) :
    ∀ slot ∈ rules.selectionFindings none site
        ((chain.select site.context).value.map rules.findings), slot.isReady = true := by
  intro slot hmem
  cases hselect : (chain.select site.context).value with
  | fail message =>
      rw [hselect] at hmem
      obtain rfl := List.mem_singleton.1 hmem
      rfl
  | pass =>
      rw [hselect] at hmem
      exact nomatch hmem
  | validate node =>
      rw [hselect] at hmem
      exact isReady_of_mem_findings (h node (Chain.mem_targets_of_selectFrom hselect)) site slot hmem

theorem exists_report_of_targets (value : Json) :
    ∃ report, (rules.validateChain chain value).value = .ok report := by
  rw [validateChain_eq_reportNow h]
  exact ⟨_, reportNow_of_reports rules
    (reports_followChain (fun node _ => walk_reports node) (.root value))⟩

/-- A chain reports the same with and without waiting, if its targets are immediate. -/
theorem validateChainWaiting_eq_validateChain (value : Json) :
    rules.validateChainWaiting chain value = rules.validateChain chain value := by
  rw [validateChain_eq_reportNow h]
  exact reportLater_eq_reportNow (reports_followChain (fun node _ => walk_reports node) (.root value))
    (isReady_of_mem_selectionFindings h _)

end

end Rules

/-! ## Entry points -/

/-- What a value is found to be, asked in four ways, is one thing. -/
structure Agree (validation : Noted (Except Error Report)) (assertion : Noted (Except Error Unit))
    (check : Noted Bool) (waiting : Noted (Except Error Unit)) : Prop where
  /-- Validating comes to a report; asserting succeeds on a valid one, and otherwise fails
      with the errors of the report. -/
  asserts : ∃ report, validation.value = .ok report
    ∧ (assertion.value = .ok () ↔ report.valid = true)
    ∧ (report.valid = false → assertion.value = .error (.validation report.errors))
  /-- A check says whether asserting succeeds. -/
  checks : check.value = true ↔ assertion.value = .ok ()
  /-- Waiting comes to what asserting comes to, with the same notes on the way. -/
  waits : waiting = assertion

/-- Where waiting makes no difference and there is a report, the four ways agree. -/
theorem agree_of_eq {now later : Noted (Except Error Report)}
    (hnow : ∃ report, now.value = .ok report) (hlater : later = now) :
    Agree now (asserted <$> now) (holds <$> now) (asserted <$> later) := by
  obtain ⟨report, hnow⟩ := hnow
  have hasserted : (asserted <$> now).value = report.toExcept := by
    show asserted now.value = _
    rw [hnow]
    rfl
  have hholds : (holds <$> now).value = report.valid := by
    show holds now.value = _
    rw [hnow]
    rfl
  have hsucceeds : (asserted <$> now).value = .ok () ↔ report.valid = true := by
    rw [hasserted, Report.toExcept]
    cases report.valid with
    | true => exact ⟨fun _ => rfl, fun _ => rfl⟩
    | false => exact ⟨nofun, nofun⟩
  refine ⟨⟨report, hnow, hsucceeds, ?_⟩, ?_, ?_⟩
  · intro hinvalid
    rw [hasserted, Report.toExcept, hinvalid]
    rfl
  · rw [hholds, hsucceeds]
  · rw [hlater]

/-- **ALL ENTRY POINTS AGREE** where no check is suspended: those of a schema, those of a
    chain that belongs to no node, and, under any configuration and any messages, the
    validation of such a chain at once and with waiting. -/
theorem entry_points_agree {schema : Schema} {chain : Chain Node}
    (hschema : schema.node.IsImmediate) (hchain : ∀ node ∈ chain.targets, node.IsImmediate)
    (value : Json) :
    Agree (schema.validate value) (schema.assert value) (schema.check value)
        (schema.validateWaiting value)
      ∧ Agree (chain.validate value) (chain.assert value) (chain.check value)
        (chain.validateWaiting value)
      ∧ (∀ rules : Rules, (∃ report, (rules.validateChain chain value).value = .ok report)
        ∧ rules.validateChainWaiting chain value = rules.validateChain chain value)
      ∧ ∀ config, chain.validateWith config value
        = (Rules.ofConfig config).validateChainWaiting chain value := by
  have hwaiting : ∀ rules : Rules,
      rules.validateChainWaiting chain value = rules.validateChain chain value :=
    fun rules => Rules.validateChainWaiting_eq_validateChain hchain value
  refine ⟨?_, ?_, ?_, ?_⟩
  · exact agree_of_eq (Rules.exists_report_of_isImmediate hschema value)
      (Rules.validateWaiting_eq_validate hschema value)
  · exact agree_of_eq (Rules.exists_report_of_targets hchain value) (hwaiting _)
  · exact fun rules => ⟨Rules.exists_report_of_targets hchain value, hwaiting rules⟩
  · exact fun config => (hwaiting (Rules.ofConfig config)).symm

/-- A union with a custom check, alone and as the target of a chain. -/
theorem entry_points_agree_checkedOrAny :
    let node := Rules.checkedOrAny (.immediate fun _ => pure (some "TAKEN"))
    let schema : Schema := { node := node, config := { abortEarly := true } }
    let condition : Chain.Condition := ⟨.root, ⟨1, fun _ => pure (.known true)⟩, none⟩
    let chain : Chain Node := ⟨[⟨.first, [condition], some node, none, false⟩], .undefined⟩
    node.IsImmediate
      ∧ (schema.assert (.string "x")).value = .ok ()
      ∧ schema.validateWaiting (.string "x") = schema.assert (.string "x")
      ∧ chain.validateWaiting (.string "x") = chain.assert (.string "x") := by
  intro node schema condition chain
  have hnode : schema.node.IsImmediate := (Node.firstSuspended?_eq_none_iff .root node).1 rfl
  have hchain : ∀ one ∈ chain.targets, one.IsImmediate := by
    intro one hmem
    obtain rfl := List.mem_singleton.1 hmem
    exact hnode
  obtain ⟨hagree, hchains, -⟩ := entry_points_agree hnode hchain (.string "x")
  exact ⟨hnode, hagree.checks.1 rfl, hagree.waits, hchains.waits⟩

end Conform
