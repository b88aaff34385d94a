import Conform.Proofs.Settling
import Conform.Schema

/-! # Waiting — suspended checks in place of immediate ones

    Take a tree whose custom checks are all immediate, and put suspended checks
    with the same verdicts in the place of some of them.  Waiting for these comes
    to the same report where every union that is kept stands.  It does not where
    one falls: a union settles on the first member without errors while the
    suspended checks of the member are undecided, and does not look further when
    one of them objects.  So the tree with suspended checks accepts less: exactly
    the values that the other one accepts and for which every union that is kept
    stands. -/

namespace Conform.Rules

variable {rules : Rules}

/-! ## Trees without suspended checks -/

/-- Custom checks that answer at once leave nothing waiting. -/
theorem isReady_of_mem_allCustomFindings {node : Node} {place : Place} {value : Json}
    (h : node.isSuspended = false) :
    ∀ slot ∈ rules.allCustomFindings node place value, slot.isReady = true := by
  intro slot hmem
  obtain ⟨custom, hcustom, hslot⟩ := List.mem_flatMap.1 hmem
  have hs := (Node.isSuspended_eq_false_iff node).1 h custom hcustom
  obtain ⟨serial, check | check⟩ := custom
  · unfold customFindings at hslot
    dsimp only at hslot
    cases hc : (check value).value with
    | none =>
        rw [hc] at hslot
        exact nomatch hslot
    | some text =>
        rw [hc] at hslot
        obtain rfl := List.mem_singleton.1 hslot
        rfl
  · exact nomatch hs

/-- A tree without suspended checks finds errors only. -/
theorem exchange_isReady :
    Exchange rules Custom.settled (fun node _ => node.IsImmediate)
      (fun slots _ => ∀ slot ∈ slots, slot.isReady = true) where
  nil := fun _ h => nomatch h
  append := fun h1 h2 slot hmem => (List.mem_append.1 hmem).elim (h1 slot) (h2 slot)
  ready := by
    intro error slot hmem
    obtain rfl := List.mem_singleton.1 hmem
    rfl
  customs := fun h _ value => isReady_of_mem_allCustomFindings h.here
  parts := fun h hpart => h.inside hpart.mem_children
  trials := by
    intro facets members site value h hvalue ih
    unfold trialAt
    -- the union keeps what a member found, and may add checks of its own
    cases ha : rules.agreed? members site with
    | some member =>
        intro slot hmem
        have hmember := (mem_of_agreed? ha).1
        rcases List.mem_append.1 hmem with hown | hcustom
        · exact ih member hmember site (h.inside hmember) slot hown
        · exact isReady_of_mem_allCustomFindings h.here slot hcustom
    | none =>
        cases hc : members.find? (Node.fits value) with
        | some member =>
            have hmember := List.mem_of_find?_eq_some hc
            exact ih member hmember site (h.inside hmember)
        | none =>
            intro slot hmem
            obtain rfl := List.mem_singleton.1 hmem
            rfl

/-- A tree without suspended checks finds what it finds once it is settled. -/
theorem findings_settled_of_immediate {node : Node} {place : Place}
    (h : node.firstSuspended? place = none) (site : Site) :
    rules.findings node.settled site = rules.findings node site := by
  have hready : ∀ slot ∈ rules.findings node site, slot.isReady = true :=
    exchange_isReady.findings node site ((Node.firstSuspended?_eq_none_iff place node).1 h)
  rw [findings_settled, settle_of_isReady hready]
  intro facets members here value member hkeeps hvalue hagreed slot hmem
  -- the member has no errors, and there are no slots but errors
  obtain ⟨-, hclean⟩ := mem_of_agreed? hagreed
  have hfound : slot ∈ rules.findings node site :=
    mem_findings_of_keeps hkeeps (mem_findings_of_part (.agreed hvalue hagreed) hmem)
  exact absurd (hready slot hfound) (List.any_eq_false.1 hclean slot hmem)

/-! ## Suspended checks in place of immediate ones -/

/-- What slots come to is what is kept of the errors they come to. -/
theorem outcomes_decided (slots : List Slot) :
    (rules.decided slots).filterMap rules.outcome?
      = readyErrors (rules.keep (rules.settle slots)) := by
  have hready : readyErrors (rules.settle slots) = slots.filterMap rules.outcome? := by
    unfold settle readyErrors
    rw [List.filterMap_map]
    exact List.filterMap_some
  unfold decided keep
  by_cases h : rules.config.abortEarly = true
  · rw [if_pos h, if_pos h, readyErrors_upTo, hready]
    exact filterMap_upTo rules.outcome? slots
  · rw [if_neg h, if_neg h, hready]

/-- **WAITING FOR SUSPENDED CHECKS IS CHECKING AT ONCE WHERE UNIONS STAND**, for two
    trees that differ in this only: whether their custom checks, of the same
    verdicts, are suspended.  The tree that waits accepts a value exactly if the
    other one accepts it and every union that is kept stands. -/
theorem waiting_agrees_iff_unions_stand {now later : Node} (value : Json)
    (hnow : now.firstSuspended? .root = none) (hverdicts : later.settled = now.settled) :
    (rules.Stands later (.root value) →
        (rules.validateWaiting later value).value = (rules.validate now value).value)
      ∧ (holds (rules.validateWaiting later value).value = true ↔
        holds (rules.validate now value).value = true ∧ rules.Stands later (.root value)) := by
  have hfound : rules.findings later.settled (.root value) = rules.findings now (.root value) := by
    rw [hverdicts, findings_settled_of_immediate hnow]
  have hlater : (rules.validateWaiting later value).value
      = .ok (.ofErrors (readyErrors (rules.keep
          (rules.settle (rules.findings later (.root value)))))) := by
    rw [validateWaiting_eq, ← outcomes_decided]
  have hvalidate : (rules.validate now value).value
      = .ok (.ofErrors (readyErrors (rules.keep (rules.findings later.settled (.root value))))) := by
    rw [value_validate_of_immediate rules value hnow, hfound]
  have hagree : rules.Stands later (.root value) →
      (rules.validateWaiting later value).value = (rules.validate now value).value := by
    intro hstands
    rw [hlater, hvalidate, findings_settled hstands]
  refine ⟨hagree, ?_, ?_⟩
  -- a report without errors leaves no objection behind at any union
  · intro hholds
    have hstands : rules.Stands later (.root value) := by
      rw [hlater] at hholds
      have hnone := (readyErrors_eq_nil_iff _).1 (List.isEmpty_iff.1 hholds)
      rw [hasErrors_keep] at hnone
      exact stands_of_settle_eq_nil ((hasErrors_settle_eq_false_iff _).1 hnone)
    rw [hagree hstands] at hholds
    exact ⟨hholds, hstands⟩
  · rintro ⟨hholds, hstands⟩
    rw [hagree hstands]
    exact hholds

/-- A string with a custom check, or else any string. -/
def checkedOrAny (check : CustomCheck) : Node :=
  .union {} [.leaf .string { customs := [⟨1, check⟩] }, .leaf .string {}]

theorem unions_stand_without_objection :
    holds ((ofConfig {}).validate (checkedOrAny (.immediate fun _ => pure none)) (.string "x")).value
        = true
      ∧ (ofConfig {}).Stands (checkedOrAny (.suspended fun _ => .done (pure none)))
        (.root (.string "x")) := by
  have hverdicts : (checkedOrAny (.suspended fun _ => .done (pure none))).settled
      = (checkedOrAny (.immediate fun _ => pure none)).settled := rfl
  exact (waiting_agrees_iff_unions_stand (.string "x") rfl hverdicts).2.1 rfl

/-- A union falls where a suspended check objects to the first member: the second one,
    which would accept the value, is not asked. -/
theorem union_falls_on_objection :
    (checkedOrAny (.suspended fun _ => .done (pure (some "TAKEN")))).settled
        = (checkedOrAny (.immediate fun _ => pure (some "TAKEN"))).settled
      ∧ holds ((ofConfig {}).validate
          (checkedOrAny (.immediate fun _ => pure (some "TAKEN"))) (.string "x")).value = true
      ∧ holds ((ofConfig {}).validateWaiting
          (checkedOrAny (.suspended fun _ => .done (pure (some "TAKEN")))) (.string "x")).value = false :=
  ⟨rfl, rfl, rfl⟩

end Conform.Rules
