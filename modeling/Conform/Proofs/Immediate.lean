import Conform.Proofs.Declared
import Conform.Proofs.Walk

/-! # Immediate walks — trees without suspended checks

    Whether a walk waits matters only where it meets a suspended check.  In a tree
    that has none, the two kinds of walk are one function, notes included
    (`walk_immediate`), so an immediate validation never stops with an error
    there. -/

namespace Conform

variable {rules : Rules}

namespace Node

/-! ## No suspended check anywhere -/

/-- A node is not suspended exactly if none of its custom checks is. -/
theorem isSuspended_eq_false_iff (node : Node) :
    node.isSuspended = false ↔ ∀ custom ∈ node.facets.customs, custom.isSuspended = false := by
  unfold isSuspended
  rw [List.any_eq_false]
  constructor
  · intro h custom hmem
    exact Bool.eq_false_iff.2 (h custom hmem)
  · intro h custom hmem
    exact Bool.eq_false_iff.1 (h custom hmem)

end Node

namespace Rules

/-! ## Walks without suspended checks -/

/-- A check that answers at once is called in the same way in both modes. -/
theorem runCustom_immediate (node : Node) (place : Place) (value : Json) {custom : Custom}
    (h : custom.isSuspended = false) :
    rules.runCustom .immediate node place value custom
      = rules.runCustom .suspending node place value custom := by
  obtain ⟨serial, check | check⟩ := custom
  · rfl
  · exact nomatch h

/-- Custom checks that answer at once run alike in both modes. -/
theorem runCustoms_immediate (node : Node) (place : Place) (value : Json) {customs : List Custom}
    (h : ∀ custom ∈ customs, custom.isSuspended = false) :
    rules.runCustoms .immediate node place value customs
      = rules.runCustoms .suspending node place value customs := by
  induction customs with
  | nil => rfl
  | cons custom rest ih =>
      funext slots
      unfold runCustoms
      rw [runCustom_immediate node place value (h custom List.mem_cons_self),
        ih fun custom hmem => h custom (List.mem_cons_of_mem _ hmem)]

theorem checkValue_immediate {node : Node} (h : node.isSuspended = false) :
    rules.checkValue .immediate node = rules.checkValue .suspending node := by
  funext place parts value slots
  unfold checkValue
  rw [runCustoms_immediate node place value ((Node.isSuspended_eq_false_iff node).1 h)]

theorem concludeTrial_immediate {node : Node} (h : node.isSuspended = false) :
    rules.concludeTrial .immediate node = rules.concludeTrial .suspending node := by
  funext members place value slots trial
  unfold concludeTrial
  rw [runCustoms_immediate node place value ((Node.isSuspended_eq_false_iff node).1 h)]

/-- Fields are walked alike in both modes if each of them is. -/
theorem walkFields_immediate {fields : List (String × Node)}
    (h : ∀ field ∈ fields, rules.walk .immediate field.2 = rules.walk .suspending field.2) :
    rules.walkFields .immediate fields = rules.walkFields .suspending fields := by
  induction fields with
  | nil => rfl
  | cons field rest ih =>
      obtain ⟨name, node⟩ := field
      funext value place slots
      show (rules.walk .immediate node _ slots >>= _) = (rules.walk .suspending node _ slots >>= _)
      rw [h (name, node) List.mem_cons_self,
        ih fun field hmem => h field (List.mem_cons_of_mem _ hmem)]

/-- Members are tried alike in both modes if each of them is. -/
theorem walkMembers_immediate {members : List Node}
    (h : ∀ node ∈ members, rules.walk .immediate node = rules.walk .suspending node) :
    rules.walkMembers .immediate members = rules.walkMembers .suspending members := by
  induction members with
  | nil => rfl
  | cons member rest ih =>
      funext value site closest
      show (rules.walk .immediate member site [] >>= _)
        = (rules.walk .suspending member site [] >>= _)
      rw [h member List.mem_cons_self, ih fun node hmem => h node (List.mem_cons_of_mem _ hmem)]

theorem walkCases_immediate {cases : List (String × Node)}
    (h : ∀ case ∈ cases, rules.walk .immediate case.2 = rules.walk .suspending case.2) :
    rules.walkCases .immediate cases = rules.walkCases .suspending cases := by
  induction cases with
  | nil => rfl
  | cons case rest ih =>
      show (case.1, rules.walk .immediate case.2) :: rules.walkCases .immediate rest
        = (case.1, rules.walk .suspending case.2) :: rules.walkCases .suspending rest
      rw [h case List.mem_cons_self, ih fun case hmem => h case (List.mem_cons_of_mem _ hmem)]

/-- A chain is followed alike in both modes if its targets are walked alike. -/
theorem walkEntries_immediate {entries : List (Chain.Entry Node)}
    (h : ∀ node ∈ entries.filterMap Chain.Entry.target,
      rules.walk .immediate node = rules.walk .suspending node) :
    rules.walkEntries .immediate entries = rules.walkEntries .suspending entries := by
  rw [walkEntries_eq_map, walkEntries_eq_map]
  refine List.map_congr_left fun entry hmem => ?_
  obtain ⟨kind, conditions, target, message, throws⟩ := entry
  cases target with
  | none => rfl
  | some node =>
      unfold Chain.Entry.map
      rw [Option.map_some, Option.map_some, h node (List.mem_filterMap.2 ⟨_, hmem, rfl⟩)]

/-- A chain whose targets have one walk is walked in one way. -/
theorem walkChain_immediate (chain : Chain Node)
    (h : ∀ node ∈ chain.targets, rules.walk .immediate node = rules.walk .suspending node)
    (holder : Option Node) :
    rules.followChain holder
        ⟨rules.walkEntries .immediate chain.entries, rules.walkFallback .immediate chain.fallback⟩
      = rules.followChain holder
        ⟨rules.walkEntries .suspending chain.entries,
          rules.walkFallback .suspending chain.fallback⟩ := by
  obtain ⟨entries, fallback⟩ := chain
  have hfallback : rules.walkFallback .immediate fallback = rules.walkFallback .suspending fallback := by
    cases fallback with
    | undefined => rfl
    | nothing => rfl
    | target node =>
        show Chain.Fallback.target (rules.walk .immediate node) = .target (rules.walk .suspending node)
        rw [h node (List.mem_append_right _ (List.mem_singleton_self node))]
  rw [walkEntries_immediate fun node hmem => h node (List.mem_append_left _ hmem), hfallback]

/-- **A TREE WITHOUT SUSPENDED CHECKS HAS ONE WALK**: waiting makes no difference. -/
theorem walk_immediate {node : Node} (h : node.IsImmediate) :
    rules.walk .immediate node = rules.walk .suspending node := by
  -- the walks are equal as functions of sites, so that the cases can rewrite below binders
  induction node using Node.induction with
  | leaf type facets =>
      funext site
      show rules.enter _ (rules.checkValue .immediate _ _ _) _ = _
      rw [checkValue_immediate h.here]
      rfl
  | object facets fields ih =>
      have hparts : rules.walkFields .immediate fields = rules.walkFields .suspending fields :=
        walkFields_immediate fun field hmem => ih field hmem (h.inside (List.mem_map_of_mem hmem))
      funext site
      show rules.enter _ (rules.checkValue .immediate _ _ fun value slots =>
        rules.walkFields .immediate fields value site.place slots >>= _) _ = _
      rw [checkValue_immediate h.here, hparts]
      rfl
  | array facets items ih =>
      cases items with
      | none =>
          funext site
          show rules.enter _ (rules.checkValue .immediate _ _ _) _ = _
          rw [checkValue_immediate h.here]
          rfl
      | some items =>
          funext site
          show rules.enter _ (rules.checkValue .immediate _ _ fun value slots =>
            eachItem (rules.walk .immediate items) _ _ _ _ slots) _ = _
          rw [checkValue_immediate h.here, ih items rfl (h.inside List.mem_cons_self)]
          rfl
  | union facets members ih =>
      have htrial : rules.walkMembers .immediate members = rules.walkMembers .suspending members :=
        walkMembers_immediate fun node hmem => ih node hmem (h.inside hmem)
      funext site
      show rules.enter _ (fun value slots =>
        rules.walkMembers .immediate members value site none >>=
          rules.concludeTrial .immediate _ members site.place value slots) _ = _
      rw [concludeTrial_immediate h.here, htrial]
      rfl
  | matching facets reference cases ih =>
      have hwalks : rules.walkCases .immediate cases = rules.walkCases .suspending cases :=
        walkCases_immediate fun case hmem => ih case hmem (h.inside (List.mem_map_of_mem hmem))
      show rules.unlessFull (fun site =>
        followOption (pickCase? reference (rules.walkCases .immediate cases) site.context) site) = _
      rw [hwalks]
      rfl
  | switch facets field yes no ihyes ihno =>
      have hyes := ihyes (h.inside List.mem_cons_self)
      cases no with
      | none =>
          show rules.unlessFull (fun site =>
            followOption (pickSide? field (rules.walk .immediate yes) none site.context) site) = _
          rw [hyes]
          rfl
      | some no =>
          have hno := ihno no rfl (h.inside (List.mem_cons_of_mem yes List.mem_cons_self))
          show rules.unlessFull (fun site =>
            followOption (pickSide? field (rules.walk .immediate yes)
              (some (rules.walk .immediate no)) site.context) site) = _
          rw [hyes, hno]
          rfl
  | chain facets body ih =>
      have hwalks : ∀ node ∈ body.targets,
          rules.walk .immediate node = rules.walk .suspending node :=
        fun node hmem => ih node hmem (h.inside hmem)
      obtain ⟨entries, fallback⟩ := body
      show rules.unlessFull (rules.followChain _ ⟨_, _⟩) = _
      rw [walkChain_immediate ⟨entries, fallback⟩ hwalks]
      rfl

/-- **THE MODE DOES NOT MATTER WITHOUT SUSPENDED CHECKS.** -/
theorem walk_of_isImmediate {node : Node} (h : node.IsImmediate) (mode : Mode) :
    rules.walk mode node = rules.walk .suspending node := by
  cases mode with
  | immediate => exact walk_immediate h
  | suspending => rfl

end Rules

end Conform
