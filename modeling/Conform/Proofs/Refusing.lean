import Conform.Proofs.Declared
import Conform.Proofs.EarlyEnd

/-! # Refusing — what cannot be checked at once

    An immediate validation refuses a tree for its suspended checks, whatever the value
    is: the search through the tree comes first, and it goes through every node, also
    through those that no value leads to.  So no suspended check is left for the walk
    after it, which comes to its end from whatever site and slots it starts
    (`walk_immediate`, `exists_yields_walk`).

    Both hold of a tree and of a chain that belongs to no node; what they have in common
    is `Refuses`. -/

namespace Conform

namespace Rules

variable {rules : Rules}

/-! ## Walks come to an end -/

/-- Whatever the form of a node is, its walk does nothing once the slots are full. -/
theorem exists_walk_eq_unlessFull (rules : Rules) (mode : Mode) (node : Node) :
    ∃ checker, rules.walk mode node = rules.unlessFull checker := by
  cases node with
  | leaf type facets => exact ⟨_, rfl⟩
  | object facets fields => exact ⟨_, rfl⟩
  | array facets items => cases items <;> exact ⟨_, rfl⟩
  | union facets members => exact ⟨_, rfl⟩
  | matching facets reference cases => exact ⟨_, rfl⟩
  | switch facets field yes no => cases no <;> exact ⟨_, rfl⟩
  | chain facets body => exact ⟨_, rfl⟩

/-- **A WALK THAT WAITS COMES TO ITS END**, from any slots: full ones it leaves alone, and
    to others it adds what the node finds. -/
theorem exists_yields_walk (node : Node) (site : Site) (slots : List Slot) :
    ∃ more, Yields (rules.walk .suspending node site slots) more := by
  by_cases hfull : rules.isFull slots = true
  · obtain ⟨checker, hwalk⟩ := exists_walk_eq_unlessFull rules .suspending node
    rw [hwalk, unlessFull, if_pos hfull]
    exact ⟨slots, yields_pure slots⟩
  · have hreports : rules.Reports (rules.walk .suspending node site) _ := walk_reports node site
    have hyields := hreports slots
    rw [keep_of_isFull_eq_false rules (Bool.eq_false_iff.2 hfull)] at hyields
    exact ⟨_, hyields⟩

/-- Walking a chain comes to a result, whatever was found before. -/
theorem exists_yields_walkChain (chain : Chain Node) (site : Site) (slots : List Slot) :
    ∃ more, Yields (rules.walkChain .suspending chain site slots) more := by
  have hselected : ∃ more, Yields
      (rules.follow none ((chain.select site.context).value.map (rules.walk .suspending)) site slots)
      more := by
    cases (chain.select site.context).value with
    | fail message => exact ⟨_, yields_pure _⟩
    | pass => exact ⟨_, yields_pure _⟩
    | validate node => exact exists_yields_walk node site slots
  obtain ⟨more, hmore⟩ := hselected
  refine ⟨more, ?_⟩
  rw [walkChain, walkEntries_eq_map, walkFallback_eq_map]
  refine (yields_lift _).bind ?_
  rw [value_select_map]
  exact hmore

/-! ## Trees and chains -/

/-- How suspended checks at `nodes` are refused, by a validation and by the walk that it
    goes on with where there are none. -/
structure Refuses (nodes : List (Place × Node))
    (validation : Rules → Json → Noted (Except Error Report)) (walk : Rules → Checker) : Prop where
  /-- Whether a validation fails is a matter of the nodes alone. -/
  fails_iff : ∀ rules value, (∃ error, (validation rules value).value = .error error)
    ↔ ∃ one ∈ nodes, one.2.isSuspended = true
  /-- The error names the place of the first node with a suspended check.  It comes before
      anything is asked: there is no note. -/
  names_first : ∀ rules value one, nodes.find? (fun one => one.2.isSuspended) = some one →
    validation rules value = pure (.error (.suspendedCheck one.1.text))
  /-- Without such a node the walk comes to its end, wherever it starts. -/
  reaches_end : (∀ one ∈ nodes, one.2.isSuspended = false) →
    ∀ rules site slots, ∃ more, Yields (walk rules site slots) more

/-- A validation that looks for the first suspended check and then walks refuses in this
    way, if its walk comes to its end where there is none. -/
theorem refuses_of_reaches_end {nodes : List (Place × Node)} {walk : Rules → Checker}
    (h : (∀ one ∈ nodes, one.2.isSuspended = false) →
      ∀ rules site slots, ∃ more, Yields (walk rules site slots) more) :
    Refuses nodes
      (fun rules => reportNow ((nodes.find? fun one => one.2.isSuspended).map Prod.fst) (walk rules))
      walk where
  reaches_end := h
  names_first := by
    intro rules value one hfirst
    rw [hfirst]
    rfl
  fails_iff := by
    intro rules value
    cases hfirst : nodes.find? fun one => one.2.isSuspended with
    | some one =>
        have hsuspended : one.2.isSuspended = true :=
          List.find?_some (p := fun one : Place × Node => one.2.isSuspended) hfirst
        constructor
        · intro _
          exact ⟨one, List.mem_of_find?_eq_some hfirst, hsuspended⟩
        · intro _
          exact ⟨_, rfl⟩
    | none =>
        have hnone : ∀ one ∈ nodes, one.2.isSuspended = false := by
          intro one hmem
          exact Bool.eq_false_iff.2 (List.find?_eq_none.1 hfirst one hmem)
        obtain ⟨slots, hslots⟩ := h hnone rules (.root value) []
        -- nothing waits, so the walk comes to its end and there is a report
        have hrun : (walk rules (.root value) []).run
            = ⟨.ok slots, (walk rules (.root value) []).run.notes⟩ := by
          rw [← show (walk rules (.root value) []).run.value = .ok slots from hslots]
        have hvalid : (reportNow none (walk rules) value).value
            = .ok (.ofErrors (readyErrors slots)) := by
          rw [reportNow, hrun]
          rfl
        constructor
        · rintro ⟨error, herror⟩
          rw [Option.map_none, hvalid] at herror
          cases herror
        · rintro ⟨one, hmem, hsuspended⟩
          rw [hnone one hmem] at hsuspended
          exact absurd hsuspended Bool.false_ne_true

/-- **SUSPENDED CHECKS ARE REFUSED BY THE TREE ALONE**: an immediate validation fails
    exactly if a node of the tree has one, it names the first of them, and otherwise its
    walk comes to its end.  So it is with a chain and the nodes of its targets. -/
theorem refuses_suspended :
    (∀ node : Node, Refuses (node.declared .root) (fun rules => rules.validate node)
        fun rules => rules.walk .immediate node)
      ∧ ∀ chain : Chain Node, Refuses (chain.declared .root) (fun rules => rules.validateChain chain)
        fun rules => rules.walkChain .immediate chain := by
  constructor
  · intro node
    -- without a suspended check nothing sets the two modes apart, and waiting always ends
    have hends : (∀ one ∈ node.declared .root, one.2.isSuspended = false) →
        ∀ rules : Rules, ∀ site slots, ∃ more, Yields (rules.walk .immediate node site slots) more := by
      intro hnone rules site slots
      rw [walk_immediate ((Node.every_iff_declared node .root).2 hnone)]
      exact exists_yields_walk node site slots
    have hrefuses := refuses_of_reaches_end hends
    rw [← Node.firstSuspended?_eq_find?] at hrefuses
    exact hrefuses
  · intro chain
    have hends : (∀ one ∈ chain.declared .root, one.2.isSuspended = false) →
        ∀ rules : Rules, ∀ site slots,
          ∃ more, Yields (rules.walkChain .immediate chain site slots) more := by
      intro hnone rules site slots
      have hwalks : ∀ node ∈ chain.targets,
          rules.walk .immediate node = rules.walk .suspending node := by
        intro node hmem
        refine walk_immediate ((Node.every_iff_declared node .root).2 fun one hone => hnone one ?_)
        exact List.mem_flatMap.2 ⟨node, hmem, hone⟩
      rw [walkChain, walkChain_immediate chain hwalks]
      exact exists_yields_walkChain chain site slots
    have hrefuses := refuses_of_reaches_end hends
    rw [← Chain.firstSuspendedOf?_eq_find?] at hrefuses
    exact hrefuses

/-- The check of a case that the value does not select is refused all the same. -/
example (rules : Rules) (check : Json → Task (Option String)) :
    let tag := Node.leaf .string { customs := [⟨1, .suspended check⟩] }
    let post := Node.matching {} "kind" [("post", .object {} [("tags", .array {} (some tag))])]
    rules.validate post (.object [("kind", .string "page")])
      = pure (.error (.suspendedCheck "tags[]")) := rfl

end Rules

end Conform
