import Conform.Schema.Node

/-! # Trees — induction over nodes

    A node holds other nodes in lists of fields, in members, in cases and in the
    targets of a chain.  What holds of a node as soon as it holds of the nodes in
    it holds of every node (`Node.induction`). -/

namespace Conform

namespace Chain

/-- The targets of a chain are smaller than the chain. -/
theorem sizeOf_lt_of_mem_targets {chain : Chain Node} {node : Node} (h : node ∈ chain.targets) :
    sizeOf node < sizeOf chain := by
  obtain ⟨entries, fallback⟩ := chain
  rcases List.mem_append.1 h with he | hf
  · obtain ⟨entry, hmem, htarget⟩ := List.mem_filterMap.1 he
    have h1 := List.sizeOf_lt_of_mem hmem
    obtain ⟨kind, conditions, target, message, throws⟩ := entry
    obtain rfl : target = some node := htarget
    simp only [Entry.mk.sizeOf_spec, Option.some.sizeOf_spec] at h1
    simp only [mk.sizeOf_spec]
    omega
  · cases fallback with
    | undefined => exact nomatch hf
    | nothing => exact nomatch hf
    | target only =>
        obtain rfl : node = only := List.mem_singleton.1 hf
        simp only [mk.sizeOf_spec, Fallback.target.sizeOf_spec]
        omega

end Chain

namespace Node

/-- A named node is smaller than the list that it stands in. -/
theorem sizeOf_snd_lt_of_mem {named : List (String × Node)} {entry : String × Node}
    (h : entry ∈ named) : sizeOf entry.2 < sizeOf named := by
  have h1 := List.sizeOf_lt_of_mem h
  obtain ⟨name, node⟩ := entry
  simp only [Prod.mk.sizeOf_spec] at h1
  show sizeOf node < sizeOf named
  omega

theorem sizeOf_lt_of_mem_option {found : Option Node} {node : Node}
    (h : node ∈ found) : sizeOf node < sizeOf found := by
  obtain rfl : found = some node := h
  simp only [Option.some.sizeOf_spec]
  omega

/-- **INDUCTION OVER TREES**: each form may use what holds of the nodes in it. -/
@[elab_as_elim]
theorem induction {P : Node → Prop}
    (leaf : ∀ type facets, P (.leaf type facets))
    (object : ∀ facets fields, (∀ field ∈ fields, P field.2) → P (.object facets fields))
    (array : ∀ facets items, (∀ node ∈ items, P node) → P (.array facets items))
    (union : ∀ facets members, (∀ node ∈ members, P node) → P (.union facets members))
    (matching : ∀ facets reference cases, (∀ case ∈ cases, P case.2) →
      P (.matching facets reference cases))
    (switch : ∀ facets field yes no, P yes → (∀ node ∈ no, P node) →
      P (.switch facets field yes no))
    (chain : ∀ facets body, (∀ node ∈ Chain.targets body, P node) → P (.chain facets body)) :
    ∀ node, P node
  | .leaf type facets => leaf type facets
  | .object facets fields =>
      object facets fields fun field hmem =>
        have := sizeOf_snd_lt_of_mem hmem
        induction leaf object array union matching switch chain field.2
  | .array facets items =>
      array facets items fun node hmem =>
        have := sizeOf_lt_of_mem_option hmem
        induction leaf object array union matching switch chain node
  | .union facets members =>
      union facets members fun node hmem =>
        have := List.sizeOf_lt_of_mem hmem
        induction leaf object array union matching switch chain node
  | .matching facets reference cases =>
      matching facets reference cases fun case hmem =>
        have := sizeOf_snd_lt_of_mem hmem
        induction leaf object array union matching switch chain case.2
  | .switch facets field yes no =>
      switch facets field yes no
        (induction leaf object array union matching switch chain yes) fun node hmem =>
          have := sizeOf_lt_of_mem_option hmem
          induction leaf object array union matching switch chain node
  | .chain facets body =>
      chain facets body fun node hmem =>
        have := Chain.sizeOf_lt_of_mem_targets hmem
        induction leaf object array union matching switch chain node
termination_by node => sizeOf node
-- every node that a form holds is smaller than the form
decreasing_by
  all_goals
    simp only [Node.object.sizeOf_spec, Node.array.sizeOf_spec, Node.union.sizeOf_spec,
      Node.matching.sizeOf_spec, Node.switch.sizeOf_spec, Node.chain.sizeOf_spec]
    omega

end Node

end Conform
