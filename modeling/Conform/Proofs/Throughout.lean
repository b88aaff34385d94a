import Conform.Proofs.Tree

/-! # Throughout — what holds of a thing and of everything in it

    A node holds other nodes, and a JSON value holds other values.  A property holds
    THROUGHOUT a thing when it holds of the thing itself and throughout everything
    that the thing holds. -/

namespace Conform

/-- The property holds of a thing and of everything in it, however deep; `parts` are
    the things that a thing holds directly. -/
inductive Throughout {α : Type} (parts : α → List α) (P : α → Prop) : α → Prop
  | intro {a : α} (here : P a) (below : ∀ part ∈ parts a, Throughout parts P part) :
      Throughout parts P a

namespace Throughout

variable {α : Type} {parts : α → List α} {P : α → Prop} {a : α}

theorem here (h : Throughout parts P a) : P a := by
  cases h with
  | intro here _ => exact here

theorem inside (h : Throughout parts P a) {part : α} (hmem : part ∈ parts a) :
    Throughout parts P part := by
  cases h with
  | intro _ below => exact below part hmem

theorem intro_iff : Throughout parts P a ↔ P a ∧ ∀ part ∈ parts a, Throughout parts P part :=
  ⟨fun h => ⟨h.here, fun _ hmem => h.inside hmem⟩, fun h => .intro h.1 h.2⟩

theorem mono {Q : α → Prop} (h : Throughout parts P a) (hall : ∀ a, P a → Q a) :
    Throughout parts Q a := by
  induction h with
  | intro here _ ih => exact .intro (hall _ here) ih

/-- What has no parts has only itself to be looked at. -/
theorem of_parts_eq_nil (here : P a) (hparts : parts a = []) : Throughout parts P a := by
  refine .intro here ?_
  intro part hmem
  rw [hparts] at hmem
  exact nomatch hmem

end Throughout

/-! ## Trees -/

namespace Node

/-- The nodes that a node holds: fields, items, members, cases, sides or targets. -/
def children : Node → List Node
  | .leaf _ _ => []
  | .object _ fields => fields.map Prod.snd
  | .array _ items => items.toList
  | .union _ members => members
  | .matching _ _ cases => cases.map Prod.snd
  | .switch _ _ yes no => yes :: no.toList
  | .chain _ body => body.targets

/-- A property of every node of a tree. -/
def Every (P : Node → Prop) (node : Node) : Prop := Throughout children P node

/-- Changing facets leaves the parts of a node. -/
@[simp] theorem children_mapFacets (f : Facets → Facets) (node : Node) :
    (node.mapFacets f).children = node.children := by
  cases node <;> rfl

/-- Being required leaves the parts of a node. -/
@[simp] theorem children_withRequired (required : Bool) (node : Node) :
    (node.withRequired required).children = node.children :=
  children_mapFacets _ node

/-- A plain type has no parts. -/
@[simp] theorem children_ofType (base : BaseType) : (ofType base).children = [] := by
  cases base <;> rfl

/-- The parts of a node are smaller, so recursion over them ends. -/
theorem sizeOf_lt_of_mem_children {node child : Node} (h : child ∈ node.children) :
    sizeOf child < sizeOf node := by
  -- a child sits in a field, a list or a pair of the node, each smaller than the node itself
  cases node with
  | leaf type facets => exact nomatch h
  | object facets fields =>
      obtain ⟨field, hmem, rfl⟩ := List.mem_map.1 h
      have := sizeOf_snd_lt_of_mem hmem
      simp only [object.sizeOf_spec]
      omega
  | array facets items =>
      have := sizeOf_lt_of_mem_option (Option.mem_toList.1 h)
      simp only [array.sizeOf_spec]
      omega
  | union facets members =>
      have := List.sizeOf_lt_of_mem (show child ∈ members from h)
      simp only [union.sizeOf_spec]
      omega
  | matching facets reference cases =>
      obtain ⟨case, hmem, rfl⟩ := List.mem_map.1 h
      have := sizeOf_snd_lt_of_mem hmem
      simp only [matching.sizeOf_spec]
      omega
  | switch facets field yes no =>
      rcases List.mem_cons.1 h with rfl | hno
      · simp only [switch.sizeOf_spec]
        omega
      · have := sizeOf_lt_of_mem_option (Option.mem_toList.1 hno)
        simp only [switch.sizeOf_spec]
        omega
  | chain facets body =>
      have := Chain.sizeOf_lt_of_mem_targets (show child ∈ body.targets from h)
      simp only [chain.sizeOf_spec]
      omega

/-- Induction over trees where the form of the node is no matter. -/
@[elab_as_elim]
theorem induction_children {P : Node → Prop}
    (step : ∀ node, (∀ child ∈ children node, P child) → P node) (node : Node) : P node :=
  step node fun child _ => induction_children step child
termination_by sizeOf node
decreasing_by exact sizeOf_lt_of_mem_children ‹_›

/-- A change of a node's facets leaves the nodes in it as they are. -/
theorem Every.of_children {P : Node → Prop} {node other : Node} (h : node.Every P)
    (here : P other) (hchildren : other.children = node.children) : other.Every P := by
  refine .intro here ?_
  intro child hmem
  rw [hchildren] at hmem
  exact h.inside hmem

end Node

/-! ## Values -/

namespace Json

/-- The values that a value holds: items, or values of members. -/
def children : Json → List Json
  | .array items => items
  | .object members => members.map Prod.snd
  | _ => []

/-- A property of a value and of every value in it. -/
def Every (P : Json → Prop) (value : Json) : Prop := Throughout children P value

/-- What is found under a name is one of the values that an object holds. -/
theorem mem_children_of_member? {value found : Json} {name : String}
    (h : value.member? name = some found) : found ∈ value.children := by
  cases value with
  | object members => exact List.mem_map_of_mem (Members.mem_of_valueOf?_eq_some h)
  | null => exact nomatch h
  | bool b => exact nomatch h
  | integer n => exact nomatch h
  | float x => exact nomatch h
  | string text => exact nomatch h
  | array items => exact nomatch h

end Json

end Conform
