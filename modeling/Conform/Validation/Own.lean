import Conform.Schema.Node

/-! # Own checks — what a node asks of a value by itself

    The checks of a node that need neither its parts nor its custom checks run
    in a fixed order: format, choices, clause, pattern.  They run only on a
    value of the node's base type. -/

namespace Conform

/-- A check of its own that a node finds broken. -/
inductive OwnFault where
  | format (format : Format)
  | choices
  | clause (measure : Measure) (breach : Breach)
  | pattern (source : String)

namespace OwnFault

/-- The fault of a string against the format of its type. -/
def ofFormat? : BaseType → Json → Option OwnFault
  | .primitive (.format f), .string text => if f.accepts text then none else some (.format f)
  | _, _ => none

/-- The fault of a value that is not among the choices, where there are some. -/
def ofChoices? (literals : List Literal) (value : Json) : Option OwnFault :=
  if literals.isEmpty || literals.any fun literal => literal.accepts value then none
  else some .choices

/-- The fault of a measured value against a clause. -/
def ofClause? (base : BaseType) (bound : Option Clause) (value : Json) : Option OwnFault := do
  let bound ← bound
  let measure ← base.measure?
  let measured ← measure.of? value
  let breach ← bound.check measured
  return .clause measure breach

/-- The fault of a string against a pattern. -/
def ofPattern? : Option Pattern → Json → Option OwnFault
  | some ⟨source, regex⟩, .string text =>
      if regex.accepts text then none else some (.pattern source)
  | _, _ => none

end OwnFault

/-- The own checks that the value breaks, in order. -/
def Node.ownFaults (node : Node) (value : Json) : List OwnFault :=
  [OwnFault.ofFormat? node.base value,
   OwnFault.ofChoices? node.facets.choices value,
   OwnFault.ofClause? node.base node.facets.clause value,
   OwnFault.ofPattern? node.facets.pattern value].filterMap id

/-- The value breaks none of a node's own checks. -/
structure Facets.KeptBy (facets : Facets) (base : BaseType) (value : Json) : Prop where
  format : OwnFault.ofFormat? base value = none
  choices : OwnFault.ofChoices? facets.choices value = none
  clause : OwnFault.ofClause? base facets.clause value = none
  pattern : OwnFault.ofPattern? facets.pattern value = none

/-- A node has no fault to find exactly if the value keeps its facets. -/
theorem Node.ownFaults_eq_nil_iff (node : Node) (value : Json) :
    node.ownFaults value = [] ↔ node.facets.KeptBy node.base value := by
  unfold Node.ownFaults
  rw [List.filterMap_eq_nil_iff]
  simp only [List.forall_mem_cons, id_eq]
  exact ⟨fun h => ⟨h.1, h.2.1, h.2.2.1, h.2.2.2.1⟩,
    fun h => ⟨h.format, h.choices, h.clause, h.pattern, nofun⟩⟩

end Conform
