import Conform.Proofs.Facets
import Conform.Validation.Rules

/-! # Customs — changing the custom checks of all nodes of a tree

    Replacing the custom checks of all nodes one by one (`mapCustoms`) changes
    neither what a node asks by its own checks nor how any refusal of it is
    worded: the wording goes by labels and message keys. -/

namespace Conform

/-- Replaces the custom checks one by one. -/
def Facets.mapCustoms (g : Custom → Custom) (facets : Facets) : Facets :=
  { facets with customs := facets.customs.map g }

namespace Node

/-- Replaces the custom checks of a node and of all nodes in it. -/
def mapCustoms (g : Custom → Custom) : Node → Node := mapEach (Facets.mapCustoms g)

variable (g : Custom → Custom) (node : Node)

/-- The facets of an exchanged node are its facets with the checks exchanged. -/
theorem facets_mapCustoms : (node.mapCustoms g).facets = node.facets.mapCustoms g :=
  facets_mapEach _ node

theorem base_mapCustoms : (node.mapCustoms g).base = node.base := base_mapEach _ node

theorem required_mapCustoms :
    (node.mapCustoms g).facets.required = node.facets.required := by
  rw [facets_mapCustoms]
  rfl

theorem acceptsNull_mapCustoms : (node.mapCustoms g).acceptsNull = node.acceptsNull :=
  acceptsNull_mapEach _ node

/-- The label of a node at a place does not depend on its custom checks. -/
theorem labelAt_mapCustoms (place : String) :
    (node.mapCustoms g).labelAt place = node.labelAt place := by
  unfold labelAt
  rw [facets_mapCustoms]
  rfl

/-- What a node objects to by type, format, choices and bounds does not depend on its custom
    checks. -/
theorem ownFaults_mapCustoms (value : Json) :
    (node.mapCustoms g).ownFaults value = node.ownFaults value := by
  unfold ownFaults
  rw [facets_mapCustoms, base_mapCustoms]
  rfl

end Node

namespace Rules

variable (rules : Rules) (g : Custom → Custom) (node : Node) (place : Place)

/-- An error is worded by label and message key, and both survive the exchange. -/
theorem keyedError_mapCustoms (keyword key : String) (params : Members Json) :
    rules.keyedError (node.mapCustoms g) place keyword key params
      = rules.keyedError node place keyword key params := by
  unfold keyedError errorOf
  rw [Node.labelAt_mapCustoms, Node.facets_mapCustoms]
  rfl

theorem missing_mapCustoms : rules.missing (node.mapCustoms g) place = rules.missing node place :=
  keyedError_mapCustoms rules g node place _ _ _

/-- A value of the wrong type is refused in the same words, and its parameters are the same. -/
theorem wrongType_mapCustoms :
    rules.wrongType (node.mapCustoms g) place = rules.wrongType node place := by
  unfold wrongType
  rw [keyedError_mapCustoms, Node.base_mapCustoms]

/-- When no member of a union accepts a value, the listing of the members is the same. -/
theorem noMember_mapCustoms (members : List Node) :
    rules.noMember (node.mapCustoms g) place (members.map (Node.mapCustoms g))
      = rules.noMember node place members := by
  unfold noMember
  rw [keyedError_mapCustoms, Node.mapCustoms, Node.typeTexts_map_mapEach]

/-- Each fault of the node itself is reported in the same words. -/
theorem broken_mapCustoms :
    rules.broken (node.mapCustoms g) place = rules.broken node place := by
  funext fault
  cases fault with
  | format format => exact keyedError_mapCustoms rules g node place _ _ _
  | choices =>
      unfold broken
      rw [keyedError_mapCustoms, Node.facets_mapCustoms]
      rfl
  | clause measure breach => exact keyedError_mapCustoms rules g node place _ _ _
  | pattern source => exact keyedError_mapCustoms rules g node place _ _ _

/-- What a chain reports in place of a target is the same, the message included. -/
theorem failing_mapCustoms (message : String) :
    rules.failing (some (node.mapCustoms g)) place message
      = rules.failing (some node) place message := by
  show rules.error _ _ _ _ ((node.mapCustoms g).labelAt place.text) = _
  rw [Node.labelAt_mapCustoms]
  rfl

/-- An override of the wording of custom errors belongs to the node, not to one of its checks. -/
theorem customKey?_mapCustoms : customKey? (node.mapCustoms g) = customKey? node := by
  unfold customKey?
  rw [Node.facets_mapCustoms]
  rfl

theorem objection_mapCustoms (text : String) :
    rules.objection (node.mapCustoms g) place text = rules.objection node place text := by
  unfold objection errorOf
  rw [Node.labelAt_mapCustoms, customKey?_mapCustoms]

/-- A slot that waits for a check is labelled and worded as before. -/
theorem undecided_mapCustoms (value : Json) (check : Json → Task (Option String)) :
    undecided (node.mapCustoms g) place value check = undecided node place value check := by
  unfold undecided
  rw [Node.labelAt_mapCustoms, customKey?_mapCustoms]

end Rules

end Conform
