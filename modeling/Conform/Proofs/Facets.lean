import Conform.Proofs.Tree

/-! # Facets — changing the facets of all nodes of a tree

    A change of facets at every node of a tree leaves the forms alone
    (`mapEach`).  So it leaves alone everything that is read off the forms: the base
    types, which values fit, whether null is a value, and the types a message
    lists.  The companions over lists are the maps of the lists. -/

namespace Conform.Node

variable (f : Facets → Facets)

mutual

/-- Changes the facets of a node and of all nodes in it. -/
def mapEach (f : Facets → Facets) : Node → Node
  | .leaf type facets => .leaf type (f facets)
  | .object facets fields => .object (f facets) (mapEachNamed f fields)
  | .array facets none => .array (f facets) none
  | .array facets (some items) => .array (f facets) (some (mapEach f items))
  | .union facets members => .union (f facets) (mapEachMember f members)
  | .matching facets reference cases => .matching (f facets) reference (mapEachNamed f cases)
  | .switch facets field yes none => .switch (f facets) field (mapEach f yes) none
  | .switch facets field yes (some no) =>
      .switch (f facets) field (mapEach f yes) (some (mapEach f no))
  | .chain facets ⟨entries, fallback⟩ =>
      .chain (f facets) ⟨mapEachEntry f entries, mapEachFallback f fallback⟩
termination_by structural node => node

/-- The same for fields and cases. -/
def mapEachNamed (f : Facets → Facets) : List (String × Node) → List (String × Node)
  | [] => []
  | (name, node) :: rest => (name, mapEach f node) :: mapEachNamed f rest
termination_by structural named => named

/-- The same for members. -/
def mapEachMember (f : Facets → Facets) : List Node → List Node
  | [] => []
  | node :: rest => mapEach f node :: mapEachMember f rest
termination_by structural members => members

/-- The same for entries of a chain. -/
def mapEachEntry (f : Facets → Facets) : List (Chain.Entry Node) → List (Chain.Entry Node)
  | [] => []
  | ⟨kind, conditions, target, message, throws⟩ :: rest =>
      ⟨kind, conditions, mapEachTarget f target, message, throws⟩ :: mapEachEntry f rest
termination_by structural entries => entries

/-- The same for the target of an entry. -/
def mapEachTarget (f : Facets → Facets) : Option Node → Option Node
  | none => none
  | some node => some (mapEach f node)
termination_by structural target => target

/-- The same for the fallback of a chain. -/
def mapEachFallback (f : Facets → Facets) : Chain.Fallback Node → Chain.Fallback Node
  | .undefined => .undefined
  | .nothing => .nothing
  | .target node => .target (mapEach f node)
termination_by structural fallback => fallback

end

/-! ## The companions -/

/-- Named nodes are changed one by one, under their names. -/
theorem mapEachNamed_eq (named : List (String × Node)) :
    mapEachNamed f named = Members.mapValues (mapEach f) named := by
  induction named with
  | nil => rfl
  | cons head rest ih =>
      show (head.1, mapEach f head.2) :: mapEachNamed f rest = _
      rw [ih]
      rfl

theorem mapEachMember_eq (members : List Node) :
    mapEachMember f members = members.map (mapEach f) := by
  induction members with
  | nil => rfl
  | cons node rest ih =>
      show mapEach f node :: mapEachMember f rest = _
      rw [ih]
      rfl

theorem mapEachEntry_eq (entries : List (Chain.Entry Node)) :
    mapEachEntry f entries = entries.map (Chain.Entry.map (mapEach f)) := by
  induction entries with
  | nil => rfl
  | cons entry rest ih =>
      obtain ⟨kind, conditions, target, message, throws⟩ := entry
      show ⟨kind, conditions, mapEachTarget f target, message, throws⟩ :: mapEachEntry f rest = _
      rw [ih]
      cases target <;> rfl

theorem mapEachFallback_eq (fallback : Chain.Fallback Node) :
    mapEachFallback f fallback = fallback.map (mapEach f) := by
  cases fallback <;> rfl

/-! ## The forms -/

/-- The equation for objects; the next ones are those for the other nodes. -/
theorem mapEach_object (facets : Facets) (fields : List (String × Node)) :
    mapEach f (.object facets fields)
      = .object (f facets) (Members.mapValues (mapEach f) fields) := by
  rw [← mapEachNamed_eq]
  rfl

theorem mapEach_array (facets : Facets) (items : Option Node) :
    mapEach f (.array facets items) = .array (f facets) (items.map (mapEach f)) := by
  cases items <;> rfl

theorem mapEach_union (facets : Facets) (members : List Node) :
    mapEach f (.union facets members) = .union (f facets) (members.map (mapEach f)) := by
  rw [← mapEachMember_eq]
  rfl

theorem mapEach_matching (facets : Facets) (reference : String) (cases : List (String × Node)) :
    mapEach f (.matching facets reference cases)
      = .matching (f facets) reference (Members.mapValues (mapEach f) cases) := by
  rw [← mapEachNamed_eq]
  rfl

theorem mapEach_switch (facets : Facets) (field : String) (yes : Node) (no : Option Node) :
    mapEach f (.switch facets field yes no)
      = .switch (f facets) field (mapEach f yes) (no.map (mapEach f)) := by
  cases no <;> rfl

theorem mapEach_chain (facets : Facets) (chain : Chain Node) :
    mapEach f (.chain facets chain)
      = .chain (f facets)
          ⟨chain.entries.map (Chain.Entry.map (mapEach f)), chain.fallback.map (mapEach f)⟩ := by
  obtain ⟨entries, fallback⟩ := chain
  rw [← mapEachEntry_eq, ← mapEachFallback_eq]
  rfl

/-! ## What stays -/

/-- A node has the changed facets, whatever kind of node it is. -/
@[simp] theorem facets_mapEach (node : Node) : (mapEach f node).facets = f node.facets := by
  cases node with
  | leaf type facets => rfl
  | object facets fields => rfl
  | array facets items => rw [mapEach_array]; rfl
  | union facets members => rfl
  | matching facets reference cases => rfl
  | switch facets field yes no => rw [mapEach_switch]; rfl
  | chain facets body => rw [mapEach_chain]; rfl

/-- The kind of a node is none of its facets. -/
@[simp] theorem base_mapEach (node : Node) : (mapEach f node).base = node.base := by
  cases node with
  | leaf type facets => rfl
  | object facets fields => rfl
  | array facets items => rw [mapEach_array]; rfl
  | union facets members => rfl
  | matching facets reference cases => rfl
  | switch facets field yes no => rw [mapEach_switch]; rfl
  | chain facets body => rw [mapEach_chain]; rfl

/-- Whether null is a value is read off the forms. -/
@[simp] theorem acceptsNull_mapEach (node : Node) :
    (mapEach f node).acceptsNull = node.acceptsNull := by
  induction node using Node.induction with
  | leaf type facets => rfl
  | object facets fields h => rfl
  | array facets items h => rw [mapEach_array]; rfl
  | union facets members h =>
      rw [mapEach_union]
      show someAcceptsNull (members.map (mapEach f)) = someAcceptsNull members
      rw [someAcceptsNull_eq_any, someAcceptsNull_eq_any, List.map_map]
      exact congrArg (List.any · id) (List.map_congr_left h)
  | matching facets reference cases h => rfl
  | switch facets field yes no hyes hno => rw [mapEach_switch]; rfl
  | chain facets body h => rw [mapEach_chain]; rfl

/-- Which values fit is read off the forms. -/
@[simp] theorem fits_mapEach (value : Json) (node : Node) :
    (mapEach f node).fits value = node.fits value := by
  induction node using Node.induction with
  | leaf type facets => rfl
  | object facets fields h => rfl
  | array facets items h => rw [mapEach_array]; rfl
  | union facets members h =>
      rw [mapEach_union]
      show someFits value (members.map (mapEach f)) = someFits value members
      induction members with
      | nil => rfl
      | cons node rest ih =>
          show ((mapEach f node).fits value || someFits value (rest.map (mapEach f)))
            = (node.fits value || someFits value rest)
          rw [h node List.mem_cons_self, ih fun node hmem => h node (List.mem_cons_of_mem _ hmem)]
  | matching facets reference cases h => rfl
  | switch facets field yes no hyes hno => rw [mapEach_switch]; rfl
  | chain facets body h => rw [mapEach_chain]; rfl

theorem typeTexts_eq_map (members : List Node) : typeTexts members = members.map typeText := by
  induction members with
  | nil => rfl
  | cons node rest ih =>
      show node.typeText :: typeTexts rest = _
      rw [ih]
      rfl

/-- The types that a message lists are read off the forms. -/
@[simp] theorem typeText_mapEach (node : Node) : (mapEach f node).typeText = node.typeText := by
  induction node using Node.induction with
  | leaf type facets => rfl
  | object facets fields h => rfl
  | array facets items h => rw [mapEach_array]; rfl
  | union facets members h =>
      rw [mapEach_union]
      show " | ".intercalate (typeTexts (members.map (mapEach f)))
        = " | ".intercalate (typeTexts members)
      rw [typeTexts_eq_map, typeTexts_eq_map, List.map_map]
      exact congrArg _ (List.map_congr_left h)
  | matching facets reference cases h => rfl
  | switch facets field yes no hyes hno => rw [mapEach_switch]; rfl
  | chain facets body h => rw [mapEach_chain]; rfl

/-- How a node is named in a listing of types is none of its facets either. -/
theorem typeTexts_map_mapEach (members : List Node) :
    typeTexts (members.map (mapEach f)) = typeTexts members := by
  rw [typeTexts_eq_map, typeTexts_eq_map, List.map_map]
  exact List.map_congr_left fun node _ => typeText_mapEach f node

end Conform.Node
