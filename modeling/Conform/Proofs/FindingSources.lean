import Conform.Proofs.Findings
import Conform.Proofs.Slots
import Conform.Proofs.Throughout

/-! # Sources of findings — where findings come from

    What a node finds at a site is put together from what some nodes in it find at
    their sites: the fields of an object, the items of an array, the one member that
    a union settles on, the one target that a branch selects.  These are its PARTS
    there.  A node KEEPS the parts of its parts too, and all that they find is among
    its own findings (`mem_findings_of_keeps`). -/

namespace Conform.Rules

variable {rules : Rules}

/-- The second node, at the second site, is a part of the first at the first. -/
inductive Part (rules : Rules) : Node → Site → Node → Site → Prop
  | field {facets : Facets} {fields : List (String × Node)} {site : Site} {value : Json}
      {name : String} {node : Node}
      (hvalue : (Node.object facets fields).present? site = some value)
      (hfits : BaseType.object.fits value = true) (hmem : (name, node) ∈ fields) :
      Part rules (.object facets fields) site
        node ⟨value.member? name, some value, site.place.key name⟩
  | item {facets : Facets} {node : Node} {site : Site} {value item : Json} {position : Nat}
      (hvalue : (Node.array facets (some node)).present? site = some value)
      (hfits : BaseType.array.fits value = true) (hmem : (item, position) ∈ (itemsOf value).zipIdx) :
      Part rules (.array facets (some node)) site
        node ⟨some item, site.record, site.place.index position⟩
  | agreed {facets : Facets} {members : List Node} {site : Site} {value : Json} {node : Node}
      (hvalue : (Node.union facets members).present? site = some value)
      (hagreed : rules.agreed? members site = some node) :
      Part rules (.union facets members) site node site
  | closest {facets : Facets} {members : List Node} {site : Site} {value : Json} {node : Node}
      (hvalue : (Node.union facets members).present? site = some value)
      (hrefused : rules.agreed? members site = none)
      (hclosest : members.find? (Node.fits value) = some node) :
      Part rules (.union facets members) site node site
  | case {facets : Facets} {reference : String} {cases : List (String × Node)} {site : Site}
      {node : Node} (hpick : pickCase? reference cases site.context = some node) :
      Part rules (.matching facets reference cases) site node site
  | side {facets : Facets} {field : String} {yes : Node} {no : Option Node} {site : Site}
      {node : Node} (hpick : pickSide? field yes no site.context = some node) :
      Part rules (.switch facets field yes no) site node site
  | target {facets : Facets} {chain : Chain Node} {site : Site} {node : Node}
      (hselect : (chain.select site.context).value = .validate node) :
      Part rules (.chain facets chain) site node site

/-- A part of a node, wherever it is checked, is one of the nodes that the node holds. -/
theorem Part.mem_children {node part : Node} {site partSite : Site}
    (h : rules.Part node site part partSite) : part ∈ node.children := by
  cases h with
  | field hvalue hfits hmem => exact List.mem_map_of_mem hmem
  | item hvalue hfits hmem => exact List.mem_cons_self
  | agreed hvalue hagreed => exact List.mem_of_find?_eq_some hagreed
  | closest hvalue hrefused hclosest => exact List.mem_of_find?_eq_some hclosest
  | case hpick =>
      obtain ⟨case, hmem, rfl⟩ := exists_mem_of_mem_pickCase? hpick
      exact List.mem_map_of_mem hmem
  | side hpick =>
      rcases mem_pickSide? hpick with rfl | hno
      · exact List.mem_cons_self
      · exact List.mem_cons_of_mem _ (Option.mem_toList.2 hno)
  | target hselect => exact Chain.mem_targets_of_selectFrom hselect

/-- The second node, at the second site, is the first at the first, or a part of a
    part of it and so on. -/
inductive Keeps (rules : Rules) : Node → Site → Node → Site → Prop
  | here (node : Node) (site : Site) : Keeps rules node site node site
  | step {node part kept : Node} {site partSite keptSite : Site}
      (hpart : Part rules node site part partSite)
      (hkept : Keeps rules part partSite kept keptSite) : Keeps rules node site kept keptSite

/-! ## Findings of parts -/

theorem siteFindings_of_present {node : Node} {inside : Json → List Slot} {site : Site}
    {value : Json} (h : node.present? site = some value) :
    rules.siteFindings node inside site = inside value := by
  unfold siteFindings
  rw [h]

/-- What is found in the parts of a value is among what is found in the value. -/
theorem mem_valueFindings_of_mem_parts {node : Node} {place : Place} {parts : Json → List Slot}
    {value : Json} {slot : Slot} (hfits : node.base.fits value = true)
    (h : slot ∈ parts value) : slot ∈ rules.valueFindings node place parts value := by
  unfold valueFindings
  rw [if_pos hfits]
  exact List.mem_append_left _ (List.mem_append_right _ h)

theorem findings_union_of_present {facets : Facets} {members : List Node} {site : Site}
    {value : Json} (h : (Node.union facets members).present? site = some value) :
    rules.findings (.union facets members) site
      = rules.trialFindings (.union facets members) members site.place value
          (rules.trialAt members site value) := by
  rw [findings_union, siteFindings_of_present h]

/-- **WHAT A PART FINDS IS FOUND** by the node it is a part of. -/
theorem mem_findings_of_part {node part : Node} {site partSite : Site}
    (h : rules.Part node site part partSite) {slot : Slot}
    (hmem : slot ∈ rules.findings part partSite) : slot ∈ rules.findings node site := by
  cases h with
  | field hvalue hfits hfield =>
      show slot ∈ rules.siteFindings _ _ _
      rw [siteFindings_of_present hvalue]
      refine mem_valueFindings_of_mem_parts hfits ?_
      refine List.mem_append_left _ ?_
      rw [fieldFindings_eq_flatMap]
      exact List.mem_flatMap.2 ⟨_, hfield, hmem⟩
  | item hvalue hfits hitem =>
      show slot ∈ rules.siteFindings _ _ _
      rw [siteFindings_of_present hvalue]
      refine mem_valueFindings_of_mem_parts hfits ?_
      exact List.mem_flatMap.2 ⟨_, hitem, hmem⟩
  | agreed hvalue hagreed =>
      rw [findings_union_of_present hvalue, trialAt, hagreed]
      exact List.mem_append_left _ hmem
  | closest hvalue hrefused hclosest =>
      rw [findings_union_of_present hvalue, trialAt, hrefused, hclosest]
      exact hmem
  | case hpick =>
      rw [findings_matching, hpick]
      exact hmem
  | side hpick =>
      rw [findings_switch, hpick]
      exact hmem
  | target hselect =>
      rw [findings_chain, hselect]
      exact hmem

/-- What is found at a kept node is found at the node that keeps it. -/
theorem mem_findings_of_keeps {node kept : Node} {site keptSite : Site}
    (h : rules.Keeps node site kept keptSite) {slot : Slot}
    (hmem : slot ∈ rules.findings kept keptSite) : slot ∈ rules.findings node site := by
  induction h with
  | here node site => exact hmem
  | step hpart hkept ih => exact mem_findings_of_part hpart (ih hmem)

end Conform.Rules
