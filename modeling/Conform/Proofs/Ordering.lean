import Conform.Proofs.EarlyEnd
import Conform.Proofs.FindingSources

/-! # Ordering — findings in the order of the document

    What a node finds at a site stands in one order, whatever its form.  It OPENS
    with what it finds by itself: its value is missing, is of another type, or breaks
    checks of the node's own.  What its parts find comes next, one part after the
    other.  It CLOSES with the members that no field names and with its custom
    checks, which are asked only where the own checks pass.

    Main facts: this order is that of the findings (`findings_eq`), so whatever a node
    keeps finds a stretch of them (`infix_of_keeps`), and every slot is in the opening
    or the closing of a node that is kept (`exists_keeps_of_mem_findings`).  A report
    names what some of the findings come to, in the same order
    (`exists_sublist_of_report`). -/

namespace Conform

namespace Chain.Selection

variable {α : Type}

/-- What is handed over, if anything is. -/
def target? : Selection α → Option α
  | .validate node => some node
  | _ => none

/-- The message of a failure, if it is one. -/
def message? : Selection α → Option String
  | .fail message => some message
  | _ => none

/-- Only a selection that leads to a target has one. -/
theorem eq_validate_of_target? {selection : Selection α} {node : α}
    (h : selection.target? = some node) : selection = .validate node := by
  cases selection with
  | validate found => rw [Option.some.inj h]
  | fail message => exact nomatch h
  | pass => exact nomatch h

end Chain.Selection

/-- The names of the fields of an object. -/
def Node.fieldNames : Node → List String
  | .object _ fields => Members.names fields
  | _ => []

namespace Slot

/-- The text of the place that a slot names. -/
def place : Slot → String
  | .ready error => error.place
  | .undecided check => check.place

/-- The keyword of a slot; what is undecided is a custom check. -/
def keyword : Slot → String
  | .ready error => error.keyword
  | .undecided _ => "custom"

end Slot

namespace Rules

variable {rules : Rules}

/-! ## The three stretches -/

/-- What a node finds by itself before its parts. -/
def opening (rules : Rules) (node : Node) (site : Site) : List Slot :=
  match node with
  | .union _ members =>
      rules.siteFindings node (fun value =>
        if (rules.agreed? members site).isNone && (members.find? (Node.fits value)).isNone then
          [.ready (rules.noMember node site.place members)]
        else []) site
  | .matching _ _ _ => []
  | .switch _ _ _ _ => []
  | .chain _ body =>
      (body.select site.context).value.message?.toList.map fun message =>
        .ready (rules.failing (some node) site.place message)
  | _ =>
      rules.siteFindings node (fun value =>
        if node.base.fits value then
          (node.ownFaults value).map fun fault => .ready (rules.broken node site.place fault)
        else [.ready (rules.wrongType node site.place)]) site

/-- The member that a union settles on: the first without errors, or else the first
    whose type fits. -/
def keptMember? (rules : Rules) (members : List Node) (site : Site) (value : Json) : Option Node :=
  (rules.agreed? members site).or (members.find? (Node.fits value))

/-- The fields or items of a value that a node has checks for, in the order of their
    declaration or of their indices. -/
def within (node : Node) (site : Site) (value : Json) : List (Node × Site) :=
  match node with
  | .object _ fields =>
      fields.map fun field =>
        (field.2, ⟨value.member? field.1, some value, site.place.key field.1⟩)
  | .array _ items =>
      items.toList.flatMap fun child =>
        (itemsOf value).zipIdx.map fun item =>
          (child, ⟨some item.1, site.record, site.place.index item.2⟩)
  | _ => []

/-- The parts whose findings count, in the order of the document: the fields or items of a
    value, the member that a union settles on, the target that a branch selects. -/
def parts (rules : Rules) (node : Node) (site : Site) : List (Node × Site) :=
  match node with
  | .union _ members =>
      (node.present? site).toList.flatMap fun value =>
        (rules.keptMember? members site value).toList.map fun member => (member, site)
  | .matching _ reference cases =>
      (pickCase? reference cases site.context).toList.map fun target => (target, site)
  | .switch _ field yes no =>
      (pickSide? field yes no site.context).toList.map fun target => (target, site)
  | .chain _ body =>
      (body.select site.context).value.target?.toList.map fun target => (target, site)
  | _ =>
      (node.present? site).toList.flatMap fun value =>
        if node.base.fits value then within node site value else []

/-- Whether a value passes the checks of a node's own.  For a union it is enough that a
    member agrees; a branch has no checks of its own. -/
def passes (rules : Rules) (node : Node) (site : Site) (value : Json) : Bool :=
  match node with
  | .union _ members => (rules.agreed? members site).isSome
  | .matching _ _ _ => false
  | .switch _ _ _ _ => false
  | .chain _ _ => false
  | _ => node.base.fits value && (node.ownFaults value).isEmpty

/-- The members of a value that no field of the node names. -/
def unknownAt (rules : Rules) (node : Node) (site : Site) (value : Json) : List Slot :=
  match node with
  | .object _ fields => rules.unknownFindings fields (membersOf value) site.place
  | _ => []

/-- What a node finds by itself after its parts. -/
def closing (rules : Rules) (node : Node) (site : Site) : List Slot :=
  (node.present? site).toList.flatMap fun value =>
    rules.unknownAt node site value
      ++ if rules.passes node site value then rules.allCustomFindings node site.place value else []

/-! ## The order -/

/-- A value that is no object has no unknown members. -/
theorem unknownFindings_of_not_fits {fields : List (String × Node)} {value : Json} {place : Place}
    (h : BaseType.object.fits value = false) :
    rules.unknownFindings fields (membersOf value) place = [] := by
  have hnone : membersOf value = [] := by
    cases value with
    | object members => exact nomatch h
    | null => rfl
    | bool b => rfl
    | integer n => rfl
    | float x => rfl
    | string text => rfl
    | array items => rfl
  unfold unknownFindings
  rw [hnone]
  split <;> rfl

/-- The findings of a union: those of the member it settles on, or that there is none, and
    then its custom checks if a member agreed. -/
theorem trialFindings_eq (node : Node) (members : List Node) (site : Site) (value : Json) :
    rules.trialFindings node members site.place value (rules.trialAt members site value)
      = (if (rules.agreed? members site).isNone && (members.find? (Node.fits value)).isNone then
            [.ready (rules.noMember node site.place members)]
          else [])
        ++ (((rules.keptMember? members site value).toList.map fun member => (member, site)).flatMap
            fun part => rules.findings part.1 part.2)
        ++ if (rules.agreed? members site).isSome then
            rules.allCustomFindings node site.place value else [] := by
  unfold trialAt keptMember?
  cases rules.agreed? members site with
  | some member =>
      show _ = [] ++ (rules.findings member site ++ []) ++ _
      rw [List.append_nil]
      rfl
  | none =>
      cases members.find? (Node.fits value) with
      | some member => exact (List.append_nil _).symm.trans (List.append_nil _).symm
      | none => rfl

theorem flatMap_picked (picked : Option Node) (site : Site) :
    ((picked.toList.map fun target => (target, site)).flatMap fun part =>
        rules.findings part.1 part.2)
      = (picked.map fun node => rules.findings node site).getD [] := by
  cases picked with
  | none => rfl
  | some node => exact List.append_nil _

/-- What is found at a site where the value is absent, or else in the value, in three
    stretches. -/
theorem siteFindings_eq (node : Node) (site : Site) {inside first last : Json → List Slot}
    {middle : Json → List (Node × Site)}
    (h : ∀ value, inside value
      = first value ++ ((middle value).flatMap fun part => rules.findings part.1 part.2) ++ last value) :
    rules.siteFindings node inside site
      = rules.siteFindings node first site
        ++ (((node.present? site).toList.flatMap middle).flatMap fun part =>
            rules.findings part.1 part.2)
        ++ (node.present? site).toList.flatMap last := by
  unfold siteFindings
  cases node.present? site with
  | none =>
      exact ((List.append_nil _).trans (List.append_nil _)).symm
  | some value =>
      dsimp only [Option.toList_some]
      rw [List.flatMap_singleton, List.flatMap_singleton]
      exact h value

/-- So it is with a leaf, an object or an array, where `found` is what the parts of a value
    find, and `late` what is left of it then. -/
theorem checkedFindings_eq (node : Node) (site : Site) {found : Json → List Slot}
    (late : Json → List Slot)
    (hfound : ∀ value, found value
      = ((within node site value).flatMap fun part => rules.findings part.1 part.2) ++ late value)
    (hlate : ∀ value, node.base.fits value = false → late value = []) :
    rules.siteFindings node (rules.valueFindings node site.place found) site
      = rules.siteFindings node (fun value =>
          if node.base.fits value then
            (node.ownFaults value).map fun fault => .ready (rules.broken node site.place fault)
          else [.ready (rules.wrongType node site.place)]) site
        ++ (((node.present? site).toList.flatMap fun value =>
            if node.base.fits value then within node site value else []).flatMap fun part =>
              rules.findings part.1 part.2)
        ++ (node.present? site).toList.flatMap fun value =>
            late value ++ if node.base.fits value && (node.ownFaults value).isEmpty then
              rules.allCustomFindings node site.place value else [] := by
  refine siteFindings_eq node site fun value => ?_
  unfold valueFindings
  by_cases hfits : node.base.fits value = true
  · rw [if_pos hfits, if_pos hfits, if_pos hfits, hfits, Bool.true_and, hfound]
    simp only [List.append_assoc]
  · have hnot := Bool.eq_false_iff.2 hfits
    rw [if_neg hfits, if_neg hfits, if_neg hfits, hlate value hnot, hnot]
    rfl

/-- A branch finds nothing after what its target finds. -/
theorem closing_of_passes_eq_false {node : Node} {site : Site}
    (hunknown : ∀ value, rules.unknownAt node site value = [])
    (hpasses : ∀ value, rules.passes node site value = false) : rules.closing node site = [] := by
  unfold closing
  rw [List.flatMap_eq_nil_iff]
  intro value _
  rw [hunknown, hpasses]
  rfl

/-- **THE FINDINGS OF A NODE STAND IN THE ORDER OF THE DOCUMENT**: its opening, then what
    each of its parts finds, then its closing. -/
theorem findings_eq (node : Node) (site : Site) :
    rules.findings node site
      = rules.opening node site
        ++ ((rules.parts node site).flatMap fun part => rules.findings part.1 part.2)
        ++ rules.closing node site := by
  -- checked nodes look into their value, and branches into the target at the same site
  cases node with
  | leaf type facets =>
      exact checkedFindings_eq (.leaf type facets) site (fun _ => []) (fun _ => rfl)
        fun _ _ => rfl
  | object facets fields =>
      refine checkedFindings_eq (.object facets fields) site
        (fun value => rules.unknownFindings fields (membersOf value) site.place) (fun value => ?_)
        fun _ => unknownFindings_of_not_fits
      rw [fieldFindings_eq_flatMap, within, List.flatMap_map]
  | array facets items =>
      cases items with
      | none =>
          exact checkedFindings_eq (.array facets none) site (fun _ => []) (fun _ => rfl)
            fun _ _ => rfl
      | some child =>
          refine checkedFindings_eq (.array facets (some child)) site (fun _ => [])
            (fun value => ?_) fun _ _ => rfl
          rw [List.append_nil, within, Option.toList_some, List.flatMap_singleton, List.flatMap_map]
          rfl
  | union facets members =>
      rw [findings_union]
      exact siteFindings_eq _ site fun value => trialFindings_eq _ members site value
  | matching facets reference cases =>
      rw [findings_matching, ← flatMap_picked,
        closing_of_passes_eq_false (fun _ => rfl) (fun _ => rfl), List.append_nil]
      rfl
  | switch facets field yes no =>
      rw [findings_switch, ← flatMap_picked,
        closing_of_passes_eq_false (fun _ => rfl) (fun _ => rfl), List.append_nil]
      rfl
  | chain facets body =>
      rw [findings_chain, closing_of_passes_eq_false (fun _ => rfl) (fun _ => rfl), List.append_nil]
      show _ = List.map _ _ ++ List.flatMap _ (List.map _ _)
      rw [flatMap_picked]
      cases (body.select site.context).value <;> rfl

/-! ## What an opening is -/

/-- What a node may open with: nothing, one error, or the own checks that a value breaks. -/
inductive Opens (rules : Rules) (node : Node) (site : Site) : List Slot → Prop
  | nothing : Opens rules node site []
  | missing (habsent : node.present? site = none) :
      Opens rules node site [.ready (rules.missing node site.place)]
  | wrongType {value : Json} (hvalue : node.present? site = some value) :
      Opens rules node site [.ready (rules.wrongType node site.place)]
  | noMember {value : Json} (hvalue : node.present? site = some value) (members : List Node) :
      Opens rules node site [.ready (rules.noMember node site.place members)]
  | broken {value : Json} (hvalue : node.present? site = some value) :
      Opens rules node site
        ((node.ownFaults value).map fun fault => .ready (rules.broken node site.place fault))
  | failing (message : String) :
      Opens rules node site [.ready (rules.failing (some node) site.place message)]

/-- What is found where the value is absent, or else in the value. -/
theorem opens_siteFindings {node : Node} {site : Site} {inside : Json → List Slot}
    (h : ∀ value, node.present? site = some value → rules.Opens node site (inside value)) :
    rules.Opens node site (rules.siteFindings node inside site) := by
  unfold siteFindings
  cases hpresent : node.present? site with
  | some value => exact h value hpresent
  | none =>
      dsimp only
      split
      · exact .missing hpresent
      · exact .nothing

/-- What comes first at a checked value are the faults of the node, or the wrong type. -/
theorem opens_checked (node : Node) (site : Site) :
    rules.Opens node site (rules.siteFindings node (fun value =>
      if node.base.fits value then
        (node.ownFaults value).map fun fault => .ready (rules.broken node site.place fault)
      else [.ready (rules.wrongType node site.place)]) site) := by
  refine opens_siteFindings fun value hpresent => ?_
  split
  · exact .broken hpresent
  · exact .wrongType hpresent

/-- **A NODE OPENS** in one of these ways. -/
theorem opens_opening (node : Node) (site : Site) :
    rules.Opens node site (rules.opening node site) := by
  cases node with
  | leaf type facets => exact opens_checked _ site
  | object facets fields => exact opens_checked _ site
  | array facets items => exact opens_checked _ site
  | union facets members =>
      refine opens_siteFindings fun value hpresent => ?_
      split
      · exact .noMember hpresent members
      · exact .nothing
  | matching facets reference cases => exact .nothing
  | switch facets field yes no => exact .nothing
  | chain facets body =>
      show rules.Opens _ site ((body.select site.context).value.message?.toList.map _)
      cases (body.select site.context).value.message? with
      | some message => exact .failing message
      | none => exact .nothing

/-- The errors that a node may open with. -/
inductive OpeningError (rules : Rules) (node : Node) (site : Site) : FieldError → Prop
  | missing (habsent : node.present? site = none) :
      OpeningError rules node site (rules.missing node site.place)
  | wrongType {value : Json} (hvalue : node.present? site = some value) :
      OpeningError rules node site (rules.wrongType node site.place)
  | noMember {value : Json} (hvalue : node.present? site = some value) (members : List Node) :
      OpeningError rules node site (rules.noMember node site.place members)
  | broken {value : Json} {fault : OwnFault} (hvalue : node.present? site = some value)
      (hfault : fault ∈ node.ownFaults value) :
      OpeningError rules node site (rules.broken node site.place fault)
  | failing (message : String) :
      OpeningError rules node site (rules.failing (some node) site.place message)

/-- What opens is one of these errors. -/
theorem exists_openingError {node : Node} {site : Site} {slot : Slot}
    (h : slot ∈ rules.opening node site) :
    ∃ error, slot = .ready error ∧ rules.OpeningError node site error := by
  have hopens : rules.Opens node site (rules.opening node site) := opens_opening node site
  generalize rules.opening node site = opening at h hopens
  cases hopens with
  | nothing => exact nomatch h
  | missing habsent => exact ⟨_, List.mem_singleton.1 h, .missing habsent⟩
  | wrongType hvalue => exact ⟨_, List.mem_singleton.1 h, .wrongType hvalue⟩
  | noMember hvalue members => exact ⟨_, List.mem_singleton.1 h, .noMember hvalue members⟩
  | broken hvalue =>
      obtain ⟨fault, hfault, rfl⟩ := List.mem_map.1 h
      exact ⟨_, rfl, .broken hvalue hfault⟩
  | failing message => exact ⟨_, List.mem_singleton.1 h, .failing message⟩

/-- Nothing in an opening has to be waited for. -/
theorem isReady_of_mem_opening {node : Node} {site : Site} {slot : Slot}
    (h : slot ∈ rules.opening node site) : slot.isReady = true := by
  obtain ⟨error, rfl, -⟩ := exists_openingError h
  rfl

/-! ## What a closing is -/

/-- The errors about members without a field are one for each such name. -/
theorem unknownAt_eq_nil_or (rules : Rules) (node : Node) (site : Site) (value : Json) :
    rules.unknownAt node site value = []
      ∨ rules.unknownAt node site value
        = ((Members.names (membersOf value)).filter fun name => !node.fieldNames.contains name).map
            fun name => .ready (rules.unknown (site.place.key name)) := by
  cases node with
  | object facets fields =>
      unfold unknownAt unknownFindings
      dsimp only
      split
      · exact .inl rfl
      · refine .inr (congrArg _ (List.filter_congr fun name _ => ?_))
        congr 1
        rw [Bool.eq_iff_iff, Members.hasName_iff_mem_names, List.contains_iff_mem]
        rfl
  | _ => exact .inl rfl

/-- Custom checks are named at the place of their node. -/
theorem place_keyword_of_mem_customs {node : Node} {place : Place} {value : Json} {slot : Slot}
    (h : slot ∈ rules.allCustomFindings node place value) :
    slot.place = place.text ∧ slot.keyword = "custom" := by
  obtain ⟨custom, -, hslot⟩ := List.mem_flatMap.1 h
  unfold customFindings at hslot
  split at hslot
  · split at hslot
    · obtain rfl := List.mem_singleton.1 hslot
      exact ⟨rfl, rfl⟩
    · exact nomatch hslot
  · obtain rfl := List.mem_singleton.1 hslot
    exact ⟨rfl, rfl⟩

/-- **A NODE CLOSES** with members that no field names and with its custom checks. -/
theorem mem_closing {node : Node} {site : Site} {slot : Slot} (h : slot ∈ rules.closing node site) :
    ∃ value, node.present? site = some value
      ∧ ((∃ name ∈ Members.names (membersOf value), name ∉ node.fieldNames
            ∧ slot = .ready (rules.unknown (site.place.key name)))
          ∨ (rules.passes node site value = true
            ∧ slot ∈ rules.allCustomFindings node site.place value)) := by
  obtain ⟨value, hpresent, hslot⟩ := List.mem_flatMap.1 h
  refine ⟨value, Option.mem_toList.1 hpresent, ?_⟩
  rcases List.mem_append.1 hslot with hunknown | hcustoms
  · rcases rules.unknownAt_eq_nil_or node site value with hnone | hsome
    · rw [hnone] at hunknown
      exact nomatch hunknown
    · rw [hsome] at hunknown
      obtain ⟨name, hname, rfl⟩ := List.mem_map.1 hunknown
      obtain ⟨hmem, hfree⟩ := List.mem_filter.1 hname
      rw [Bool.not_eq_true', ← Bool.not_eq_true, List.contains_iff_mem] at hfree
      exact .inl ⟨name, hmem, hfree, rfl⟩
  · split at hcustoms
    · next hpasses => exact .inr ⟨hpasses, hcustoms⟩
    · exact nomatch hcustoms

/-! ## Parts, and what is kept -/

/-- The parts in the list are the parts of the node. -/
theorem part_of_mem_parts {node : Node} {site : Site} {part : Node × Site}
    (h : part ∈ rules.parts node site) : rules.Part node site part.1 part.2 := by
  cases node with
  | leaf type facets =>
      obtain ⟨value, -, hpart⟩ := List.mem_flatMap.1 h
      rw [show within (.leaf type facets) site value = [] from rfl, ite_self] at hpart
      exact nomatch hpart
  | object facets fields =>
      obtain ⟨value, hvalue, hpart⟩ := List.mem_flatMap.1 h
      by_cases hfits : (Node.object facets fields).base.fits value = true
      · rw [if_pos hfits] at hpart
        obtain ⟨field, hmem, rfl⟩ := List.mem_map.1 hpart
        exact .field (Option.mem_toList.1 hvalue) hfits hmem
      · rw [if_neg hfits] at hpart
        exact nomatch hpart
  | array facets items =>
      obtain ⟨value, hvalue, hpart⟩ := List.mem_flatMap.1 h
      by_cases hfits : (Node.array facets items).base.fits value = true
      · rw [if_pos hfits] at hpart
        obtain ⟨child, hchild, hitem⟩ := List.mem_flatMap.1 hpart
        obtain rfl : items = some child := Option.mem_toList.1 hchild
        obtain ⟨item, hmem, rfl⟩ := List.mem_map.1 hitem
        exact .item (Option.mem_toList.1 hvalue) hfits hmem
      · rw [if_neg hfits] at hpart
        exact nomatch hpart
  | union facets members =>
      obtain ⟨value, hvalue, hpart⟩ := List.mem_flatMap.1 h
      obtain ⟨member, hmember, rfl⟩ := List.mem_map.1 hpart
      have hkept : rules.keptMember? members site value = some member := Option.mem_toList.1 hmember
      unfold keptMember? at hkept
      cases ha : rules.agreed? members site with
      | some agreed =>
          rw [ha] at hkept
          obtain rfl : agreed = member := Option.some.inj hkept
          exact .agreed (Option.mem_toList.1 hvalue) ha
      | none =>
          rw [ha] at hkept
          exact .closest (Option.mem_toList.1 hvalue) ha hkept
  | matching facets reference cases =>
      obtain ⟨target, htarget, rfl⟩ := List.mem_map.1 h
      exact .case (Option.mem_toList.1 htarget)
  | switch facets field yes no =>
      obtain ⟨target, htarget, rfl⟩ := List.mem_map.1 h
      exact .side (Option.mem_toList.1 htarget)
  | chain facets body =>
      obtain ⟨target, htarget, rfl⟩ := List.mem_map.1 h
      exact .target (Chain.Selection.eq_validate_of_target? (Option.mem_toList.1 htarget))

/-- Every part of a node is listed among its parts. -/
theorem mem_parts_of_part {node part : Node} {site partSite : Site}
    (h : rules.Part node site part partSite) : (part, partSite) ∈ rules.parts node site := by
  cases h with
  | @field facets fields _ value _ _ hvalue hfits hmem =>
      have hbase : (Node.object facets fields).base.fits value = true := hfits
      refine List.mem_flatMap.2 ⟨_, Option.mem_toList.2 hvalue, ?_⟩
      rw [if_pos hbase]
      exact List.mem_map.2 ⟨_, hmem, rfl⟩
  | @item facets _ _ value _ _ hvalue hfits hmem =>
      have hbase : (Node.array facets (some part)).base.fits value = true := hfits
      refine List.mem_flatMap.2 ⟨_, Option.mem_toList.2 hvalue, ?_⟩
      rw [if_pos hbase]
      exact List.mem_flatMap.2 ⟨_, Option.mem_toList.2 rfl, List.mem_map.2 ⟨_, hmem, rfl⟩⟩
  | agreed hvalue hagreed =>
      refine List.mem_flatMap.2 ⟨_, Option.mem_toList.2 hvalue, ?_⟩
      rw [keptMember?, hagreed]
      exact List.mem_cons_self
  | closest hvalue hrefused hclosest =>
      refine List.mem_flatMap.2 ⟨_, Option.mem_toList.2 hvalue, ?_⟩
      rw [keptMember?, hrefused, Option.none_or, hclosest]
      exact List.mem_cons_self
  | case hpick => exact List.mem_map.2 ⟨_, Option.mem_toList.2 hpick, rfl⟩
  | side hpick => exact List.mem_map.2 ⟨_, Option.mem_toList.2 hpick, rfl⟩
  | target hselect =>
      refine List.mem_map.2 ⟨_, Option.mem_toList.2 ?_, rfl⟩
      rw [hselect]
      rfl

/-- What a part finds is a stretch of what the node finds. -/
theorem infix_of_part {node part : Node} {site partSite : Site}
    (h : rules.Part node site part partSite) :
    rules.findings part partSite <:+: rules.findings node site := by
  obtain ⟨before, after, hparts⟩ := List.append_of_mem (mem_parts_of_part h)
  rw [findings_eq node site, hparts, List.flatMap_append, List.flatMap_cons]
  exact ⟨rules.opening node site ++ before.flatMap fun part => rules.findings part.1 part.2,
    (after.flatMap fun part => rules.findings part.1 part.2) ++ rules.closing node site, by
      simp only [List.append_assoc]⟩

/-- **WHAT A KEPT NODE FINDS IS A STRETCH** of the findings. -/
theorem infix_of_keeps {node kept : Node} {site keptSite : Site}
    (h : rules.Keeps node site kept keptSite) :
    rules.findings kept keptSite <:+: rules.findings node site := by
  induction h with
  | here node site => exact List.infix_refl _
  | step hpart hkept ih => exact ih.trans (infix_of_part hpart)

/-- **EVERY SLOT IS OPENED OR CLOSED BY A KEPT NODE.** -/
theorem exists_keeps_of_mem_findings {node : Node} {slot : Slot} :
    ∀ {site}, slot ∈ rules.findings node site →
      ∃ kept keptSite, rules.Keeps node site kept keptSite
        ∧ (slot ∈ rules.opening kept keptSite ∨ slot ∈ rules.closing kept keptSite) := by
  induction node using Node.induction_children with
  | step node ih =>
      intro site h
      rw [findings_eq, List.mem_append, List.mem_append] at h
      rcases h with (hopening | hpart) | hclosing
      · exact ⟨node, site, .here node site, .inl hopening⟩
      · obtain ⟨part, hmem, hslot⟩ := List.mem_flatMap.1 hpart
        have hpart := part_of_mem_parts hmem
        obtain ⟨kept, keptSite, hkept, hslot⟩ := ih part.1 hpart.mem_children hslot
        exact ⟨kept, keptSite, .step hpart hkept, hslot⟩
      · exact ⟨node, site, .here node site, .inr hclosing⟩

/-! ## Reports -/

/-- A slot comes to an error of its place and keyword. -/
theorem place_keyword_of_outcome? {slot : Slot} {error : FieldError}
    (h : rules.outcome? slot = some error) :
    error.place = slot.place ∧ error.keyword = slot.keyword := by
  cases slot with
  | ready found =>
      obtain rfl := Option.some.inj h
      exact ⟨rfl, rfl⟩
  | undecided check =>
      obtain ⟨text, -, rfl⟩ := Option.map_eq_some_iff.1 h
      exact ⟨rfl, rfl⟩

/-- Stopping early leaves a part of the list, in order. -/
theorem upTo_sublist {α : Type} (p : α → Bool) (l : List α) : (upTo p l).Sublist l := by
  induction l with
  | nil => exact List.Sublist.refl _
  | cons a rest ih =>
      rw [upTo]
      split
      · exact List.Sublist.cons_cons a (List.nil_sublist rest)
      · exact ih.cons_cons a

/-- What is kept is in the order of what was found. -/
theorem keep_sublist (slots : List Slot) : (rules.keep slots).Sublist slots := by
  unfold keep
  split
  · exact upTo_sublist _ slots
  · exact List.Sublist.refl _

/-- What is decided on is in the order of what was found. -/
theorem decided_sublist (slots : List Slot) : (rules.decided slots).Sublist slots := by
  unfold decided
  split
  · exact upTo_sublist _ slots
  · exact List.Sublist.refl _

/-- Errors come to themselves. -/
theorem readyErrors_eq_outcomes (slots : List Slot) :
    readyErrors slots = (slots.filter Slot.isReady).filterMap rules.outcome? := by
  have herror : Slot.error? = fun slot => if slot.isReady then rules.outcome? slot else none := by
    funext slot
    cases slot <;> rfl
  rw [readyErrors, List.filterMap_filter, herror]

/-- **A REPORT NAMES WHAT SOME OF THE FINDINGS COME TO**, in the order of the document. -/
theorem exists_sublist_of_report {node : Node} {value : Json} {report : Report}
    (h : (rules.validate node value).value = .ok report
      ∨ (rules.validateWaiting node value).value = .ok report) :
    ∃ slots : List Slot, slots.Sublist (rules.findings node (.root value))
      ∧ report.errors = slots.filterMap rules.outcome? := by
  rcases h with hnow | hlater
  · cases hs : node.firstSuspended? .root with
    | some place =>
        rw [value_validate_of_suspended rules value hs] at hnow
        exact nomatch hnow
    | none =>
        rw [value_validate_of_immediate rules value hs] at hnow
        obtain rfl := Except.ok.inj hnow
        exact ⟨_, List.filter_sublist.trans (keep_sublist _), readyErrors_eq_outcomes _⟩
  · rw [validateWaiting_eq] at hlater
    obtain rfl := Except.ok.inj hlater
    exact ⟨_, decided_sublist _, rfl⟩

end Rules

end Conform
