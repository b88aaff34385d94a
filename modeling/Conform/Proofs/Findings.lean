import Conform.Validation
import Conform.Proofs.Tree

/-! # Findings — what a walk comes to, said without walking

    The walk carries slots along, stops adding once they are full, and runs
    checks that make notes.  What it comes to depends on none of this: at every
    site a node has FINDINGS, a list of slots in the order of the document, which
    a structural recursion over the tree computes with list operations only.

    Main fact: a walk that waits never stops with an error, and it adds the
    findings of the node to the slots it was given (`walk_reports`).  Where the
    first error ends the validation, what is kept of the slots ends with their
    first error (`keep`). -/

namespace Conform

/-- The value that a node checks at a site, if there is one: null counts as absent,
    unless the node accepts it. -/
def Node.present? (node : Node) (site : Site) : Option Json :=
  site.value.filter fun value => !value.isNull || node.acceptsNull

namespace Rules

/-! ## Findings of single steps -/

/-- What a custom check of a node finds: its objection, or that it has to be
    waited for. -/
def customFindings (rules : Rules) (node : Node) (place : Place) (value : Json)
    (custom : Custom) : List Slot :=
  match custom.check with
  | .immediate check =>
      match (check value).value with
      | some text => [.ready (rules.objection node place text)]
      | none => []
  | .suspended check => [.undecided (undecided node place value check)]

/-- What the custom checks of a node find, in order. -/
def allCustomFindings (rules : Rules) (node : Node) (place : Place) (value : Json) : List Slot :=
  node.facets.customs.flatMap (rules.customFindings node place value)

/-- What a node finds in a value that counts as present, where its parts find
    `parts`. -/
def valueFindings (rules : Rules) (node : Node) (place : Place) (parts : Json → List Slot)
    (value : Json) : List Slot :=
  if node.base.fits value then
    (node.ownFaults value).map (fun fault => .ready (rules.broken node place fault))
      ++ parts value
      ++ if (node.ownFaults value).isEmpty then rules.allCustomFindings node place value else []
  else [.ready (rules.wrongType node place)]

/-- What a node finds at a site, where it finds `inside` in a present value. -/
def siteFindings (rules : Rules) (node : Node) (inside : Json → List Slot) (site : Site) :
    List Slot :=
  match node.present? site with
  | some value => inside value
  | none => if node.facets.required then [.ready (rules.missing node site.place)] else []

/-- What is found in the items of a list from a position on. -/
def itemFindings (found : Site → List Slot) (record : Option Json) (place : Place)
    (position : Nat) (items : List Json) : List Slot :=
  (items.zipIdx position).flatMap fun item => found ⟨some item.1, record, place.index item.2⟩

/-- The members of an object that no field names. -/
def unknownFindings (rules : Rules) (fields : List (String × Node)) (members : Members Json)
    (place : Place) : List Slot :=
  if rules.config.allowUnknownFields || fields.isEmpty then []
  else
    ((Members.names members).filter fun name => !Members.hasName fields name).map
      fun name => .ready (rules.unknown (place.key name))

/-- What trying the members of a union comes to, by what each of them finds. -/
def trialOf (value : Json) (tried : List (Node × List Slot)) : Trial :=
  match tried.find? fun one => !hasErrors one.2 with
  | some one => .agreed one.2
  | none => .refused ((tried.find? fun one => one.1.fits value).map Prod.snd)

/-- What a union finds in a value, by what trying its members came to. -/
def trialFindings (rules : Rules) (node : Node) (members : List Node) (place : Place)
    (value : Json) : Trial → List Slot
  | .agreed own => own ++ rules.allCustomFindings node place value
  | .refused (some own) => own
  | .refused none => [.ready (rules.noMember node place members)]

/-- What is found by following a selection. -/
def selectionFindings (rules : Rules) (holder : Option Node) (site : Site) :
    Chain.Selection (Site → List Slot) → List Slot
  | .pass => []
  | .validate found => found site
  | .fail message => [.ready (rules.failing holder site.place message)]

/-! ## Findings of nodes -/

mutual

/-- What a node finds at a site. -/
def findings (rules : Rules) : Node → Site → List Slot
  | .leaf type facets => fun site =>
      let node := Node.leaf type facets
      rules.siteFindings node (rules.valueFindings node site.place fun _ => []) site
  | .object facets fields => fun site =>
      let node := Node.object facets fields
      let parts (value : Json) : List Slot :=
        fieldFindings rules fields value site.place
          ++ rules.unknownFindings fields (membersOf value) site.place
      rules.siteFindings node (rules.valueFindings node site.place parts) site
  | .array facets none => fun site =>
      let node := Node.array facets none
      rules.siteFindings node (rules.valueFindings node site.place fun _ => []) site
  | .array facets (some items) => fun site =>
      let node := Node.array facets (some items)
      let parts (value : Json) : List Slot :=
        itemFindings (findings rules items) site.record site.place 0 (itemsOf value)
      rules.siteFindings node (rules.valueFindings node site.place parts) site
  | .union facets members => fun site =>
      let node := Node.union facets members
      let inside (value : Json) : List Slot :=
        rules.trialFindings node members site.place value
          (trialOf value (memberFindings rules members site))
      rules.siteFindings node inside site
  | .matching _ reference cases =>
      let found := caseFindings rules cases
      fun site => ((pickCase? reference found site.context).map fun one => one site).getD []
  | .switch _ field yes none =>
      let first := findings rules yes
      fun site => ((pickSide? field first none site.context).map fun one => one site).getD []
  | .switch _ field yes (some no) =>
      let first := findings rules yes
      let second := findings rules no
      fun site =>
        ((pickSide? field first (some second) site.context).map fun one => one site).getD []
  | .chain facets ⟨entries, fallback⟩ =>
      let found : Chain (Site → List Slot) := ⟨entryFindings rules entries, fallbackFindings rules fallback⟩
      fun site =>
        rules.selectionFindings (some (.chain facets ⟨entries, fallback⟩)) site
          (found.select site.context).value
termination_by structural node => node

/-- What the fields of an object find in a value, in order. -/
def fieldFindings (rules : Rules) : List (String × Node) → Json → Place → List Slot
  | [], _, _ => []
  | (name, node) :: rest, value, place =>
      findings rules node ⟨value.member? name, some value, place.key name⟩
        ++ fieldFindings rules rest value place
termination_by structural fields => fields

/-- What each of the members of a union finds at a site. -/
def memberFindings (rules : Rules) : List Node → Site → List (Node × List Slot)
  | [], _ => []
  | member :: rest, site => (member, findings rules member site) :: memberFindings rules rest site
termination_by structural members => members

/-- The cases of a branch with what their nodes find. -/
def caseFindings (rules : Rules) : List (String × Node) → List (String × (Site → List Slot))
  | [] => []
  | (key, node) :: rest => (key, findings rules node) :: caseFindings rules rest
termination_by structural cases => cases

/-- The entries of a chain with what their targets find. -/
def entryFindings (rules : Rules) :
    List (Chain.Entry Node) → List (Chain.Entry (Site → List Slot))
  | [] => []
  | ⟨kind, conditions, target, message, throws⟩ :: rest =>
      ⟨kind, conditions, targetFindings rules target, message, throws⟩ :: entryFindings rules rest
termination_by structural entries => entries

/-- What the target of an entry finds, if it has one. -/
def targetFindings (rules : Rules) : Option Node → Option (Site → List Slot)
  | none => none
  | some node => some (findings rules node)
termination_by structural target => target

/-- The fallback of a chain with what its target finds. -/
def fallbackFindings (rules : Rules) : Chain.Fallback Node → Chain.Fallback (Site → List Slot)
  | .undefined => .undefined
  | .nothing => .nothing
  | .target node => .target (findings rules node)
termination_by structural fallback => fallback

end

/-! ## Findings of the forms -/

variable (rules : Rules)

/-- The findings in fields come field by field. -/
theorem fieldFindings_eq_flatMap (fields : List (String × Node)) (value : Json) (place : Place) :
    rules.fieldFindings fields value place
      = fields.flatMap fun field =>
          rules.findings field.2 ⟨value.member? field.1, some value, place.key field.1⟩ := by
  induction fields with
  | nil => rfl
  | cons field rest ih =>
      rw [List.flatMap_cons, ← ih]
      rfl

/-- Each member of a union has its own findings at the same site. -/
theorem memberFindings_eq_map (members : List Node) (site : Site) :
    rules.memberFindings members site
      = members.map fun member => (member, rules.findings member site) := by
  induction members with
  | nil => rfl
  | cons member rest ih =>
      rw [List.map_cons, ← ih]
      rfl

/-- The first member without errors, if there is one. -/
def agreed? (members : List Node) (site : Site) : Option Node :=
  members.find? fun member => !hasErrors (rules.findings member site)

/-- What trying the members at a site comes to. -/
def trialAt (members : List Node) (site : Site) (value : Json) : Trial :=
  match rules.agreed? members site with
  | some member => .agreed (rules.findings member site)
  | none =>
      .refused ((members.find? (Node.fits value)).map fun member => rules.findings member site)

/-- Trying members by their findings is trying them in the walk. -/
theorem trialOf_memberFindings (members : List Node) (site : Site) (value : Json) :
    trialOf value (rules.memberFindings members site) = rules.trialAt members site value := by
  have hagreed : ((members.map fun member => (member, rules.findings member site)).find?
        fun one => !hasErrors one.2)
      = (rules.agreed? members site).map fun member => (member, rules.findings member site) := by
    rw [List.find?_map]
    rfl
  unfold trialOf trialAt
  rw [memberFindings_eq_map, hagreed, List.find?_map, Option.map_map]
  cases rules.agreed? members site <;> rfl

theorem findings_union (facets : Facets) (members : List Node) (site : Site) :
    rules.findings (.union facets members) site
      = rules.siteFindings (.union facets members)
          (fun value => rules.trialFindings (.union facets members) members site.place value
            (rules.trialAt members site value)) site := by
  simp only [← trialOf_memberFindings]
  rfl

/-- Cases are looked at under their names. -/
theorem caseFindings_eq_mapValues (cases : List (String × Node)) :
    rules.caseFindings cases = Members.mapValues rules.findings cases := by
  induction cases with
  | nil => rfl
  | cons case rest ih =>
      show (case.1, rules.findings case.2) :: rules.caseFindings rest = _
      rw [ih]
      rfl

/-- A branch finds what the selected node finds. -/
theorem findings_matching (facets : Facets) (reference : String) (cases : List (String × Node))
    (site : Site) :
    rules.findings (.matching facets reference cases) site
      = ((pickCase? reference cases site.context).map fun node => rules.findings node site).getD [] := by
  show ((pickCase? reference (rules.caseFindings cases) site.context).map fun one => one site).getD []
    = _
  rw [caseFindings_eq_mapValues, pickCase?_map, Option.map_map]
  rfl

/-- A switch finds what the side finds that it picks. -/
theorem findings_switch (facets : Facets) (field : String) (yes : Node) (no : Option Node)
    (site : Site) :
    rules.findings (.switch facets field yes no) site
      = ((pickSide? field yes no site.context).map fun node => rules.findings node site).getD [] := by
  have hpick : ((pickSide? field (rules.findings yes) (no.map rules.findings) site.context).map
        fun one => one site).getD []
      = ((pickSide? field yes no site.context).map fun node => rules.findings node site).getD [] := by
    rw [pickSide?_map, Option.map_map]
    rfl
  cases no with
  | none => exact hpick
  | some no => exact hpick

/-- The entries of a chain find what their targets find. -/
theorem entryFindings_eq_map (entries : List (Chain.Entry Node)) :
    rules.entryFindings entries = entries.map (Chain.Entry.map rules.findings) := by
  induction entries with
  | nil => rfl
  | cons entry rest ih =>
      obtain ⟨kind, conditions, target, message, throws⟩ := entry
      show ⟨kind, conditions, rules.targetFindings target, message, throws⟩
        :: rules.entryFindings rest = _
      rw [ih]
      cases target <;> rfl

theorem fallbackFindings_eq_map (fallback : Chain.Fallback Node) :
    rules.fallbackFindings fallback = fallback.map rules.findings := by
  cases fallback <;> rfl

/-- Selecting with changed targets changes what is selected. -/
theorem value_select_map {α β : Type} (f : α → β) (chain : Chain α) (data : Json) :
    (Chain.select ⟨chain.entries.map (Chain.Entry.map f), chain.fallback.map f⟩ data).value
      = (chain.select data).value.map f := by
  unfold Chain.select
  rw [Chain.selectFrom_map]
  rfl

theorem findings_chain (facets : Facets) (chain : Chain Node) (site : Site) :
    rules.findings (.chain facets chain) site
      = rules.selectionFindings (some (.chain facets chain)) site
          ((chain.select site.context).value.map rules.findings) := by
  obtain ⟨entries, fallback⟩ := chain
  rw [← value_select_map, ← entryFindings_eq_map, ← fallbackFindings_eq_map]
  rfl

end Rules

end Conform
