import Mathlib.Data.List.Basic
import Mathlib.Data.List.Find
import Conform.Proofs.Settling
import Conform.Proofs.TreeSources

/-! # Complaints — what a tree has against a value, wherever the value is

    A tree is LOCAL if it has no branch and no suspended check.  What a local tree has
    against a value depends on the value alone: not on the record around it, not on the
    place, and not on what was found before.  So it is a list of COMPLAINTS, each with
    its place as seen from the value, and a structural recursion over the tree gives it
    (`complaints`).

    Main fact: at every site the findings of a local tree are its complaints about the
    value there, seen from the root (`shows_findings`).  The wording is left out; it has
    the place in it. -/

namespace Conform

/-! ## Complaints -/

/-- The place seen from around, where `outer` leads to what it is in. -/
def Place.below (outer inner : Place) : Place := ⟨outer.steps ++ inner.steps⟩

theorem Place.below_root (place : Place) : place.below .root = place := by
  rw [below, show Place.root.steps = [] from rfl, List.append_nil]

theorem Place.below_below (outer middle inner : Place) :
    (outer.below middle).below inner = outer.below (middle.below inner) := by
  simp only [below, List.append_assoc]

/-- What is wrong with a value, with the place as seen from the value. -/
structure Complaint where
  place : Place
  keyword : String
  params : Members Json

namespace Complaint

/-- The complaint about a value itself that an error makes. -/
def ofError (error : FieldError) : Complaint := ⟨.root, error.keyword, error.params⟩

/-- The complaint seen from around, where `outer` leads to the value. -/
def below (outer : Place) (complaint : Complaint) : Complaint :=
  { complaint with place := outer.below complaint.place }

/-- What is shown of the complaint: the text of the place, the keyword and the parameters. -/
def shown (complaint : Complaint) : String × String × Members Json :=
  (complaint.place.text, complaint.keyword, complaint.params)

theorem below_below (outer middle : Place) (complaint : Complaint) :
    below outer (below middle complaint) = below (outer.below middle) complaint := by
  simp only [below, Place.below_below]

end Complaint

/-- What an error shows apart from its wording. -/
def FieldError.shown (error : FieldError) : String × String × Members Json :=
  (error.place, error.keyword, error.params)

/-- No branch and no suspended check in the tree. -/
structure Node.IsLocal (node : Node) : Prop where
  branchless : node.Every Branchless
  immediate : node.IsImmediate

theorem Node.IsLocal.inside {node child : Node} (h : node.IsLocal) (hmem : child ∈ node.children) :
    child.IsLocal :=
  ⟨h.branchless.inside hmem, h.immediate.inside hmem⟩

namespace Rules

/-! ## The complaints of a node -/

/-- The own checks of a node that a value breaks. -/
def ownComplaints (rules : Rules) (node : Node) (value : Json) : List Complaint :=
  (node.ownFaults value).map fun fault => .ofError (rules.broken node .root fault)

/-- One complaint for each custom check that objects. -/
def customComplaints (node : Node) (value : Json) : List Complaint :=
  node.facets.customs.filterMap fun custom =>
    (custom.verdict value).map fun _ => ⟨.root, "custom", []⟩

/-- One complaint for each member that no field names, where such members do not pass. -/
def unknownComplaints (rules : Rules) (fields : List (String × Node)) (members : Members Json) :
    List Complaint :=
  if rules.config.allowUnknownFields || fields.isEmpty then []
  else
    ((Members.names members).filter fun name => !Members.hasName fields name).map
      fun name => ⟨Place.root.key name, "unknown", []⟩

/-- What a node has against a present value, where its parts have `parts` against it. -/
def valueComplaints (rules : Rules) (node : Node) (parts : Json → List Complaint) (value : Json) :
    List Complaint :=
  if node.base.fits value then
    rules.ownComplaints node value ++ parts value
      ++ if (node.ownFaults value).isEmpty then customComplaints node value else []
  else [.ofError (rules.wrongType node .root)]

/-- What a node complains of, where it has `inside` against a present value. -/
def presentComplaints (rules : Rules) (node : Node) (inside : Json → List Complaint)
    (value : Option Json) : List Complaint :=
  match value.filter fun value => !value.isNull || node.acceptsNull with
  | some value => inside value
  | none => if node.facets.required then [.ofError (rules.missing node .root)] else []

/-- What a union has against a value, by what each of its members has. -/
def trialComplaints (rules : Rules) (node : Node) (members : List Node) (value : Json)
    (tried : List (Node × List Complaint)) : List Complaint :=
  match tried.find? fun one => one.2.isEmpty with
  | some _ => customComplaints node value
  | none =>
      match tried.find? fun one => one.1.fits value with
      | some one => one.2
      | none => [.ofError (rules.noMember node .root members)]

mutual

/-- What a node complains of about a value, or about its absence.  A branch is asked
    nothing here. -/
def complaints (rules : Rules) : Node → Option Json → List Complaint
  | .leaf type facets =>
      let node := Node.leaf type facets
      rules.presentComplaints node (rules.valueComplaints node fun _ => [])
  | .object facets fields =>
      let node := Node.object facets fields
      let parts (value : Json) : List Complaint :=
        fieldComplaints rules fields value ++ rules.unknownComplaints fields (membersOf value)
      rules.presentComplaints node (rules.valueComplaints node parts)
  | .array facets none =>
      let node := Node.array facets none
      rules.presentComplaints node (rules.valueComplaints node fun _ => [])
  | .array facets (some items) =>
      let node := Node.array facets (some items)
      let parts (value : Json) : List Complaint :=
        (itemsOf value).zipIdx.flatMap fun item =>
          (complaints rules items (some item.1)).map (.below (Place.root.index item.2))
      rules.presentComplaints node (rules.valueComplaints node parts)
  | .union facets members => fun value =>
      let node := Node.union facets members
      let inside (present : Json) : List Complaint :=
        rules.trialComplaints node members present (memberComplaints rules members value)
      rules.presentComplaints node inside value
  | .matching _ _ _ => fun _ => []
  | .switch _ _ _ _ => fun _ => []
  | .chain _ _ => fun _ => []
termination_by structural node => node

/-- What the fields of an object complain of, in order, each about the member of its name. -/
def fieldComplaints (rules : Rules) : List (String × Node) → Json → List Complaint
  | [], _ => []
  | (name, node) :: rest, value =>
      (complaints rules node (value.member? name)).map (.below (Place.root.key name))
        ++ fieldComplaints rules rest value
termination_by structural fields => fields

/-- What each of the members of a union complains of. -/
def memberComplaints (rules : Rules) : List Node → Option Json → List (Node × List Complaint)
  | [], _ => []
  | member :: rest, value =>
      (member, complaints rules member value) :: memberComplaints rules rest value
termination_by structural members => members

end

variable {rules : Rules}

/-- The complaints about fields come field by field, each of them below its name. -/
theorem fieldComplaints_eq_flatMap (rules : Rules) (fields : List (String × Node)) (value : Json) :
    rules.fieldComplaints fields value
      = fields.flatMap fun field =>
          (rules.complaints field.2 (value.member? field.1)).map (.below (Place.root.key field.1)) := by
  induction fields with
  | nil => rfl
  | cons field rest ih =>
      rw [List.flatMap_cons, ← ih]
      rfl

/-- The members of a union complain each for itself. -/
theorem memberComplaints_eq_map (rules : Rules) (members : List Node) (value : Option Json) :
    rules.memberComplaints members value
      = members.map fun member => (member, rules.complaints member value) := by
  induction members with
  | nil => rfl
  | cons member rest ih =>
      rw [List.map_cons, ← ih]
      rfl

/-! ## Findings that show complaints -/

/-- The errors among the slots are the complaints about the value at `place`. -/
def Shows (place : Place) (slots : List Slot) (complaints : List Complaint) : Prop :=
  (readyErrors slots).map FieldError.shown
    = complaints.map fun complaint => (complaint.below place).shown

namespace Shows

variable {place : Place} {slots more : List Slot} {complaints further : List Complaint}

theorem nil : Shows place [] [] := rfl

theorem append (h : Shows place slots complaints) (hmore : Shows place more further) :
    Shows place (slots ++ more) (complaints ++ further) := by
  unfold Shows readyErrors at *
  rw [List.filterMap_append, List.map_append, List.map_append, h, hmore]

/-- Slots for each part in turn show the complaints for each part in turn. -/
theorem flatMap {α : Type} {l : List α} {found : α → List Slot} {has : α → List Complaint}
    (h : ∀ a ∈ l, Shows place (found a) (has a)) :
    Shows place (l.flatMap found) (l.flatMap has) := by
  induction l with
  | nil => exact nil
  | cons a rest ih =>
      rw [List.flatMap_cons, List.flatMap_cons]
      exact (h a List.mem_cons_self).append (ih fun b hmem => h b (List.mem_cons_of_mem a hmem))

/-- An error at the place shows the complaint of its keyword and parameters. -/
theorem of_shown {error : FieldError} {complaint : Complaint}
    (h : error.shown = (complaint.below place).shown) :
    Shows place [.ready error] [complaint] :=
  congrArg (fun shown => [shown]) h

/-- Errors that differ from those of the value itself only in their place. -/
theorem of_error {error own : FieldError} (hplace : error.place = place.text)
    (hkeyword : error.keyword = own.keyword) (hparams : error.params = own.params) :
    Shows place [.ready error] [.ofError own] := by
  refine of_shown ?_
  rw [FieldError.shown, Complaint.shown, Complaint.below, Complaint.ofError, Place.below_root,
    hplace, hkeyword, hparams]

/-- What is shown one place further down. -/
theorem descend {inner : Place} (h : Shows (place.below inner) slots complaints) :
    Shows place slots (complaints.map (.below inner)) := by
  unfold Shows at *
  rw [h, List.map_map]
  refine List.map_congr_left fun complaint _ => ?_
  rw [Function.comp_apply, Complaint.below_below]

/-- Errors that are worded for a place show the complaint that is moved there. -/
theorem map {α : Type} {l : List α} {error : α → FieldError} {complaint : α → Complaint}
    (h : ∀ a ∈ l, (error a).shown = ((complaint a).below place).shown) :
    Shows place (l.map fun a => .ready (error a)) (l.map complaint) := by
  rw [List.map_eq_flatMap, List.map_eq_flatMap]
  exact flatMap fun a hmem => of_shown (h a hmem)

/-- Slots hold an error exactly if they show a complaint. -/
theorem hasErrors_eq (h : Shows place slots complaints) :
    hasErrors slots = !complaints.isEmpty := by
  have hlength := congrArg List.length h
  rw [List.length_map, List.length_map] at hlength
  rw [Bool.eq_iff_iff, ← Bool.not_eq_false, ← readyErrors_eq_nil_iff, Bool.not_eq_true',
    ← Bool.not_eq_true, List.isEmpty_iff, ← List.length_eq_zero_iff, hlength, List.length_eq_zero_iff]

end Shows

/-! ## Single steps -/

variable {node : Node} {place : Place}

/-- The faults of a node show its own complaints, wherever the value stands. -/
theorem shows_broken (node : Node) (place : Place) (value : Json) :
    Shows place ((node.ownFaults value).map fun fault => .ready (rules.broken node place fault))
      (rules.ownComplaints node value) := by
  rw [List.map_eq_flatMap, ownComplaints, List.map_eq_flatMap]
  refine Shows.flatMap fun fault _ => ?_
  cases fault <;> exact Shows.of_error rfl rfl rfl

/-- Unknown members show the same complaints everywhere. -/
theorem shows_unknown (fields : List (String × Node)) (members : Members Json) (place : Place) :
    Shows place (rules.unknownFindings fields members place)
      (rules.unknownComplaints fields members) := by
  unfold unknownFindings unknownComplaints
  split
  · exact Shows.nil
  · exact Shows.map fun name _ => rfl

/-- Custom checks that answer at once complain everywhere alike, since they see the value
    alone. -/
theorem shows_customs (h : node.isSuspended = false) (place : Place) (value : Json) :
    Shows place (rules.allCustomFindings node place value) (customComplaints node value) := by
  rw [customComplaints, List.filterMap_eq_flatMap_toList]
  refine Shows.flatMap fun custom hmem => ?_
  obtain ⟨serial, check | check⟩ := custom
  · dsimp only [customFindings, Custom.verdict]
    cases (check value).value with
    | some text =>
        refine Shows.of_shown ?_
        rw [Complaint.shown, Complaint.below, Place.below_root]
        rfl
    | none => exact Shows.nil
  · exact nomatch (Node.isSuspended_eq_false_iff node).1 h _ hmem

/-- What is found in a present value. -/
theorem shows_value (h : node.isSuspended = false) {parts : Json → List Slot}
    {has : Json → List Complaint} {value : Json} (hparts : Shows place (parts value) (has value)) :
    Shows place (rules.valueFindings node place parts value)
      (rules.valueComplaints node has value) := by
  unfold valueFindings valueComplaints
  split
  · refine ((shows_broken node place value).append hparts).append ?_
    split
    · exact shows_customs h place value
    · exact Shows.nil
  · exact Shows.of_error rfl rfl rfl

/-- What is found at a site, where the value is absent or present. -/
theorem shows_site {inside : Json → List Slot} {has : Json → List Complaint} {site : Site}
    (hinside : ∀ value, Shows site.place (inside value) (has value)) :
    Shows site.place (rules.siteFindings node inside site)
      (rules.presentComplaints node has site.value) := by
  unfold siteFindings presentComplaints Node.present?
  cases site.value.filter fun value => !value.isNull || node.acceptsNull with
  | some value => exact hinside value
  | none =>
      dsimp only
      split
      · exact Shows.of_error rfl rfl rfl
      · exact Shows.nil

/-- What trying the members comes to. -/
theorem shows_trial (h : node.isSuspended = false) {members : List Node} {site : Site}
    (hmembers : ∀ member ∈ members,
      Shows site.place (rules.findings member site) (rules.complaints member site.value))
    (value : Json) :
    Shows site.place (rules.trialFindings node members site.place value
        (rules.trialAt members site value))
      (rules.trialComplaints node members value (rules.memberComplaints members site.value)) := by
  have hagreed : rules.agreed? members site
      = members.find? fun member => (rules.complaints member site.value).isEmpty := by
    refine List.find?_congr fun member hmem => ?_
    rw [(hmembers member hmem).hasErrors_eq, Bool.not_not]
  have hclean : ((members.map fun member => (member, rules.complaints member site.value)).find?
        fun one => one.2.isEmpty)
      = (rules.agreed? members site).map fun member => (member, rules.complaints member site.value) := by
    rw [List.find?_map, hagreed]
    rfl
  have hclosest : ((members.map fun member => (member, rules.complaints member site.value)).find?
        fun one => one.1.fits value)
      = (members.find? (Node.fits value)).map
          fun member => (member, rules.complaints member site.value) := by
    rw [List.find?_map]
    rfl
  rw [trialAt, trialComplaints, memberComplaints_eq_map, hclean, hclosest]
  cases hagree : rules.agreed? members site with
  | some member =>
      -- a member that agrees has no complaint, so only the union's own checks are left
      have hmem : member ∈ members := List.mem_of_find?_eq_some hagree
      have hnone : rules.complaints member site.value = [] := by
        rw [hagreed] at hagree
        have hempty := List.find?_some hagree
        exact List.isEmpty_iff.1 hempty
      have hmember := hmembers member hmem
      rw [hnone] at hmember
      exact hmember.append (shows_customs h site.place value)
  | none =>
      cases hfits : members.find? (Node.fits value) with
      | some member => exact hmembers member (List.mem_of_find?_eq_some hfits)
      | none => exact Shows.of_error rfl rfl rfl

/-! ## The tree -/

/-- **A LOCAL TREE FINDS ITS COMPLAINTS**, at every site, seen from the root. -/
theorem shows_findings (hnode : node.IsLocal) (site : Site) :
    Shows site.place (rules.findings node site) (rules.complaints node site.value) := by
  induction node using Node.induction generalizing site with
  | leaf type facets =>
      exact shows_site fun value => shows_value hnode.immediate.here Shows.nil
  | object facets fields ih =>
      refine shows_site fun value => shows_value hnode.immediate.here ?_
      refine Shows.append ?_ (shows_unknown fields (membersOf value) site.place)
      rw [fieldFindings_eq_flatMap, fieldComplaints_eq_flatMap]
      refine Shows.flatMap fun field hmem => Shows.descend ?_
      exact ih field hmem (hnode.inside (List.mem_map_of_mem hmem)) _
  | array facets items ih =>
      cases items with
      | none => exact shows_site fun value => shows_value hnode.immediate.here Shows.nil
      | some items =>
          refine shows_site fun value => shows_value hnode.immediate.here ?_
          refine Shows.flatMap fun item hmem => Shows.descend ?_
          exact ih items rfl (hnode.inside (List.mem_singleton_self items)) _
  | union facets members ih =>
      rw [findings_union]
      refine shows_site fun value => shows_trial hnode.immediate.here ?_ value
      exact fun member hmem => ih member hmem (hnode.inside hmem) site
  | matching facets reference cases => exact hnode.branchless.here.elim
  | switch facets field yes no => exact hnode.branchless.here.elim
  | chain facets body => exact hnode.branchless.here.elim

end Rules

end Conform
