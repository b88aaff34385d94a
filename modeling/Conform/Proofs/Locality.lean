import Conform.Schema
import Conform.Proofs.Complaints

/-! # Locality — no part of a value bears on the errors of another

    A local tree reports the complaints it has against a value (`report_shows`).  Those
    of an object are its own, those of its fields and the members without a field; those
    of an array are its own and those of its items.  Each part complains as it would by
    itself, and its complaints lie below the step that leads to it.

    So a value that lies deep in objects and arrays (`Encloses`) is complained of as it
    is by itself (`complaints_of_encloses`), and a change of one member of a record leaves
    everything below the other names as it was (`complaints_put`). -/

namespace Conform

/-! ## Complaints within a place -/

namespace Complaint

/-- The complaint is about what is at the place or below it. -/
def isWithin (place : Place) (complaint : Complaint) : Bool :=
  place.steps.isPrefixOf complaint.place.steps

variable {complaints : List Complaint}

theorem filter_isWithin_root (complaints : List Complaint) :
    complaints.filter (isWithin .root) = complaints.map (below .root) := by
  have hroot : below .root = id := rfl
  rw [hroot, List.map_id]
  exact List.filter_eq_self.2 fun _ _ => rfl

/-- What lies within a place further down, seen from around. -/
theorem filter_isWithin_below (step : Step) (place : Place) (complaints : List Complaint) :
    (complaints.map (below ⟨[step]⟩)).filter (isWithin (Place.below ⟨[step]⟩ place))
      = (complaints.filter (isWithin place)).map (below ⟨[step]⟩) := by
  rw [List.filter_map]
  refine congrArg _ (List.filter_congr fun complaint _ => ?_)
  show (step == step && _) = _
  rw [beq_self_eq_true, Bool.true_and]
  rfl

/-- What lies below one step does not lie below another. -/
theorem not_isWithin_of_ne {step other : Step} (h : step ≠ other) (place : Place)
    {complaint : Complaint} {rest : List Step} (hplace : complaint.place.steps = other :: rest) :
    ¬isWithin (Place.below ⟨[step]⟩ place) complaint = true := by
  rw [isWithin, hplace]
  show ¬(step == other && _) = true
  rw [beq_eq_false_iff_ne.2 h, Bool.false_and]
  exact Bool.false_ne_true

/-- Nothing below one step is within another. -/
theorem filter_isWithin_of_ne {step other : Step} (h : step ≠ other) (place : Place)
    (complaints : List Complaint) :
    (complaints.map (below ⟨[other]⟩)).filter (isWithin (Place.below ⟨[step]⟩ place)) = [] := by
  rw [List.filter_eq_nil_iff]
  intro complaint hmem
  obtain ⟨inner, -, rfl⟩ := List.mem_map.1 hmem
  exact not_isWithin_of_ne h place rfl

/-- What is about the value itself does not lie below a step. -/
theorem filter_isWithin_of_root {step : Step} {place : Place}
    (h : ∀ complaint ∈ complaints, complaint.place = .root) :
    complaints.filter (isWithin (Place.below ⟨[step]⟩ place)) = [] := by
  rw [List.filter_eq_nil_iff]
  intro complaint hmem
  rw [isWithin, h complaint hmem]
  exact Bool.false_ne_true

/-- Of parts that lie below different steps, one is below its step. -/
theorem filter_isWithin_parts {α : Type} {parts : List α} {step : α → Step}
    (has : α → List Complaint) (hsteps : (parts.map step).Nodup) {part : α} (hmem : part ∈ parts)
    (place : Place) :
    (parts.flatMap fun part => (has part).map (below ⟨[step part]⟩)).filter
        (isWithin (Place.below ⟨[step part]⟩ place))
      = ((has part).filter (isWithin place)).map (below ⟨[step part]⟩) := by
  induction parts with
  | nil => exact nomatch hmem
  | cons first rest ih =>
      obtain ⟨hfirst, hrest⟩ := List.nodup_cons.1 hsteps
      rw [List.flatMap_cons, List.filter_append]
      rcases List.mem_cons.1 hmem with rfl | hmem
      · have hothers : (rest.flatMap fun part => (has part).map (below ⟨[step part]⟩)).filter
            (isWithin (Place.below ⟨[step part]⟩ place)) = [] := by
          rw [List.filter_flatMap, List.flatMap_eq_nil_iff]
          intro other hother
          refine filter_isWithin_of_ne ?_ place (has other)
          exact fun heq => hfirst (heq ▸ List.mem_map_of_mem hother)
        rw [filter_isWithin_below, hothers, List.append_nil]
      · have hne : step part ≠ step first := fun heq => hfirst (heq ▸ List.mem_map_of_mem hmem)
        rw [filter_isWithin_of_ne hne, List.nil_append, ih hrest hmem]

end Complaint

namespace Rules

variable {rules : Rules}

/-! ## Objects and arrays -/

/-- What a node complains of after its parts. -/
def lastComplaints (node : Node) (value : Json) : List Complaint :=
  if (node.ownFaults value).isEmpty then customComplaints node value else []

/-- An object complains about itself, its fields, unknown members, and last by custom checks. -/
theorem complaints_object (rules : Rules) (facets : Facets) (fields : List (String × Node))
    (members : Members Json) :
    rules.complaints (.object facets fields) (some (.object members))
      = rules.ownComplaints (.object facets fields) (.object members)
        ++ (fields.flatMap fun field =>
            (rules.complaints field.2 (Members.valueOf? members field.1)).map
              (.below (Place.root.key field.1)))
        ++ rules.unknownComplaints fields members
        ++ lastComplaints (.object facets fields) (.object members) := by
  rw [List.append_assoc (rules.ownComplaints _ _)]
  show _ ++ (rules.fieldComplaints fields (.object members) ++ _) ++ _ = _
  rw [fieldComplaints_eq_flatMap]
  rfl

/-- An array complains about itself, its items, and last by custom checks. -/
theorem complaints_array (rules : Rules) (facets : Facets) (items : Option Node)
    (values : List Json) :
    rules.complaints (.array facets items) (some (.array values))
      = rules.ownComplaints (.array facets items) (.array values)
        ++ (items.toList.flatMap fun node =>
            values.zipIdx.flatMap fun item =>
              (rules.complaints node (some item.1)).map (.below (Place.root.index item.2)))
        ++ lastComplaints (.array facets items) (.array values) := by
  cases items with
  | none => rfl
  | some node =>
      rw [Option.toList_some, List.flatMap_singleton]
      rfl

theorem place_of_mem_ownComplaints {node : Node} {value : Json} {complaint : Complaint}
    (h : complaint ∈ rules.ownComplaints node value) : complaint.place = .root := by
  obtain ⟨fault, -, rfl⟩ := List.mem_map.1 h
  rfl

/-- Custom checks complain about the place of the node. -/
theorem place_of_mem_lastComplaints {node : Node} {value : Json} {complaint : Complaint}
    (h : complaint ∈ lastComplaints node value) : complaint.place = .root := by
  unfold lastComplaints at h
  split at h
  · obtain ⟨custom, -, hcomplaint⟩ := List.mem_filterMap.1 h
    obtain ⟨text, -, rfl⟩ := Option.map_eq_some_iff.1 hcomplaint
    rfl
  · exact nomatch h

/-- Members without a field are not below the name of a field. -/
theorem filter_isWithin_unknown (rules : Rules) {fields : List (String × Node)} {name : String}
    (hname : name ∈ Members.names fields) (members : Members Json) (place : Place) :
    (rules.unknownComplaints fields members).filter
      (Complaint.isWithin ((Place.root.key name).below place)) = [] := by
  unfold unknownComplaints
  split
  · rfl
  · rw [List.filter_eq_nil_iff]
    intro complaint hmem
    obtain ⟨other, hother, rfl⟩ := List.mem_map.1 hmem
    have hne : Step.key name ≠ .key other := by
      rintro heq
      obtain rfl := Step.key.inj heq
      have hfree := (List.mem_filter.1 hother).2
      rw [Members.hasName_iff_mem_names.2 hname] at hfree
      exact nomatch hfree
    exact Complaint.not_isWithin_of_ne hne place rfl

/-- What an object is complained of below the name of a field. -/
theorem filter_isWithin_object {facets : Facets} {fields : List (String × Node)}
    (hnames : (Members.names fields).Nodup) {field : String × Node} (hmem : field ∈ fields)
    (members : Members Json) (place : Place) :
    (rules.complaints (.object facets fields) (some (.object members))).filter
        (Complaint.isWithin ((Place.root.key field.1).below place))
      = ((rules.complaints field.2 (Members.valueOf? members field.1)).filter
          (Complaint.isWithin place)).map (.below (Place.root.key field.1)) := by
  have hsteps : (fields.map fun field => Step.key field.1).Nodup := by
    have hnodup : ((Members.names fields).map Step.key).Nodup :=
      List.Pairwise.map Step.key (fun _ _ hne heq => hne (Step.key.inj heq)) hnames
    rwa [Members.names, List.map_map] at hnodup
  have hfields := Complaint.filter_isWithin_parts
    (fun field => rules.complaints field.2 (Members.valueOf? members field.1)) hsteps hmem place
  have hunknown := filter_isWithin_unknown rules
    (List.mem_map_of_mem (f := Prod.fst) hmem) members place
  rw [complaints_object, List.filter_append, List.filter_append, List.filter_append, hunknown]
  rw [show Place.root.key field.1 = ⟨[.key field.1]⟩ from rfl,
    Complaint.filter_isWithin_of_root fun _ => place_of_mem_ownComplaints,
    Complaint.filter_isWithin_of_root fun _ => place_of_mem_lastComplaints, List.append_nil,
    List.append_nil, List.nil_append]
  exact hfields

/-- What an array is complained of below the index of an item. -/
theorem filter_isWithin_array {facets : Facets} {node : Node} {values : List Json} {position : Nat}
    {item : Json} (hitem : values[position]? = some item) (place : Place) :
    (rules.complaints (.array facets (some node)) (some (.array values))).filter
        (Complaint.isWithin ((Place.root.index position).below place))
      = ((rules.complaints node (some item)).filter (Complaint.isWithin place)).map
          (.below (Place.root.index position)) := by
  have hsteps : (values.zipIdx.map fun item => Step.index item.2).Nodup := by
    have hnodup : ((values.zipIdx.map Prod.snd).map Step.index).Nodup := by
      rw [List.zipIdx_map_snd]
      exact List.Pairwise.map Step.index (fun _ _ hne heq => hne (Step.index.inj heq)) (List.nodup_range' 1)
    rwa [List.map_map] at hnodup
  have hitems := Complaint.filter_isWithin_parts
    (fun item => rules.complaints node (some item.1)) hsteps
    (List.mk_mem_zipIdx_iff_getElem?.2 hitem) place
  rw [complaints_array, Option.toList_some, List.flatMap_singleton, List.filter_append,
    List.filter_append]
  rw [show Place.root.index position = ⟨[.index position]⟩ from rfl,
    Complaint.filter_isWithin_of_root fun _ => place_of_mem_ownComplaints,
    Complaint.filter_isWithin_of_root fun _ => place_of_mem_lastComplaints, List.append_nil,
    List.nil_append]
  exact hitems

/-! ## Enclosing values -/

/-- The node and value are those of a field or item, however deep; the place leads there
    from the node and value around. -/
inductive Encloses : Node → Option Json → Place → Node → Option Json → Prop
  | here (node : Node) (value : Option Json) : Encloses node value .root node value
  | field {facets : Facets} {fields : List (String × Node)} {members : Members Json}
      {field : String × Node} {place : Place} {inner : Node} {value : Option Json}
      (hnames : (Members.names fields).Nodup) (hmem : field ∈ fields)
      (h : Encloses field.2 (Members.valueOf? members field.1) place inner value) :
      Encloses (.object facets fields) (some (.object members))
        ((Place.root.key field.1).below place) inner value
  | item {facets : Facets} {node : Node} {values : List Json} {position : Nat} {item : Json}
      {place : Place} {inner : Node} {value : Option Json} (hitem : values[position]? = some item)
      (h : Encloses node (some item) place inner value) :
      Encloses (.array facets (some node)) (some (.array values))
        ((Place.root.index position).below place) inner value

/-- **WHAT LIES WITHIN A PLACE** is what the value there is complained of by itself. -/
theorem complaints_of_encloses {outer inner : Node} {whole value : Option Json} {place : Place}
    (h : Encloses outer whole place inner value) :
    (rules.complaints outer whole).filter (Complaint.isWithin place)
      = (rules.complaints inner value).map (.below place) := by
  induction h with
  | here node value => exact Complaint.filter_isWithin_root _
  | field hnames hmem h ih =>
      rw [filter_isWithin_object hnames hmem, ih, List.map_map]
      exact List.map_congr_left fun complaint _ => Complaint.below_below _ _ complaint
  | item hitem h ih =>
      rw [filter_isWithin_array hitem, ih, List.map_map]
      exact List.map_congr_left fun complaint _ => Complaint.below_below _ _ complaint

/-! ## Changing one member -/

/-- A member of another name is no complaint there. -/
theorem filter_isWithin_unknown_put (fields : List (String × Node)) (members : Members Json)
    {name other : String} (hother : other ≠ name) (value : Json) :
    (rules.unknownComplaints fields (Members.put members name value)).filter
        (Complaint.isWithin (Place.root.key other))
      = (rules.unknownComplaints fields members).filter
          (Complaint.isWithin (Place.root.key other)) := by
  have hstep : Step.key other ≠ .key name := fun heq => hother (Step.key.inj heq)
  unfold unknownComplaints
  split
  · rfl
  · rw [Members.names_put]
    split
    · rfl
    · rw [List.filter_append, List.map_append, List.filter_append, List.append_right_eq_self,
        List.filter_eq_nil_iff]
      intro complaint hmem
      obtain ⟨one, hone, rfl⟩ := List.mem_map.1 hmem
      obtain rfl := List.mem_singleton.1 (List.mem_filter.1 hone).1
      exact Complaint.not_isWithin_of_ne hstep .root rfl

/-- **A CHANGE OF ONE MEMBER** leaves what is complained of below other names as it was. -/
theorem complaints_put (facets : Facets) (fields : List (String × Node)) (members : Members Json)
    {name other : String} (hother : other ≠ name) (value : Json) :
    (rules.complaints (.object facets fields) (some (.object (Members.put members name value)))).filter
        (Complaint.isWithin (Place.root.key other))
      = (rules.complaints (.object facets fields) (some (.object members))).filter
          (Complaint.isWithin (Place.root.key other)) := by
  have hroot : Place.root.key other = Place.below ⟨[.key other]⟩ .root := rfl
  have hfields : ∀ field ∈ fields,
      ((rules.complaints field.2 (Members.valueOf? (Members.put members name value) field.1)).map
          (.below (Place.root.key field.1))).filter (Complaint.isWithin (Place.root.key other))
        = ((rules.complaints field.2 (Members.valueOf? members field.1)).map
          (.below (Place.root.key field.1))).filter (Complaint.isWithin (Place.root.key other)) := by
    intro field _
    by_cases hfield : field.1 = other
    · rw [Members.valueOf?_put_of_ne members value (hfield ▸ hother)]
    · have hstep : Step.key other ≠ .key field.1 := fun heq => hfield (Step.key.inj heq).symm
      exact (Complaint.filter_isWithin_of_ne hstep .root _).trans
        (Complaint.filter_isWithin_of_ne hstep .root _).symm
  simp only [complaints_object, List.filter_append, List.filter_flatMap,
    filter_isWithin_unknown_put fields members hother value]
  rw [List.flatMap_congr hfields, hroot]
  simp only [Complaint.filter_isWithin_of_root fun _ => place_of_mem_ownComplaints,
    Complaint.filter_isWithin_of_root fun _ => place_of_mem_lastComplaints]

/-! ## Reports -/

/-- A validation comes to a report that shows these complaints, in this order. -/
def ReportShows (rules : Rules) (node : Node) (value : Json) (complaints : List Complaint) : Prop :=
  ∃ report, (rules.validate node value).value = .ok report
    ∧ report.errors.map FieldError.shown = complaints.map Complaint.shown

/-- How all errors of a value come from those of its parts. -/
structure ChecksLocally (rules : Rules) : Prop where
  /-- A walk adds the complaints about the value, seen from the root, to whatever was found
      before, and the record does not matter. -/
  anywhere : ∀ {node : Node}, node.IsLocal → ∀ mode site slots, ∃ more,
    Yields (rules.walk mode node site slots) (slots ++ more)
      ∧ Shows site.place more (rules.complaints node site.value)
  /-- A validation reports the complaints about the whole value. -/
  alone : ∀ {node : Node}, node.IsLocal → ∀ value,
    rules.ReportShows node value (rules.complaints node (some value))
  /-- A value that is not there is complained of once, if it is required. -/
  absent : ∀ {node : Node}, node.IsLocal → rules.complaints node none
    = if node.facets.required then [⟨.root, "required", []⟩] else []
  /-- An object: its own checks, then the fields in the order of their declaration, each with
      what it complains of by itself, then the members that no field names, in the order of
      the data, then the custom checks, if its own checks hold. -/
  object : ∀ {facets : Facets} {fields : List (String × Node)},
    (Node.object facets fields).IsLocal → ∀ members : Members Json,
      rules.ReportShows (.object facets fields) (.object members)
        (rules.ownComplaints (.object facets fields) (.object members)
          ++ (fields.flatMap fun field =>
              (rules.complaints field.2 (Members.valueOf? members field.1)).map
                (.below (Place.root.key field.1)))
          ++ rules.unknownComplaints fields members
          ++ lastComplaints (.object facets fields) (.object members))
  /-- An array, likewise, with the items in the order of their indices. -/
  array : ∀ {facets : Facets} {items : Option Node}, (Node.array facets items).IsLocal →
    ∀ values : List Json,
      rules.ReportShows (.array facets items) (.array values)
        (rules.ownComplaints (.array facets items) (.array values)
          ++ (items.toList.flatMap fun node =>
              values.zipIdx.flatMap fun item =>
                (rules.complaints node (some item.1)).map (.below (Place.root.index item.2)))
          ++ lastComplaints (.array facets items) (.array values))
  /-- However deep a value lies in objects and arrays, within its place are the complaints
      about it by itself. -/
  enclosed : ∀ {outer inner : Node} {whole value : Option Json} {place : Place},
    Encloses outer whole place inner value →
      (rules.complaints outer whole).filter (Complaint.isWithin place)
        = (rules.complaints inner value).map (.below place)
  /-- A change of one member of a record changes nothing below another name. -/
  elsewhere : ∀ (facets : Facets) (fields : List (String × Node)) (members : Members Json)
    {name other : String}, other ≠ name → ∀ value,
      (rules.complaints (.object facets fields)
          (some (.object (Members.put members name value)))).filter
          (Complaint.isWithin (Place.root.key other))
        = (rules.complaints (.object facets fields) (some (.object members))).filter
            (Complaint.isWithin (Place.root.key other))

section

variable {node : Node} (habort : rules.config.abortEarly = false) (hnode : node.IsLocal)
include habort hnode

/-- **THE WALK SHOWS THE COMPLAINTS**, after the slots that are there already. -/
theorem exists_walk_shows (mode : Mode) (site : Site) (slots : List Slot) : ∃ more,
    Yields (rules.walk mode node site slots) (slots ++ more)
      ∧ Shows site.place more (rules.complaints node site.value) := by
  have hkeep : ∀ slots, rules.keep slots = slots := by
    intro slots
    rw [keep, habort, if_neg Bool.false_ne_true]
  have hwalk : rules.Reports (rules.walk .suspending node site) _ := walk_reports node site
  have hslots := hwalk slots
  rw [hkeep, hkeep, ← walk_of_isImmediate hnode.immediate mode] at hslots
  exact ⟨_, hslots, shows_findings hnode site⟩

/-- The report of a document shows the complaints about it. -/
theorem report_shows (value : Json) :
    rules.ReportShows node value (rules.complaints node (some value)) := by
  have hnow := (Node.firstSuspended?_eq_none_iff .root node).2 hnode.immediate
  refine ⟨_, value_validate_of_immediate rules value hnow, ?_⟩
  have hshows : Shows .root (rules.findings node (.root value)) (rules.complaints node (some value)) :=
    shows_findings hnode (.root value)
  rw [keep, habort, if_neg Bool.false_ne_true]
  exact hshows

end

/-- A local node complains about a missing value only if it is required. -/
theorem complaints_none {node : Node} (hnode : node.IsLocal) :
    rules.complaints node none
      = if node.facets.required then [⟨.root, "required", []⟩] else [] := by
  cases node with
  | leaf type facets => rfl
  | object facets fields => rfl
  | array facets items => cases items <;> rfl
  | union facets members => rfl
  | matching facets reference cases => exact hnode.branchless.here.elim
  | switch facets field yes no => exact hnode.branchless.here.elim
  | chain facets body => exact hnode.branchless.here.elim

/-- **VALIDATION IS LOCAL.**  Where the first error does not end the validation, the errors
    of a value are put together from those of its parts, each checked by itself: what is
    shown of a part is what would be shown of it alone, with the place of the part before. -/
theorem validation_is_local {rules : Rules} (habort : rules.config.abortEarly = false) :
    rules.ChecksLocally where
  anywhere hnode := exists_walk_shows habort hnode
  alone hnode := report_shows habort hnode
  absent hnode := complaints_none hnode
  object hnode members := by
    rw [← complaints_object]
    exact report_shows habort hnode _
  array hnode values := by
    rw [← complaints_array]
    exact report_shows habort hnode _
  enclosed := complaints_of_encloses
  elsewhere facets fields members _ _ hother value :=
    complaints_put facets fields members hother value

/-- A line of an order: a code or a number, and how many. -/
def orderLine : Node :=
  .object {} [("item", .union {} [.leaf .integer {}, .leaf .string { choices := [.string "a"] }]),
    ("count", .leaf .integer { required := true })]

/-- What is said in an order: by whom, and its lines. -/
def orderFields : List (String × Node) :=
  [("by", .leaf .string {}), ("lines", .array {} (some orderLine))]

/-- An order of some lines. -/
def order : Node := .object {} orderFields

theorem validation_is_local_in_order :
    let rules := ofConfig { allowUnknownFields := false }
    let line := Json.object [("item", .string "b"), ("note", .null)]
    let whole := Json.object [("by", .integer 1), ("lines", .array [.null, line]), ("at", .null)]
    let place := (Place.root.key "lines").index 1
    rules.config.abortEarly = false ∧ order.IsLocal
      ∧ (∃ report, (rules.validate order whole).value = .ok report
        ∧ (report.errors.map FieldError.shown).map (fun shown => (shown.1, shown.2.1))
          = [("by", "type"), ("lines[1].item", "enum"), ("lines[1].count", "required"),
              ("lines[1].note", "unknown"), ("at", "unknown")])
      ∧ (rules.complaints order (some whole)).filter (Complaint.isWithin place)
        = (rules.complaints orderLine (some line)).map (.below place) := by
  intro rules line whole place
  have hlocal : rules.ChecksLocally := validation_is_local rfl
  have hitem : (Node.union {} [.leaf .integer {}, .leaf .string { choices := [.string "a"] }]).Every
      Node.Branchless :=
    .intro trivial (List.forall_mem_cons.2 ⟨.of_parts_eq_nil trivial rfl,
      List.forall_mem_singleton.2 (.of_parts_eq_nil trivial rfl)⟩)
  have hline : orderLine.Every Node.Branchless :=
    .intro trivial (List.forall_mem_cons.2 ⟨hitem,
      List.forall_mem_singleton.2 (.of_parts_eq_nil trivial rfl)⟩)
  have horder : order.IsLocal := by
    refine ⟨.intro trivial (List.forall_mem_cons.2 ⟨.of_parts_eq_nil trivial rfl,
      List.forall_mem_singleton.2 (.intro trivial (List.forall_mem_singleton.2 hline))⟩), ?_⟩
    exact (Node.firstSuspended?_eq_none_iff .root order).1 rfl
  obtain ⟨report, hreport, hshown⟩ := hlocal.alone horder whole
  refine ⟨rfl, horder, ⟨report, hreport, ?_⟩, ?_⟩
  · rw [hshown]
    decide +kernel
  -- the line is enclosed by the array, and the array by the object
  · have hline : Encloses (.array {} (some orderLine)) (some (.array [.null, line]))
        ((Place.root.index 1).below .root) orderLine (some line) :=
      .item rfl (.here orderLine (some line))
    exact hlocal.enclosed (@Encloses.field {} orderFields _ ("lines", .array {} (some orderLine))
      _ _ _ (by decide) (List.mem_cons_of_mem _ List.mem_cons_self) hline)

end Rules

end Conform
