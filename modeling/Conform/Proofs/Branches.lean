import Conform.Proofs.Clean
import Conform.Proofs.Refusing

/-! # Branches — a branch is what it selects

    The fields of an object may be branches, and a branch may select another one.  For a
    record each node has a STAND-IN: itself if it is no branch, otherwise the stand-in of
    what it selects, or a leaf that takes anything where nothing is selected.  Only a
    chain that fails with a message has none.

    A field and its stand-in find the same wherever they stand in the record, so an object
    and the one made of its stand-ins are walked to the same slots: at every place of a
    document, from whatever was found before, and however the walk ends
    (`standIns_are_transparent`). -/

namespace Conform

namespace Chain.Selection

variable {α : Type}

/-- The selection of a target, if there is one. -/
def ofTarget : Option α → Selection α
  | some node => .validate node
  | none => .pass

end Chain.Selection

namespace Node

/-! ## Stand-ins -/

/-- What a branch selects for a record.  A node of another form selects nothing at all. -/
def selection? (record : Json) : Node → Option (Chain.Selection Node)
  | .matching _ reference cases => some (.ofTarget (pickCase? reference cases record))
  | .switch _ field yes no => some (.ofTarget (pickSide? field yes no record))
  | .chain _ body => some (body.select record).value
  | _ => none

/-- An optional leaf that takes anything. -/
def unconstrained : Node := .leaf .any {}

theorem mem_children_of_selection? {record : Json} {node target : Node}
    (h : node.selection? record = some (.validate target)) : target ∈ node.children := by
  -- what is picked from a list of cases, sides or entries is a member of that list
  cases node with
  | matching facets reference cases =>
      rw [selection?, Option.some.injEq] at h
      cases hpick : pickCase? reference cases record with
      | none =>
          rw [hpick] at h
          cases h
      | some picked =>
          rw [hpick] at h
          obtain rfl := Chain.Selection.validate.inj h
          obtain ⟨case, hmem, rfl⟩ := exists_mem_of_mem_pickCase? hpick
          exact List.mem_map_of_mem hmem
  | switch facets field yes no =>
      rw [selection?, Option.some.injEq] at h
      cases hpick : pickSide? field yes no record with
      | none =>
          rw [hpick] at h
          cases h
      | some picked =>
          rw [hpick] at h
          obtain rfl := Chain.Selection.validate.inj h
          rcases mem_pickSide? hpick with rfl | hno
          · exact List.mem_cons_self
          · exact List.mem_cons_of_mem yes (Option.mem_toList.2 hno)
  | chain facets body =>
      rw [selection?, Option.some.injEq] at h
      exact Chain.mem_targets_of_selectFrom h
  | leaf | object | array | union => cases h

/-- The node that stands in for a node where `record` is the record around the value. -/
def standIn? (record : Json) (node : Node) : Option Node :=
  match _h : node.selection? record with
  | none => some node
  | some .pass => some unconstrained
  | some (.fail _) => none
  | some (.validate target) => target.standIn? record
termination_by sizeOf node
decreasing_by exact sizeOf_lt_of_mem_children (mem_children_of_selection? _h)

/-- The fields with the stand-ins of their nodes. -/
def standIns? (record : Json) (fields : List (String × Node)) : Option (List (String × Node)) :=
  fields.mapM fun field => (field.2.standIn? record).map fun node => (field.1, node)

variable {record : Json} {node other : Node}

theorem standIn?_eq (record : Json) (node : Node) :
    node.standIn? record
      = match node.selection? record with
        | none => some node
        | some .pass => some unconstrained
        | some (.fail _) => none
        | some (.validate target) => target.standIn? record := by
  rw [standIn?]
  split <;> next h => rw [h]

/-- A stand-in is the node itself, one in it, or the leaf that takes anything: what holds
    of these holds of it. -/
theorem standIn?_induction {P : Node → Node → Prop}
    (itself : ∀ node, node.selection? record = none → P node node)
    (passed : ∀ node, node.selection? record = some .pass → P node unconstrained)
    (followed : ∀ node target other, node.selection? record = some (.validate target) →
      P target other → P node other)
    (h : node.standIn? record = some other) : P node other := by
  induction node using induction_children with
  | step node ih =>
      rw [standIn?_eq] at h
      split at h
      · next hselect =>
          obtain rfl := Option.some.inj h
          exact itself node hselect
      · next hselect =>
          obtain rfl := Option.some.inj h
          exact passed node hselect
      · cases h
      · next target hselect =>
          exact followed node target other hselect
            (ih target (mem_children_of_selection? hselect) h)

/-- A stand-in is no branch itself. -/
theorem selection?_of_standIn? (h : node.standIn? record = some other) :
    other.selection? record = none :=
  standIn?_induction (P := fun _ other => other.selection? record = none)
    (fun _ hnone => hnone) (fun _ _ => rfl) (fun _ _ _ _ ih => ih) h

/-- The chain that is met in following the selections of a node fails with a message. -/
inductive Fails (record : Json) : Node → Prop
  | here {node : Node} {message : String} (h : node.selection? record = some (.fail message)) :
      Fails record node
  | further {node target : Node} (h : node.selection? record = some (.validate target))
      (htarget : Fails record target) : Fails record node

theorem not_fails_of_standIn? (h : node.standIn? record = some other) : ¬ node.Fails record := by
  intro hfails
  induction hfails with
  | here hselect =>
      rw [standIn?_eq, hselect] at h
      cases h
  | further hselect _ ih =>
      rw [standIn?_eq, hselect] at h
      exact ih h

/-- Only where a message is met there is no stand-in. -/
theorem exists_standIn? (h : ¬ node.Fails record) : ∃ other, node.standIn? record = some other := by
  induction node using induction_children with
  | step node ih =>
      rw [standIn?_eq]
      split
      · exact ⟨_, rfl⟩
      · exact ⟨_, rfl⟩
      · next hselect => exact absurd (.here hselect) h
      · next target hselect =>
          exact ih target (mem_children_of_selection? hselect) fun htarget => h (.further hselect htarget)

/-- A property of every node is one of every node of a stand-in. -/
theorem Every.of_standIn? {P : Node → Prop} (hany : P unconstrained) (h : node.Every P)
    (hother : node.standIn? record = some other) : other.Every P := by
  refine standIn?_induction (P := fun node other => node.Every P → other.Every P)
    ?_ ?_ ?_ hother h
  · exact fun node _ hnode => hnode
  · exact fun node _ _ => .of_parts_eq_nil hany rfl
  · intro node target other hselect ih hnode
    exact ih (hnode.inside (mem_children_of_selection? hselect))

/-! ## Stand-ins of fields -/

variable {fields others : List (String × Node)}

/-- The stand-ins of fields, one after the other, under the names of the fields. -/
theorem exists_of_standIns?_cons {field : String × Node}
    (h : standIns? record (field :: fields) = some others) :
    ∃ other rest, field.2.standIn? record = some other ∧ standIns? record fields = some rest
      ∧ others = (field.1, other) :: rest := by
  rw [standIns?, List.mapM_cons] at h
  obtain ⟨first, hfirst, h⟩ := Option.bind_eq_some_iff.1 h
  obtain ⟨rest, hrest, h⟩ := Option.bind_eq_some_iff.1 h
  obtain ⟨other, hother, rfl⟩ := Option.map_eq_some_iff.1 hfirst
  exact ⟨other, rest, hother, hrest, (Option.some.inj h).symm⟩

theorem exists_standIns? (h : ∀ field ∈ fields, ¬ field.2.Fails record) :
    ∃ others, standIns? record fields = some others := by
  induction fields with
  | nil => exact ⟨[], rfl⟩
  | cons field fields ih =>
      obtain ⟨other, hother⟩ := exists_standIn? (h field List.mem_cons_self)
      obtain ⟨rest, hrest⟩ := ih fun one hmem => h one (List.mem_cons_of_mem field hmem)
      refine ⟨(field.1, other) :: rest, ?_⟩
      rw [standIns?] at hrest ⊢
      rw [List.mapM_cons, hother, hrest]
      rfl

theorem names_of_standIns? (h : standIns? record fields = some others) :
    Members.names others = Members.names fields := by
  induction fields generalizing others with
  | nil =>
      obtain rfl := Option.some.inj h
      rfl
  | cons field fields ih =>
      obtain ⟨other, rest, -, hrest, rfl⟩ := exists_of_standIns?_cons h
      show field.1 :: Members.names rest = field.1 :: Members.names fields
      rw [ih hrest]

/-- Each stand-in is that of some field. -/
theorem exists_mem_of_mem_standIns? {stand : String × Node}
    (h : standIns? record fields = some others) (hmem : stand ∈ others) :
    ∃ field ∈ fields, field.2.standIn? record = some stand.2 := by
  induction fields generalizing others with
  | nil =>
      obtain rfl := Option.some.inj h
      cases hmem
  | cons field fields ih =>
      obtain ⟨other, rest, hother, hrest, rfl⟩ := exists_of_standIns?_cons h
      rcases List.mem_cons.1 hmem with rfl | hmem
      · exact ⟨field, List.mem_cons_self, hother⟩
      · obtain ⟨one, hone, hstand⟩ := ih hrest hmem
        exact ⟨one, List.mem_cons_of_mem field hone, hstand⟩

/-- Stand-ins bring no suspended checks. -/
theorem IsImmediate.of_standIns? {facets : Facets} (h : (object facets fields).IsImmediate)
    (hothers : standIns? record fields = some others) : (object facets others).IsImmediate := by
  refine .intro h.here ?_
  intro child hchild
  obtain ⟨stand, hmem, rfl⟩ := List.mem_map.1 hchild
  obtain ⟨field, hfield, hstand⟩ := exists_mem_of_mem_standIns? hothers hmem
  exact Every.of_standIn? rfl (h.inside (List.mem_map_of_mem hfield)) hstand

end Node

/-! ## What stand-ins find -/

namespace Rules

variable {rules : Rules} {record : Json} {site : Site}

/-- A branch finds what following its selection finds. -/
theorem findings_of_selection? {node : Node} {selection : Chain.Selection Node}
    (h : node.selection? record = some selection) (hsite : site.context = record) :
    rules.findings node site
      = rules.selectionFindings (some node) site (selection.map rules.findings) := by
  cases node with
  | matching facets reference cases =>
      obtain rfl := Option.some.inj h
      rw [findings_matching, hsite]
      cases pickCase? reference cases record <;> rfl
  | switch facets field yes no =>
      obtain rfl := Option.some.inj h
      rw [findings_switch, hsite]
      cases pickSide? field yes no record <;> rfl
  | chain facets body =>
      obtain rfl := Option.some.inj h
      rw [findings_chain, hsite]
  | leaf | object | array | union => cases h

/-- The leaf that takes anything finds nothing. -/
theorem findings_unconstrained (rules : Rules) (site : Site) :
    rules.findings .unconstrained site = [] := by
  obtain ⟨value, record, place⟩ := site
  cases value with
  | none => rfl
  | some value => cases value <;> rfl

/-- **A NODE FINDS WHAT ITS STAND-IN FINDS**, at every place and for every value, absent or
    null ones too. -/
theorem findings_of_standIn? {node other : Node} (h : node.standIn? record = some other) :
    ∀ site : Site, site.context = record → rules.findings node site = rules.findings other site := by
  refine Node.standIn?_induction
    (P := fun node other => ∀ site : Site, site.context = record →
      rules.findings node site = rules.findings other site) ?_ ?_ ?_ h
  · exact fun node _ site _ => rfl
  · intro node hselect site hsite
    rw [findings_of_selection? hselect hsite, findings_unconstrained]
    rfl
  · intro node target other hselect ih site hsite
    rw [findings_of_selection? hselect hsite, ← ih site hsite]
    rfl

theorem fieldFindings_of_standIns? {fields others : List (String × Node)}
    (h : Node.standIns? record fields = some others) (place : Place) :
    rules.fieldFindings fields record place = rules.fieldFindings others record place := by
  induction fields generalizing others with
  | nil =>
      obtain rfl := Option.some.inj h
      rfl
  | cons field fields ih =>
      obtain ⟨other, rest, hother, hrest, rfl⟩ := Node.exists_of_standIns?_cons h
      show rules.findings field.2 ⟨_, some record, _⟩ ++ rules.fieldFindings fields record place
        = rules.findings other ⟨_, some record, _⟩ ++ rules.fieldFindings rest record place
      rw [findings_of_standIn? hother _ rfl, ih hrest]

/-- Which members are unknown goes by the names of the fields. -/
theorem unknownFindings_of_names {fields others : List (String × Node)}
    (h : Members.names others = Members.names fields) (members : Members Json) (place : Place) :
    rules.unknownFindings others members place = rules.unknownFindings fields members place := by
  have hempty : others.isEmpty = fields.isEmpty := by
    have hmap := congrArg List.isEmpty h
    rw [Members.names, Members.names, List.isEmpty_map, List.isEmpty_map] at hmap
    exact hmap
  have hnames : Members.hasName others = Members.hasName fields := by
    funext name
    rw [Bool.eq_iff_iff, Members.hasName_iff_mem_names, Members.hasName_iff_mem_names, h]
  rw [unknownFindings, unknownFindings, hempty, hnames]

/-- What an object finds at a site depends on its facets and on what is found inside. -/
theorem siteFindings_object_congr {facets : Facets} {fields others : List (String × Node)}
    {inside instead : Json → List Slot}
    (h : ∀ value, site.value = some value → inside value = instead value) :
    rules.siteFindings (.object facets fields) inside site
      = rules.siteFindings (.object facets others) instead site := by
  have hpresent : (Node.object facets others).present? site
      = (Node.object facets fields).present? site := rfl
  rw [siteFindings, siteFindings, hpresent]
  cases hvalue : (Node.object facets fields).present? site with
  | none => rfl
  | some value => exact h value (Option.filter_eq_some_iff.1 hvalue).1

/-- **AN OBJECT FINDS IN A RECORD** what the object of the stand-ins finds in it. -/
theorem findings_object_of_standIns? {facets : Facets} {fields others : List (String × Node)}
    (h : Node.standIns? record fields = some others) (hsite : site.value = some record) :
    rules.findings (.object facets fields) site = rules.findings (.object facets others) site := by
  refine siteFindings_object_congr ?_
  intro value hvalue
  obtain rfl : record = value := Option.some.inj (hsite.symm.trans hvalue)
  have hparts : rules.fieldFindings fields record site.place
        ++ rules.unknownFindings fields (membersOf record) site.place
      = rules.fieldFindings others record site.place
        ++ rules.unknownFindings others (membersOf record) site.place := by
    rw [fieldFindings_of_standIns? h, unknownFindings_of_names (Node.names_of_standIns? h)]
  simp only [valueFindings, hparts]
  rfl

/-! ## Walks -/

section

variable {mode : Mode} {node other : Node}

/-- Nodes without suspended checks that find the same are walked to the same slots, from
    whatever slots. -/
theorem value_walk_congr (hnode : node.IsImmediate) (hother : other.IsImmediate)
    (h : rules.findings node site = rules.findings other site) (slots : List Slot) :
    (rules.walk mode node site slots).run.value = (rules.walk mode other site slots).run.value := by
  rw [walk_of_isImmediate hnode, walk_of_isImmediate hother]
  by_cases hfull : rules.isFull slots = true
  · obtain ⟨first, hfirst⟩ := exists_walk_eq_unlessFull rules .suspending node
    obtain ⟨second, hsecond⟩ := exists_walk_eq_unlessFull rules .suspending other
    rw [hfirst, hsecond, unlessFull, unlessFull, if_pos hfull, if_pos hfull]
  · have hkept := keep_of_isFull_eq_false rules (Bool.eq_false_iff.2 hfull)
    have hfirst : rules.Reports (rules.walk .suspending node site) _ := walk_reports node site
    have hsecond : rules.Reports (rules.walk .suspending other site) _ := walk_reports other site
    have hyields := hfirst slots
    have hinstead := hsecond slots
    rw [hkept, Yields] at hyields hinstead
    rw [hyields, hinstead, h]

/-- Computations that go on from the same values come to the same value. -/
theorem value_bind_congr {α β : Type} {x y : Checking α} {f g : α → Checking β}
    (h : x.run.value = y.run.value) (hnext : ∀ a, (f a).run.value = (g a).run.value) :
    (x >>= f).run.value = (y >>= g).run.value := by
  show (ExceptT.bindCont f x.run.value).value = (ExceptT.bindCont g y.run.value).value
  rw [h]
  cases y.run.value with
  | error error => rfl
  | ok a => exact hnext a

/-- Checkers that come to the same slots for each item do so for the list. -/
theorem value_eachItem_congr {first second : Checker} {outer : Option Json} {place : Place}
    {items : List Json} (h : ∀ item ∈ items, ∀ position slots,
      (first ⟨some item, outer, place.index position⟩ slots).run.value
        = (second ⟨some item, outer, place.index position⟩ slots).run.value) :
    ∀ position slots, (eachItem first outer place position items slots).run.value
      = (eachItem second outer place position items slots).run.value := by
  induction items with
  | nil => exact fun _ _ => rfl
  | cons item rest ih =>
      intro position slots
      refine value_bind_congr (h item List.mem_cons_self position slots) ?_
      exact ih (fun one hmem => h one (List.mem_cons_of_mem item hmem)) (position + 1)

end

/-- **BRANCHES ARE TRANSPARENT.**  Where following the branches among the fields of an
    object meets no message, the fields have stand-ins, none of them a branch, and the
    object of these comes to the same as the object: at every place, within whatever holds
    the record, with whatever slots before, and so in the reports of whole records.  Where
    this is so of each record of a list, each is checked as by the object of the stand-ins
    that the fields have for it. -/
theorem standIns_are_transparent {facets : Facets} {fields : List (String × Node)}
    (h : (Node.object facets fields).IsImmediate) :
    (∀ record, (∀ field ∈ fields, ¬ field.2.Fails record) →
      ∃ others, Node.standIns? record fields = some others
        ∧ (∀ other ∈ others, other.2.selection? record = none)
        ∧ (Node.object facets others).IsImmediate
        ∧ (∀ (rules : Rules) mode site slots, site.value = some record →
          (rules.walk mode (.object facets fields) site slots).run.value
            = (rules.walk mode (.object facets others) site slots).run.value)
        ∧ ∀ rules : Rules,
          (rules.validate (.object facets fields) record).value
              = (rules.validate (.object facets others) record).value
            ∧ (rules.validateWaiting (.object facets fields) record).value
              = (rules.validateWaiting (.object facets others) record).value)
      ∧ ∀ (records : List Json) (stands : Json → List (String × Node)),
        (∀ record ∈ records, Node.standIns? record fields = some (stands record)) →
        ∀ (rules : Rules) mode outer place position slots,
          (eachItem (rules.walk mode (.object facets fields)) outer place position records slots).run.value
            = (eachItem (fun site =>
                rules.walk mode (.object facets (stands (site.value.getD .null))) site)
                outer place position records slots).run.value := by
  -- the findings are the same, so are the walks, whatever site holds the record
  have hwalk : ∀ {record others}, Node.standIns? record fields = some others →
      ∀ (rules : Rules) mode site slots, site.value = some record →
        (rules.walk mode (.object facets fields) site slots).run.value
          = (rules.walk mode (.object facets others) site slots).run.value := by
    intro record others hothers rules mode site slots hsite
    exact value_walk_congr h (h.of_standIns? hothers) (findings_object_of_standIns? hothers hsite) slots
  constructor
  · intro record hrecord
    obtain ⟨others, hothers⟩ := Node.exists_standIns? hrecord
    have himmediate := Node.IsImmediate.of_standIns? h hothers
    refine ⟨others, hothers, ?_, himmediate, hwalk hothers, ?_⟩
    · intro other hmem
      obtain ⟨field, -, hstand⟩ := Node.exists_mem_of_mem_standIns? hothers hmem
      exact Node.selection?_of_standIn? hstand
    · intro rules
      have hfindings : rules.findings (.object facets fields) (.root record)
          = rules.findings (.object facets others) (.root record) :=
        findings_object_of_standIns? hothers rfl
      have hnow : (rules.validate (.object facets fields) record).value
          = (rules.validate (.object facets others) record).value := by
        rw [value_validate_of_immediate rules record ((Node.firstSuspended?_eq_none_iff .root _).2 h),
          value_validate_of_immediate rules record
            ((Node.firstSuspended?_eq_none_iff .root _).2 himmediate), hfindings]
      -- waiting decides on what was found, so it follows from the findings as well
      refine ⟨hnow, ?_⟩
      rw [validateWaiting_eq, validateWaiting_eq, hfindings]
  · intro records stands hrecords rules mode outer place position slots
    refine value_eachItem_congr ?_ position slots
    intro record hmem position slots
    exact hwalk (hrecords record hmem) rules mode _ slots rfl

/-- A parcel: a box says its size if it is large, and a tube says it always. -/
def parcel : Node :=
  .object {} [
    ("kind", .leaf .string {}),
    ("large", .leaf .boolean {}),
    ("size", .matching {} "kind" [
      ("box", .switch {} "large" (.leaf .integer { required := true }) none),
      ("tube", .leaf .number { required := true })])]

theorem standIns_are_transparent_parcel :
    let record := Json.object [("kind", .string "box"), ("large", .bool true), ("note", .null)]
    let rules := ofConfig { allowUnknownFields := false }
    let stand := Node.object {} [
      ("kind", .leaf .string {}),
      ("large", .leaf .boolean {}),
      ("size", .leaf .integer { required := true })]
    (rules.validate parcel record).value = (rules.validate stand record).value
      ∧ (rules.validate parcel record).value.toOption.map
          (fun report => report.errors.map fun error => (error.place, error.keyword))
        = some [("size", "required"), ("note", "unknown")] := by
  intro record rules stand
  have himmediate : parcel.IsImmediate := (Node.firstSuspended?_eq_none_iff .root parcel).1 rfl
  have hstand : ∀ {type facets}, (Node.leaf type facets).standIn? record = some (.leaf type facets) :=
    fun {type facets} => Node.standIn?_eq record (.leaf type facets)
  have hsize : (Node.matching {} "kind" [
      ("box", .switch {} "large" (.leaf .integer { required := true }) none),
      ("tube", .leaf .number { required := true })]).standIn? record
        = some (.leaf .integer { required := true }) :=
    (Node.standIn?_eq record _).trans ((Node.standIn?_eq record _).trans hstand)
  obtain ⟨others, hothers, -, -, -, hreports⟩ := (standIns_are_transparent himmediate).1 record
    (List.forall_mem_cons.2 ⟨Node.not_fails_of_standIn? hstand, List.forall_mem_cons.2
      ⟨Node.not_fails_of_standIn? hstand,
        List.forall_mem_singleton.2 (Node.not_fails_of_standIn? hsize)⟩⟩)
  have heq : Node.object {} others = stand := by
    rw [Node.standIns?, List.mapM_cons, List.mapM_cons, List.mapM_cons, hstand, hstand, hsize] at hothers
    rw [← Option.some.inj hothers]
    rfl
  rw [heq] at hreports
  exact ⟨(hreports rules).1, by decide +kernel⟩

end Rules

end Conform
