import Conform.Proofs.Limits
import Conform.Proofs.Ordering
import Conform.Proofs.Rounding
import Conform.Schema

/-! # Places of errors — every error points into the document

    A place is followed from the root of a document, step by step.  A site STANDS in
    the document when its value is what is found there; the parts of a node stand where
    the node stands, whatever branches and unions lie between.  So the place that an
    error names can be followed: a missing value is not there, and whatever else is
    refused is, with the measure that breaks the stated limit. -/

namespace Conform

/-! ## Following a place -/

namespace Json

/-- What one step leads to. -/
def step? (value : Json) : Step → Option Json
  | .key name => value.member? name
  | .index position => (Rules.itemsOf value)[position]?
  | .items => none

/-- What the steps lead to, one after the other. -/
def at? (whole : Json) (steps : List Step) : Option Json := steps.foldlM step? whole

/-- Following one more step starts from what was found so far. -/
theorem at?_concat (whole : Json) (steps : List Step) (step : Step) :
    whole.at? (steps ++ [step]) = (whole.at? steps).bind fun value => value.step? step := by
  unfold at?
  rw [List.foldlM_append]
  cases steps.foldlM step? whole with
  | none => rfl
  | some value => exact bind_pure (value.step? step)

/-- The measure of a value: its code points, its items, its members, or the number. -/
def measure? : Json → Option Binary64
  | .string text => some (.ofNat text.length)
  | .array items => some (.ofNat items.length)
  | .object members => some (.ofNat members.length)
  | value => value.asBinary64?

/-- What a measure makes of a value is the only measure of the value. -/
theorem measure?_of_of? {measure : Measure} {value : Json} {measured : Binary64}
    (h : measure.of? value = some measured) : value.measure? = some measured := by
  cases measure with
  | length =>
      cases value with
      | string text => exact h
      | _ => exact nomatch h
  | value =>
      cases value with
      | integer n => exact h
      | float x => exact h
      | _ => exact nomatch h
  | items =>
      cases value with
      | array items => exact h
      | _ => exact nomatch h
  | properties =>
      cases value with
      | object members => exact h
      | _ => exact nomatch h

end Json

/-! ## Limits -/

theorem Binary64.eq_symm (x y : Binary64) : Binary64.eq x y = Binary64.eq y x := by
  cases x with
  | nan => cases y <;> rfl
  | infinite a =>
      cases y with
      | infinite b => exact Bool.beq_comm
      | nan => rfl
      | finite y => rfl
  | finite x =>
      cases y with
      | finite y => exact decide_eq_decide.2 eq_comm
      | nan => rfl
      | infinite b => rfl

/-- A measured number violates a limit in the sense of a keyword, strictly or not. -/
inductive Violates : (keyword : String) → (exclusive : Bool) → (measured limit : Binary64) → Prop
  | below {measured limit : Binary64} (h : Binary64.lt measured limit = true) :
      Violates "min" false measured limit
  | notAbove {measured limit : Binary64} (h : Binary64.le measured limit = true) :
      Violates "min" true measured limit
  | above {measured limit : Binary64} (h : Binary64.lt limit measured = true) :
      Violates "max" false measured limit
  | notBelow {measured limit : Binary64} (h : Binary64.le limit measured = true) :
      Violates "max" true measured limit
  | unequal {measured limit : Binary64} (h : Binary64.eq measured limit = false) :
      Violates "equal" false measured limit
  | otherCount {measured limit : Binary64} (h : Binary64.eq measured limit = false) :
      Violates "length" false measured limit

/-- What a clause finds broken is violated. -/
theorem Clause.violates_of_check {clause : Clause} {measured : Binary64} {breach : Breach}
    (h : clause.check measured = some breach) :
    Violates breach.keyword breach.exclusive measured breach.limit := by
  cases clause with
  | range least most =>
      unfold check at h
      dsimp only at h
      cases hleast : least.filter fun bound => Binary64.lt measured bound with
      | some bound =>
          rw [hleast] at h
          obtain rfl := Option.some.inj h
          exact .below (Option.filter_eq_some_iff.1 hleast).2
      | none =>
          rw [hleast] at h
          obtain ⟨bound, hmost, rfl⟩ := Option.map_eq_some_iff.1 h
          exact .above (Option.filter_eq_some_iff.1 hmost).2
  | above bound =>
      obtain ⟨hbroken, heq⟩ := Option.ite_none_right_eq_some.1 h
      obtain rfl := Option.some.inj heq
      exact .notAbove hbroken
  | atLeast bound =>
      obtain ⟨hbroken, heq⟩ := Option.ite_none_right_eq_some.1 h
      obtain rfl := Option.some.inj heq
      exact .below hbroken
  | below bound =>
      obtain ⟨hbroken, heq⟩ := Option.ite_none_right_eq_some.1 h
      obtain rfl := Option.some.inj heq
      exact .notBelow hbroken
  | atMost bound =>
      obtain ⟨hbroken, heq⟩ := Option.ite_none_right_eq_some.1 h
      obtain rfl := Option.some.inj heq
      exact .above hbroken
  | equalTo bound =>
      obtain ⟨hbroken, heq⟩ := Option.ite_none_left_eq_some.1 h
      obtain rfl := Option.some.inj heq
      exact .unequal (Bool.eq_false_iff.2 hbroken)
  | exactly count =>
      obtain ⟨hbroken, heq⟩ := Option.ite_none_left_eq_some.1 h
      obtain rfl := Option.some.inj heq
      exact .otherCount (Bool.eq_false_iff.2 hbroken)

/-- Limits of one value are violated alike. -/
theorem Violates.congr {keyword : String} {exclusive : Bool} {measured : Binary64}
    {x y : Binary64.Finite} (hscaled : y.scaled = x.scaled)
    (h : Violates keyword exclusive measured (.finite x)) :
    Violates keyword exclusive measured (.finite y) := by
  obtain ⟨hle, hle', hlt, hlt', heq⟩ := Binary64.compare_congr hscaled measured
  cases h with
  | below h => exact .below (hlt'.trans h)
  | notAbove h => exact .notAbove (hle'.trans h)
  | above h => exact .above (hlt.trans h)
  | notBelow h => exact .notBelow (hle.trans h)
  | unequal h =>
      rw [Binary64.eq_symm] at h
      exact .unequal ((Binary64.eq_symm _ _).trans (heq.trans h))
  | otherCount h =>
      rw [Binary64.eq_symm] at h
      exact .otherCount ((Binary64.eq_symm _ _).trans (heq.trans h))

/-! ## Own faults -/

namespace OwnFault

/-- The keyword that an error about this fault carries. -/
def keyword : OwnFault → String
  | .format _ => "format"
  | .choices => "enum"
  | .clause _ breach => breach.keyword
  | .pattern _ => "pattern"

variable {base : BaseType} {value : Json} {fault : OwnFault}

/-- A type complains about nothing but its own format. -/
theorem exists_format_of_ofFormat? (h : ofFormat? base value = some fault) :
    ∃ format, fault = .format format := by
  unfold ofFormat? at h
  split at h
  · obtain ⟨-, heq⟩ := Option.ite_none_left_eq_some.1 h
    exact ⟨_, (Option.some.inj heq).symm⟩
  · exact nomatch h

theorem eq_choices_of_ofChoices? {literals : List Literal}
    (h : ofChoices? literals value = some fault) : fault = .choices :=
  (Option.some.inj (Option.ite_none_left_eq_some.1 h).2).symm

/-- A fault against a clause is about the measure of the value. -/
theorem exists_clause_of_ofClause? {bound : Option Clause}
    (h : ofClause? base bound value = some fault) :
    ∃ clause measure measured breach, bound = some clause ∧ fault = .clause measure breach
      ∧ value.measure? = some measured ∧ Clause.check clause measured = some breach := by
  unfold ofClause? at h
  obtain ⟨clause, hclause, h⟩ := Option.bind_eq_some_iff.1 h
  obtain ⟨measure, -, h⟩ := Option.bind_eq_some_iff.1 h
  obtain ⟨measured, hmeasured, h⟩ := Option.bind_eq_some_iff.1 h
  obtain ⟨breach, hbreach, h⟩ := Option.bind_eq_some_iff.1 h
  exact ⟨clause, measure, measured, breach, hclause, (Option.some.inj h).symm,
    Json.measure?_of_of? hmeasured, hbreach⟩

/-- A value that does not match is a fault that names the pattern. -/
theorem exists_pattern_of_ofPattern? {pattern : Option Pattern}
    (h : ofPattern? pattern value = some fault) : ∃ source, fault = .pattern source := by
  unfold ofPattern? at h
  split at h
  · obtain ⟨-, heq⟩ := Option.ite_none_left_eq_some.1 h
    exact ⟨_, (Option.some.inj heq).symm⟩
  · exact nomatch h

/-- The faults of a node come from its four checks. -/
theorem mem_ownFaults_iff {node : Node} :
    fault ∈ node.ownFaults value
      ↔ ofFormat? node.base value = some fault
        ∨ ofChoices? node.facets.choices value = some fault
        ∨ ofClause? node.base node.facets.clause value = some fault
        ∨ ofPattern? node.facets.pattern value = some fault := by
  unfold Node.ownFaults
  rw [List.mem_filterMap]
  simp only [List.mem_cons, List.not_mem_nil, or_false, id_eq, exists_eq_or_imp, exists_eq_left]

end OwnFault

/-! ## What an error says of the document -/

namespace FieldError

/-- The keywords of errors that state a limit. -/
def limitKeywords : List String := ["min", "max", "length", "equal"]

/-- The keywords of errors about a value that is there. -/
def valueKeywords : List String :=
  limitKeywords ++ ["type", "enum", "format", "pattern", "unknown", "custom"]

/-- The keywords of errors. -/
def keywords : List String := "required" :: "conditional" :: valueKeywords

/-- The measure of a value violates the limit that the error states; whether the limit
    itself is allowed is stated with the two keywords for which it matters.  A limit is
    stated as a number if it is finite, and that number is violated just as well. -/
def LimitBroken (error : FieldError) (value : Json) : Prop :=
  ∃ measured limit exclusive,
    value.measure? = some measured
      ∧ Violates error.keyword exclusive measured limit
      ∧ Members.valueOf? error.params "limit" = some (Json.ofNumber limit)
      ∧ (error.keyword = "min" ∨ error.keyword = "max" →
          Members.valueOf? error.params "exclusive" = some (.bool exclusive))
      ∧ ∀ x, limit = .finite x → ∃ stated, (Json.ofNumber limit).asBinary64? = some stated
          ∧ Violates error.keyword exclusive measured stated

/-- The error names a place, and what it says holds of the document there. -/
structure PointsInto (error : FieldError) (whole : Json) (place : Place) : Prop where
  text : error.place = place.text
  definite : Step.items ∉ place.steps
  held : (whole.at? place.steps.dropLast).isSome = true
  known : error.keyword ∈ keywords
  missing : error.keyword = "required" → ∀ value, whole.at? place.steps = some value →
    value.isNull = true
  present : error.keyword ≠ "required" → error.keyword ≠ "conditional" →
    ∃ value, whole.at? place.steps = some value
      ∧ (error.keyword ∈ limitKeywords → error.LimitBroken value)

end FieldError

theorem Breach.keyword_mem_limitKeywords (breach : Breach) :
    breach.keyword ∈ FieldError.limitKeywords := by
  cases breach <;> simp [Breach.keyword, FieldError.limitKeywords]

/-! ## Sites in the document -/

/-- What is found at the place of a site is the value of the site. -/
structure Site.StandsIn (site : Site) (whole : Json) : Prop where
  value : site.value = whole.at? site.place.steps
  held : (whole.at? site.place.steps.dropLast).isSome = true
  definite : Step.items ∉ site.place.steps

theorem Site.standsIn_root (whole : Json) : (Site.root whole).StandsIn whole :=
  ⟨rfl, rfl, nofun⟩

section

variable {whole value : Json} {site : Site}

/-- A step from a site leads where the step leads in the value of the site. -/
theorem Site.StandsIn.at?_concat (h : site.StandsIn whole) (hvalue : site.value = some value)
    (step : Step) : whole.at? (site.place.steps ++ [step]) = value.step? step := by
  rw [Json.at?_concat, ← h.value, hvalue]
  rfl

/-- One step from a value in the document is in the document. -/
theorem Site.StandsIn.step {below : Site} {step : Step} (h : site.StandsIn whole)
    (hvalue : site.value = some value) (hfound : below.value = value.step? step)
    (hplace : below.place.steps = site.place.steps ++ [step]) (hstep : step ≠ .items) :
    below.StandsIn whole where
  value := by rw [hplace, hfound, h.at?_concat hvalue]
  held := by
    rw [hplace, List.dropLast_concat, ← h.value, hvalue]
    rfl
  definite := by
    rw [hplace, List.mem_append, List.mem_singleton]
    exact fun hitems => hitems.elim h.definite fun heq => hstep heq.symm

theorem Node.value_of_present? {node : Node} (h : node.present? site = some value) :
    site.value = some value :=
  (Option.filter_eq_some_iff.1 h).1

/-- A value that is not present is absent or null. -/
theorem Node.isNull_of_not_present {node : Node} (h : node.present? site = none)
    (hvalue : site.value = some value) : value.isNull = true := by
  unfold Node.present? at h
  rw [hvalue, Option.filter_some] at h
  cases hnull : value.isNull with
  | true => rfl
  | false =>
      rw [hnull] at h
      exact nomatch h

namespace Rules

variable {rules : Rules} {node : Node}

/-- A step to an item, or to a field of the node. -/
def Descends (node : Node) (step : Step) : Prop :=
  (∃ position, step = .index position) ∨ ∃ name ∈ node.fieldNames, step = .key name

/-- A part is checked where its node is, or one step further down: at an item, or at the
    member that one of the fields names. -/
theorem step_of_part {part : Node} {partSite : Site} (h : rules.Part node site part partSite) :
    partSite = site ∨ ∃ value step, site.value = some value
      ∧ partSite.value = value.step? step
      ∧ partSite.place.steps = site.place.steps ++ [step]
      ∧ Descends node step := by
  cases h with
  | field hvalue hfits hmem =>
      exact .inr ⟨_, .key _, Node.value_of_present? hvalue, rfl, rfl,
        .inr ⟨_, List.mem_map_of_mem hmem, rfl⟩⟩
  | item hvalue hfits hmem =>
      exact .inr ⟨_, .index _, Node.value_of_present? hvalue,
        (List.mem_zipIdx_iff_getElem?.1 hmem).symm, rfl, .inl ⟨_, rfl⟩⟩
  | agreed hvalue hagreed => exact .inl rfl
  | closest hvalue hrefused hclosest => exact .inl rfl
  | case hpick => exact .inl rfl
  | side hpick => exact .inl rfl
  | target hselect => exact .inl rfl

/-- **THE PARTS OF A NODE STAND** where the node stands. -/
theorem standsIn_of_part {part : Node} {partSite : Site} (h : rules.Part node site part partSite)
    (hsite : site.StandsIn whole) : partSite.StandsIn whole := by
  rcases step_of_part h with rfl | ⟨value, step, hvalue, hfound, hplace, hstep⟩
  · exact hsite
  · refine hsite.step hvalue hfound hplace ?_
    rcases hstep with ⟨position, rfl⟩ | ⟨name, -, rfl⟩
    · exact nofun
    · exact nofun

/-- What is kept for a node stands in the document as the node does. -/
theorem standsIn_of_keeps {kept : Node} {keptSite : Site}
    (h : rules.Keeps node site kept keptSite) (hsite : site.StandsIn whole) :
    keptSite.StandsIn whole := by
  induction h with
  | here node site => exact hsite
  | step hpart hkept ih => exact ih (standsIn_of_part hpart hsite)

/-! ## Errors of a node -/

/-- An error about a value that stands in the document points at it. -/
theorem pointsInto_of_value {error : FieldError} (keyword : String) (hsite : site.StandsIn whole)
    (hvalue : site.value = some value) (hplace : error.place = site.place.text)
    (hkeyword : error.keyword = keyword) (hknown : keyword ∈ FieldError.valueKeywords)
    (hlimit : keyword ∈ FieldError.limitKeywords → error.LimitBroken value) :
    error.PointsInto whole site.place where
  text := hplace
  definite := hsite.definite
  held := hsite.held
  known := List.mem_cons_of_mem _ (List.mem_cons_of_mem _ (hkeyword ▸ hknown))
  missing := by
    intro hrequired
    rw [← hkeyword, hrequired] at hknown
    exact absurd hknown (by decide)
  present := fun _ _ => ⟨value, hsite.value.symm.trans hvalue, fun h => hlimit (hkeyword ▸ h)⟩

/-- An error that states no limit says only that the value is there. -/
theorem pointsInto_of_unlimited {error : FieldError} (keyword : String)
    (hsite : site.StandsIn whole) (hvalue : site.value = some value)
    (hplace : error.place = site.place.text) (hkeyword : error.keyword = keyword)
    (hknown : keyword ∈ FieldError.valueKeywords ∧ keyword ∉ FieldError.limitKeywords) :
    error.PointsInto whole site.place :=
  pointsInto_of_value keyword hsite hvalue hplace hkeyword hknown.1 fun h => absurd h hknown.2

/-- A required value that is missing points to where it is missing. -/
theorem pointsInto_missing (hsite : site.StandsIn whole) (h : node.present? site = none) :
    (rules.missing node site.place).PointsInto whole site.place where
  text := rfl
  definite := hsite.definite
  held := hsite.held
  known := List.mem_cons_self
  missing := fun _ _ hvalue => Node.isNull_of_not_present h (hsite.value.trans hvalue)
  present := fun h => absurd rfl h

/-- A chain that fails points to the place of the chain. -/
theorem pointsInto_failing {holder : Option Node} {message : String} (hsite : site.StandsIn whole) :
    (rules.failing holder site.place message).PointsInto whole site.place where
  text := rfl
  definite := hsite.definite
  held := hsite.held
  known := List.mem_cons_of_mem _ List.mem_cons_self
  missing := fun h => absurd (show "conditional" = "required" from h) (by decide)
  present := fun _ h => absurd rfl h

/-- **A BROKEN CLAUSE IS NAMED** with the limit that the value violates. -/
theorem limitBroken_of_check {clause : Clause} {measure : Measure} {measured : Binary64}
    {breach : Breach} (place : Place) (hmeasured : value.measure? = some measured)
    (hbreach : clause.check measured = some breach) :
    (rules.broken node place (.clause measure breach)).LimitBroken value := by
  have hviolates := Clause.violates_of_check hbreach
  refine ⟨measured, breach.limit, breach.exclusive, hmeasured, hviolates, rfl, fun hends => ?_,
    fun x hx => ?_⟩
  · cases breach with
    | least limit exclusive => rfl
    | most limit exclusive => rfl
    | equal limit =>
        have hneither : ¬("equal" = "min" ∨ "equal" = "max") := by decide
        exact absurd hends hneither
    | count limit =>
        have hneither : ¬("length" = "min" ∨ "length" = "max") := by decide
        exact absurd hends hneither
  · obtain ⟨y, hstated, hscaled⟩ := Json.asBinary64?_ofNumber x
    rw [hx] at hviolates ⊢
    exact ⟨_, hstated, hviolates.congr hscaled⟩

/-- The faults of a node point to its value, and state what was measured of it. -/
theorem pointsInto_broken {fault : OwnFault} (hsite : site.StandsIn whole)
    (hvalue : site.value = some value) (hfault : fault ∈ node.ownFaults value) :
    (rules.broken node site.place fault).PointsInto whole site.place := by
  rcases OwnFault.mem_ownFaults_iff.1 hfault with hformat | hchoices | hclause | hpattern
  · obtain ⟨format, rfl⟩ := OwnFault.exists_format_of_ofFormat? hformat
    exact pointsInto_of_unlimited "format" hsite hvalue rfl rfl (by decide)
  · obtain rfl := OwnFault.eq_choices_of_ofChoices? hchoices
    exact pointsInto_of_unlimited "enum" hsite hvalue rfl rfl (by decide)
  · obtain ⟨clause, measure, measured, breach, -, rfl, hmeasured, hbreach⟩ :=
      OwnFault.exists_clause_of_ofClause? hclause
    exact pointsInto_of_value breach.keyword hsite hvalue rfl rfl
      (List.mem_append_left _ breach.keyword_mem_limitKeywords)
      fun _ => limitBroken_of_check site.place hmeasured hbreach
  · obtain ⟨source, rfl⟩ := OwnFault.exists_pattern_of_ofPattern? hpattern
    exact pointsInto_of_unlimited "pattern" hsite hvalue rfl rfl (by decide)

/-! ## Slots of a node -/

/-- What comes first at a node points to its place. -/
theorem pointsInto_of_mem_opening {slot : Slot} {error : FieldError} (hsite : site.StandsIn whole)
    (hslot : slot ∈ rules.opening node site) (herror : rules.outcome? slot = some error) :
    error.PointsInto whole site.place := by
  obtain ⟨found, rfl, hfound⟩ := exists_openingError hslot
  obtain rfl := Option.some.inj herror
  cases hfound with
  | missing habsent => exact pointsInto_missing hsite habsent
  | wrongType hvalue =>
      exact pointsInto_of_unlimited "type" hsite (Node.value_of_present? hvalue) rfl rfl (by decide)
  | noMember hvalue members =>
      exact pointsInto_of_unlimited "type" hsite (Node.value_of_present? hvalue) rfl rfl (by decide)
  | broken hvalue hfault => exact pointsInto_broken hsite (Node.value_of_present? hvalue) hfault
  | failing message => exact pointsInto_failing hsite

/-- A member that no field names is there. -/
theorem pointsInto_unknown {name : String} (hsite : site.StandsIn whole)
    (hvalue : site.value = some value) (hname : name ∈ Members.names (membersOf value)) :
    (rules.unknown (site.place.key name)).PointsInto whole (site.place.key name) := by
  have hinner : ∃ inner, value.step? (.key name) = some inner := by
    cases value with
    | object members => exact Option.isSome_iff_exists.1 (Members.hasName_iff_mem_names.2 hname)
    | _ => exact nomatch hname
  obtain ⟨inner, hinner⟩ := hinner
  have hbelow : Site.StandsIn ⟨some inner, none, site.place.key name⟩ whole :=
    hsite.step hvalue hinner.symm rfl nofun
  exact pointsInto_of_unlimited "unknown" hbelow rfl rfl rfl (by decide)

/-- What comes last at a node points to its place, or to an unknown member in its value. -/
theorem exists_pointsInto_of_mem_closing {slot : Slot} {error : FieldError}
    (hsite : site.StandsIn whole) (hslot : slot ∈ rules.closing node site)
    (herror : rules.outcome? slot = some error) : ∃ place, error.PointsInto whole place := by
  obtain ⟨value, hpresent, hslot⟩ := mem_closing hslot
  have hvalue := Node.value_of_present? hpresent
  rcases hslot with ⟨name, hname, -, rfl⟩ | ⟨-, hcustom⟩
  · obtain rfl := Option.some.inj herror
    exact ⟨_, pointsInto_unknown hsite hvalue hname⟩
  · -- an objection, at once or late, is made where the value is
    obtain ⟨hplace, hkeyword⟩ := place_keyword_of_outcome? herror
    obtain ⟨hslotPlace, hslotKeyword⟩ := place_keyword_of_mem_customs hcustom
    exact ⟨_, pointsInto_of_unlimited "custom" hsite hvalue (hplace.trans hslotPlace)
      (hkeyword.trans hslotKeyword) (by decide)⟩

/-! ## Errors of a report -/

/-- **EVERY ERROR OF A REPORT POINTS INTO THE DOCUMENT**, at once and with waiting: it
    names a place that can be followed from the root, save perhaps the last step.  A
    missing value is absent there or null; every other value is there, but for the
    message of a chain, and its measure violates the limit that is stated. -/
theorem errors_point_into_document (node : Node) (whole : Json) {report : Report}
    (h : (rules.validate node whole).value = .ok report
      ∨ (rules.validateWaiting node whole).value = .ok report) :
    ∀ error ∈ report.errors, ∃ place, error.PointsInto whole place := by
  intro error hmem
  obtain ⟨slots, hslots, herrors⟩ := exists_sublist_of_report h
  rw [herrors] at hmem
  obtain ⟨slot, hslot, herror⟩ := List.mem_filterMap.1 hmem
  obtain ⟨kept, site, hkept, hslot⟩ := exists_keeps_of_mem_findings (hslots.subset hslot)
  have hsite := standsIn_of_keeps hkept (Site.standsIn_root whole)
  rcases hslot with hopening | hclosing
  · exact ⟨_, pointsInto_of_mem_opening hsite hopening herror⟩
  · exact exists_pointsInto_of_mem_closing hsite hclosing herror

/-- An object whose tags are texts of three characters or more. -/
def longTags : Node :=
  .object {} [("tags", .array {} (some (.leaf .string { clause := some (.atLeast (.ofNat 3)) })))]

/-- A tag that is too short is found again by the index in its error. -/
theorem short_tag_points_into_document :
    let whole := Json.object [("tags", .array [.string "abc", .string "a"])]
    ∃ report, ((ofConfig {}).validate longTags whole).value = .ok report
      ∧ report.errors.map (fun error => (error.place, error.keyword)) = [("tags[1]", "min")]
      ∧ ∀ error ∈ report.errors, ∃ place, error.PointsInto whole place := by
  intro whole
  have hnow : longTags.firstSuspended? .root = none := rfl
  have hreport := value_validate_of_immediate (ofConfig {}) whole hnow
  exact ⟨_, hreport, by decide +kernel, errors_point_into_document longTags whole (.inl hreport)⟩

end Rules

end

end Conform
