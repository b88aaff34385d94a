import Conform.Proofs.Places
import Conform.Proofs.ErrorPlaces

/-! # Distinctness — no error is reported twice

    What a node finds lies WITHIN the place of its site: at the place itself or below it.
    Its own errors are at the place, each with a keyword of its own; what its fields or
    items find lies below, each under a step of its own, and the members that no field
    names are at steps that no field has.  A union settles on one member and a branch on
    one target, and neither adds errors of its own to theirs.  So two errors of one place
    have different keywords, unless they are objections of custom checks. -/

namespace Conform

/-! ## Plain names -/

/-- Names that differ from each other and end where a mark or the text does. -/
structure PlainNames (names : List String) : Prop where
  nodup : names.Nodup
  plain : ∀ name ∈ names, PlainName name

instance (names : List String) : Decidable (PlainNames names) :=
  decidable_of_iff (names.Nodup ∧ ∀ name ∈ names, PlainName name)
    ⟨fun h => ⟨h.1, h.2⟩, fun h => ⟨h.nodup, h.plain⟩⟩

/-- The fields of every object in the tree have plain names. -/
def Node.IsPlain (node : Node) : Prop := node.Every fun node => PlainNames node.fieldNames

/-- The members of every object in the value have plain names. -/
def Json.IsPlain (value : Json) : Prop :=
  value.Every fun value => PlainNames (Members.names (Rules.membersOf value))

/-- The place is one of plain names, and the value has only such members. -/
structure Site.IsPlain (site : Site) : Prop where
  steps : ∀ step ∈ site.place.steps, step.IsPlain
  value : ∀ value, site.value = some value → value.IsPlain

/-- What one step leads to is one of the values that a value holds. -/
theorem Json.mem_children_of_step? {value found : Json} {step : Step}
    (h : value.step? step = some found) : found ∈ value.children := by
  cases step with
  | key name => exact mem_children_of_member? h
  | index position =>
      cases value with
      | array items => exact List.mem_of_getElem? h
      | _ => exact nomatch h
  | items => exact nomatch h

/-! ## Slots by place and keyword -/

namespace Slot

variable {slot other : Slot} {steps : List Step}

/-- If the slots agree in place and keyword, they are of custom checks. -/
def Apart (slot other : Slot) : Prop :=
  slot.place = other.place → slot.keyword = other.keyword → slot.keyword = "custom"

/-- The slot is at the place that the steps lead to, or below it. -/
def Within (slot : Slot) (steps : List Step) : Prop :=
  ∃ rest : List Step, (∀ step ∈ rest, step.IsPlain) ∧ slot.place = (Place.mk (steps ++ rest)).text

/-- An objection of a custom check is apart from everything before it. -/
theorem apart_of_keyword (h : other.keyword = "custom") : slot.Apart other :=
  fun _ hkeyword => hkeyword.trans h

theorem apart_of_keyword_ne (h : slot.keyword ≠ other.keyword) : slot.Apart other :=
  fun _ hkeyword => absurd hkeyword h

/-- What is at a place is within it. -/
theorem within_of_place_eq (h : slot.place = (Place.mk steps).text) : slot.Within steps :=
  ⟨[], nofun, by rw [List.append_nil, h]⟩

/-- What lies within a part lies within the whole. -/
theorem Within.of_concat {step : Step} (hstep : step.IsPlain) (h : slot.Within (steps ++ [step])) :
    slot.Within steps := by
  obtain ⟨rest, hrest, hplace⟩ := h
  refine ⟨step :: rest, List.forall_mem_cons.2 ⟨hstep, hrest⟩, ?_⟩
  rw [hplace, List.append_assoc]
  rfl

/-- What is at a place is not below it. -/
theorem apart_of_below {step : Step} (hsteps : ∀ step ∈ steps, step.IsPlain) (hstep : step.IsPlain)
    (hslot : slot.place = (Place.mk steps).text) (hother : other.Within (steps ++ [step])) :
    slot.Apart other := by
  obtain ⟨rest, hrest, hplace⟩ := hother
  intro heq
  rw [hslot, hplace] at heq
  have hsame := Place.text_injective hsteps ?_ heq
  · have hlength := congrArg (fun place => place.steps.length) hsame
    simp only [List.length_append, List.length_singleton] at hlength
    omega
  · rw [List.forall_mem_append, List.forall_mem_append, List.forall_mem_singleton]
    exact ⟨⟨hsteps, hstep⟩, hrest⟩

/-- What is below different steps is not at one place. -/
theorem apart_of_steps {step another : Step} (hsteps : ∀ step ∈ steps, step.IsPlain)
    (hstep : step.IsPlain) (hanother : another.IsPlain) (hne : step ≠ another)
    (hslot : slot.Within (steps ++ [step])) (hother : other.Within (steps ++ [another])) :
    slot.Apart other := by
  obtain ⟨rest, hrest, hplace⟩ := hslot
  obtain ⟨others, hothers, hotherPlace⟩ := hother
  intro heq
  rw [hplace, hotherPlace] at heq
  have hsame := Place.text_injective ?_ ?_ heq
  · rw [Place.mk.injEq, List.append_assoc, List.append_assoc, List.append_cancel_left_eq,
      List.singleton_append, List.singleton_append, List.cons.injEq] at hsame
    exact absurd hsame.1 hne
  · rw [List.forall_mem_append, List.forall_mem_append, List.forall_mem_singleton]
    exact ⟨⟨hsteps, hstep⟩, hrest⟩
  · rw [List.forall_mem_append, List.forall_mem_append, List.forall_mem_singleton]
    exact ⟨⟨hsteps, hanother⟩, hothers⟩

end Slot

namespace Rules

variable {rules : Rules} {node : Node} {site : Site}

/-! ## Within the place of a site -/

theorem Descends.isPlain {step : Step} (h : Descends node step) (hnode : node.IsPlain) :
    step.IsPlain := by
  rcases h with ⟨position, rfl⟩ | ⟨name, hname, rfl⟩
  · trivial
  · exact hnode.here.plain name hname

/-- The parts of a plain node stand at plain places. -/
theorem isPlain_of_part {part : Node} {partSite : Site} (h : rules.Part node site part partSite)
    (hnode : node.IsPlain) (hsite : site.IsPlain) : partSite.IsPlain := by
  rcases step_of_part h with rfl | ⟨value, step, hvalue, hfound, hplace, hstep⟩
  · exact hsite
  · refine ⟨?_, fun child hchild => ?_⟩
    · rw [hplace, List.forall_mem_append, List.forall_mem_singleton]
      exact ⟨hsite.steps, Descends.isPlain hstep hnode⟩
    · rw [hfound] at hchild
      exact (hsite.value value hvalue).inside (Json.mem_children_of_step? hchild)

/-- The errors of its own are at the place of the node. -/
theorem place_of_mem_opening {slot : Slot} (h : slot ∈ rules.opening node site) :
    slot.place = site.place.text := by
  obtain ⟨error, rfl, herror⟩ := exists_openingError h
  cases herror with
  | @broken value fault hvalue hfault => cases fault <;> rfl
  | _ => rfl

/-- What closes a node is an objection at its place, or a member without a field. -/
theorem closing_cases {slot : Slot} (hsite : site.IsPlain) (h : slot ∈ rules.closing node site) :
    (slot.place = site.place.text ∧ slot.keyword = "custom")
      ∨ ∃ name, PlainName name ∧ name ∉ node.fieldNames
        ∧ slot.place = (site.place.key name).text ∧ slot.keyword = "unknown" := by
  obtain ⟨value, hpresent, hslot⟩ := mem_closing h
  rcases hslot with ⟨name, hname, hfree, rfl⟩ | ⟨-, hcustom⟩
  · have hplain := (hsite.value value (Node.value_of_present? hpresent)).here.plain name hname
    exact .inr ⟨name, hplain, hfree, rfl, rfl⟩
  · exact .inl (place_keyword_of_mem_customs hcustom)

/-- **FINDINGS LIE WITHIN THE PLACE** of the site. -/
theorem within_of_mem_findings {node : Node} {slot : Slot} :
    ∀ {site : Site}, node.IsPlain → site.IsPlain → slot ∈ rules.findings node site →
      slot.Within site.place.steps := by
  induction node using Node.induction_children with
  | step node ih =>
      intro site hnode hsite h
      rw [findings_eq, List.mem_append, List.mem_append] at h
      rcases h with (hopening | hparts) | hclosing
      · exact Slot.within_of_place_eq (place_of_mem_opening hopening)
      · obtain ⟨part, hmem, hslot⟩ := List.mem_flatMap.1 hparts
        have hpart := part_of_mem_parts hmem
        have hwithin := ih part.1 hpart.mem_children (hnode.inside hpart.mem_children)
          (isPlain_of_part hpart hnode hsite) hslot
        rcases step_of_part hpart with heq | ⟨value, step, -, -, hplace, hstep⟩
        · rw [heq] at hwithin
          exact hwithin
        · rw [hplace] at hwithin
          exact hwithin.of_concat (Descends.isPlain hstep hnode)
      · rcases closing_cases hsite hclosing with ⟨hplace, -⟩ | ⟨name, hname, -, hplace, -⟩
        · exact Slot.within_of_place_eq hplace
        · have hstep : (Step.key name).IsPlain := hname
          exact (Slot.within_of_place_eq hplace).of_concat hstep

/-! ## Parts of one node -/

/-- The parts are checked below different steps. -/
def Parted (site : Site) (part other : Node × Site) : Prop :=
  ∃ step another, step ≠ another ∧ part.2.place.steps = site.place.steps ++ [step]
    ∧ other.2.place.steps = site.place.steps ++ [another]

/-- **THE PARTS OF A VALUE ARE PARTED** by their last step, if the names of the fields differ. -/
theorem pairwise_within (hnames : node.fieldNames.Nodup) (value : Json) :
    (within node site value).Pairwise (Parted site) := by
  cases node with
  | object facets fields =>
      refine List.pairwise_map.2 ((List.pairwise_map.1 hnames).imp fun hne => ?_)
      exact ⟨_, _, fun heq => hne (Step.key.inj heq), rfl, rfl⟩
  | array facets items =>
      cases items with
      | none => exact .nil
      | some child =>
          have hpositions : ((itemsOf value).zipIdx.map Prod.snd).Nodup := by
            rw [List.zipIdx_map_snd]
            exact List.nodup_range'
          rw [within, Option.toList_some, List.flatMap_singleton]
          refine List.pairwise_map.2 ((List.pairwise_map.1 hpositions).imp fun hne => ?_)
          exact ⟨_, _, fun heq => hne (Step.index.inj heq), rfl, rfl⟩
  | _ => exact .nil

/-- A value that is not there, or of another type, has no parts to confuse. -/
theorem pairwise_checked (hnames : node.fieldNames.Nodup) :
    ((node.present? site).toList.flatMap fun value =>
      if node.base.fits value then within node site value else []).Pairwise (Parted site) := by
  cases node.present? site with
  | none => exact .nil
  | some value =>
      rw [Option.toList_some, List.flatMap_singleton]
      split
      · exact pairwise_within hnames value
      · exact .nil

theorem pairwise_picked (picked : Option Node) :
    (picked.toList.map fun target => (target, site)).Pairwise (Parted site) := by
  cases picked with
  | none => exact .nil
  | some target => exact List.pairwise_singleton _ _

/-- The parts of any node are parted. -/
theorem pairwise_parts (hnames : node.fieldNames.Nodup) :
    (rules.parts node site).Pairwise (Parted site) := by
  cases node with
  | leaf type facets => exact pairwise_checked hnames
  | object facets fields => exact pairwise_checked hnames
  | array facets items => exact pairwise_checked hnames
  | union facets members =>
      rw [parts]
      cases (Node.union facets members).present? site with
      | none => exact .nil
      | some value =>
          rw [Option.toList_some, List.flatMap_singleton]
          exact pairwise_picked _
  | matching facets reference cases => exact pairwise_picked _
  | switch facets field yes no => exact pairwise_picked _
  | chain facets body => exact pairwise_picked _

/-- The parts of a checked value stand one step below it. -/
theorem below_of_mem_checked {part : Node × Site}
    (h : part ∈ (node.present? site).toList.flatMap fun value =>
      if node.base.fits value then within node site value else []) :
    ∃ step, part.2.place.steps = site.place.steps ++ [step] ∧ Descends node step := by
  obtain ⟨value, -, hpart⟩ := List.mem_flatMap.1 h
  split at hpart
  · cases node with
    | object facets fields =>
        obtain ⟨field, hfield, rfl⟩ := List.mem_map.1 hpart
        exact ⟨_, rfl, .inr ⟨_, List.mem_map_of_mem hfield, rfl⟩⟩
    | array facets items =>
        obtain ⟨child, -, hitem⟩ := List.mem_flatMap.1 hpart
        obtain ⟨item, -, rfl⟩ := List.mem_map.1 hitem
        exact ⟨_, rfl, .inl ⟨_, rfl⟩⟩
    | _ => exact nomatch hpart
  · exact nomatch hpart

/-- What comes last at a node are objections of custom checks, unless members are unknown. -/
theorem keyword_of_mem_closing {slot : Slot}
    (h : ∀ value, rules.unknownAt node site value = []) (hslot : slot ∈ rules.closing node site) :
    slot.keyword = "custom" := by
  obtain ⟨value, -, hslot⟩ := List.mem_flatMap.1 hslot
  rw [h, List.nil_append] at hslot
  split at hslot
  · exact (place_keyword_of_mem_customs hslot).2
  · exact nomatch hslot

/-- Where parts are checked at the site of the node itself, the node has no errors of its
    own but objections; elsewhere they are checked below it. -/
theorem parts_below_or_alone (node : Node) (site : Site) :
    (∀ part ∈ rules.parts node site, ∃ step,
        part.2.place.steps = site.place.steps ++ [step] ∧ Descends node step)
      ∨ (rules.opening node site = []
        ∧ ∀ slot ∈ rules.closing node site, slot.keyword = "custom") := by
  cases node with
  | leaf type facets => exact .inl fun part => below_of_mem_checked
  | object facets fields => exact .inl fun part => below_of_mem_checked
  | array facets items => exact .inl fun part => below_of_mem_checked
  | union facets members =>
      cases hpresent : (Node.union facets members).present? site with
      | none =>
          refine .inl ?_
          rw [parts, hpresent]
          exact nofun
      | some value =>
          cases hkept : rules.keptMember? members site value with
          | none =>
              refine .inl ?_
              rw [parts, hpresent, Option.toList_some, List.flatMap_singleton, hkept]
              exact nofun
          | some member =>
              refine .inr ⟨?_, fun _ => keyword_of_mem_closing fun _ => rfl⟩
              -- a member was kept, so the union has nothing to report itself
              have hsettled : ((rules.agreed? members site).isNone
                  && (members.find? (Node.fits value)).isNone) = false := by
                unfold keptMember? at hkept
                cases hagreed : rules.agreed? members site with
                | some agreed => rfl
                | none =>
                    rw [hagreed, Option.none_or] at hkept
                    rw [hkept]
                    rfl
              rw [opening, siteFindings_of_present hpresent, hsettled]
              rfl
  | matching facets reference cases => exact .inr ⟨rfl, fun _ => keyword_of_mem_closing fun _ => rfl⟩
  | switch facets field yes no => exact .inr ⟨rfl, fun _ => keyword_of_mem_closing fun _ => rfl⟩
  | chain facets body =>
      cases hselect : (body.select site.context).value with
      | validate target =>
          refine .inr ⟨?_, fun _ => keyword_of_mem_closing fun _ => rfl⟩
          rw [opening, hselect]
          rfl
      | fail message =>
          refine .inl ?_
          rw [parts, hselect]
          exact nofun
      | pass =>
          refine .inl ?_
          rw [parts, hselect]
          exact nofun

/-! ## Own errors -/

/-- The checks of a node's own break under different keywords. -/
theorem pairwise_keyword_ownFaults (node : Node) (value : Json) :
    (node.ownFaults value).Pairwise fun fault other => fault.keyword ≠ other.keyword := by
  have hformat : ∀ fault ∈ OwnFault.ofFormat? node.base value, fault.keyword = "format" := by
    intro fault hfault
    obtain ⟨format, rfl⟩ := OwnFault.exists_format_of_ofFormat? hfault
    rfl
  have hchoices : ∀ fault ∈ OwnFault.ofChoices? node.facets.choices value,
      fault.keyword = "enum" := by
    intro fault hfault
    rw [OwnFault.eq_choices_of_ofChoices? hfault]
    rfl
  have hclause : ∀ fault ∈ OwnFault.ofClause? node.base node.facets.clause value,
      fault.keyword ∈ FieldError.limitKeywords := by
    intro fault hfault
    obtain ⟨clause, measure, measured, breach, -, rfl, -, -⟩ := OwnFault.exists_clause_of_ofClause? hfault
    exact breach.keyword_mem_limitKeywords
  have hpattern : ∀ fault ∈ OwnFault.ofPattern? node.facets.pattern value,
      fault.keyword = "pattern" := by
    intro fault hfault
    obtain ⟨source, rfl⟩ := OwnFault.exists_pattern_of_ofPattern? hfault
    rfl
  have hother : ∀ {keyword : String}, keyword ∈ FieldError.limitKeywords →
      keyword ≠ "format" ∧ keyword ≠ "enum" ∧ keyword ≠ "pattern" := by decide
  unfold Node.ownFaults
  rw [List.pairwise_filterMap]
  simp only [List.pairwise_cons, List.forall_mem_cons, List.not_mem_nil, false_imp_iff,
    implies_true, and_true, List.Pairwise.nil, id_eq]
  -- one goal for each two of the four kinds of faults
  refine ⟨⟨fun a ha b hb => ?_, fun a ha b hb => ?_, fun a ha b hb => ?_⟩,
    ⟨fun a ha b hb => ?_, fun a ha b hb => ?_⟩, fun a ha b hb => ?_⟩
  · rw [hformat a ha, hchoices b hb]
    decide
  · rw [hformat a ha]
    exact (hother (hclause b hb)).1.symm
  · rw [hformat a ha, hpattern b hb]
    decide
  · rw [hchoices a ha]
    exact (hother (hclause b hb)).2.1.symm
  · rw [hchoices a ha, hpattern b hb]
    decide
  · rw [hpattern b hb]
    exact (hother (hclause a ha)).2.2

theorem keyword_broken (node : Node) (place : Place) (fault : OwnFault) :
    (rules.broken node place fault).keyword = fault.keyword := by
  cases fault <;> rfl

/-- What comes first at a node is apart, as each keyword occurs once. -/
theorem pairwise_opening : (rules.opening node site).Pairwise Slot.Apart := by
  have hopens : rules.Opens node site (rules.opening node site) := opens_opening node site
  generalize rules.opening node site = opening at hopens
  cases hopens with
  | nothing => exact .nil
  | missing habsent => exact List.pairwise_singleton _ _
  | wrongType hvalue => exact List.pairwise_singleton _ _
  | noMember hvalue members => exact List.pairwise_singleton _ _
  | broken hvalue =>
      refine List.pairwise_map.2 ((pairwise_keyword_ownFaults node _).imp fun hne => ?_)
      refine Slot.apart_of_keyword_ne ?_
      show (rules.broken _ _ _).keyword ≠ (rules.broken _ _ _).keyword
      rw [keyword_broken, keyword_broken]
      exact hne
  | failing message => exact List.pairwise_singleton _ _

/-- Unknown members are apart, for their names differ. -/
theorem pairwise_unknownAt {value : Json} (hsite : site.IsPlain) (hvalue : site.value = some value) :
    (rules.unknownAt node site value).Pairwise Slot.Apart := by
  have hnames := (hsite.value value hvalue).here
  rcases rules.unknownAt_eq_nil_or node site value with hnone | hsome
  · rw [hnone]
    exact .nil
  · rw [hsome]
    refine List.pairwise_map.2 ((hnames.nodup.filter _).imp_of_mem fun hmem hother hne => ?_)
    have hplain : ∀ {name : String}, name ∈ (Members.names (membersOf value)).filter
        (fun name => !node.fieldNames.contains name) → (Step.key name).IsPlain :=
      fun hmem => hnames.plain _ (List.mem_filter.1 hmem).1
    exact Slot.apart_of_steps hsite.steps (hplain hmem) (hplain hother)
      (fun heq => hne (Step.key.inj heq)) (Slot.within_of_place_eq rfl) (Slot.within_of_place_eq rfl)

/-- What comes last at a node is apart. -/
theorem pairwise_closing (hsite : site.IsPlain) :
    (rules.closing node site).Pairwise Slot.Apart := by
  unfold closing
  cases hpresent : node.present? site with
  | none => exact .nil
  | some value =>
      have hcustom : ∀ slot ∈ (if rules.passes node site value then
          rules.allCustomFindings node site.place value else []), slot.keyword = "custom" := by
        intro slot hslot
        split at hslot
        · exact (place_keyword_of_mem_customs hslot).2
        · exact nomatch hslot
      rw [Option.toList_some, List.flatMap_singleton, List.pairwise_append]
      refine ⟨pairwise_unknownAt hsite (Node.value_of_present? hpresent), ?_, ?_⟩
      · exact List.pairwise_of_forall_mem_list fun slot _ other hother =>
          Slot.apart_of_keyword (hcustom other hother)
      · exact fun slot _ other hother => Slot.apart_of_keyword (hcustom other hother)

/-! ## All findings -/

/-- What a part finds is within the place where the part is checked. -/
theorem within_of_mem_part {part : Node × Site} {slot : Slot} (hnode : node.IsPlain)
    (hsite : site.IsPlain) (hpart : part ∈ rules.parts node site)
    (hslot : slot ∈ rules.findings part.1 part.2) : slot.Within part.2.place.steps :=
  within_of_mem_findings (hnode.inside (part_of_mem_parts hpart).mem_children)
    (isPlain_of_part (part_of_mem_parts hpart) hnode hsite) hslot

theorem isPlain_step_of_part {part : Node × Site} {step : Step} (hnode : node.IsPlain)
    (hsite : site.IsPlain) (hpart : part ∈ rules.parts node site)
    (hplace : part.2.place.steps = site.place.steps ++ [step]) : step.IsPlain := by
  have hplain := (isPlain_of_part (part_of_mem_parts hpart) hnode hsite).steps
  rw [hplace] at hplain
  exact hplain step (List.mem_append_right _ List.mem_cons_self)

/-- Whatever is found in two parts is apart if the parts are. -/
theorem apart_of_parted {part other : Node × Site} (hnode : node.IsPlain) (hsite : site.IsPlain)
    (hpart : part ∈ rules.parts node site) (hother : other ∈ rules.parts node site)
    (h : Parted site part other) :
    ∀ slot ∈ rules.findings part.1 part.2, ∀ another ∈ rules.findings other.1 other.2,
      slot.Apart another := by
  obtain ⟨step, last, hne, hplace, hotherPlace⟩ := h
  intro slot hslot another hanother
  exact Slot.apart_of_steps hsite.steps (isPlain_step_of_part hnode hsite hpart hplace)
    (isPlain_step_of_part hnode hsite hother hotherPlace) hne
    (hplace ▸ within_of_mem_part hnode hsite hpart hslot)
    (hotherPlace ▸ within_of_mem_part hnode hsite hother hanother)

/-- A node's own errors are not those of its parts. -/
theorem apart_opening_parts (hnode : node.IsPlain) (hsite : site.IsPlain) :
    ∀ slot ∈ rules.opening node site,
      ∀ other ∈ (rules.parts node site).flatMap (fun part => rules.findings part.1 part.2),
        slot.Apart other := by
  intro slot hslot other hother
  obtain ⟨part, hpart, hother⟩ := List.mem_flatMap.1 hother
  rcases parts_below_or_alone node site with hbelow | ⟨halone, -⟩
  · obtain ⟨step, hplace, hstep⟩ := hbelow part hpart
    exact Slot.apart_of_below hsite.steps (hstep.isPlain hnode) (place_of_mem_opening hslot)
      (hplace ▸ within_of_mem_part hnode hsite hpart hother)
  · rw [halone] at hslot
    exact nomatch hslot

/-- Nor are they those of members without a field, which no part is about. -/
theorem apart_closing (hnode : node.IsPlain) (hsite : site.IsPlain) :
    ∀ slot ∈ rules.opening node site
        ++ (rules.parts node site).flatMap (fun part => rules.findings part.1 part.2),
      ∀ other ∈ rules.closing node site, slot.Apart other := by
  intro slot hslot other hother
  rcases closing_cases hsite hother with ⟨-, hcustom⟩ | ⟨name, hname, hfree, hplace, hunknown⟩
  · exact Slot.apart_of_keyword hcustom
  · have hkey : (Step.key name).IsPlain := hname
    rcases List.mem_append.1 hslot with hopening | hparts
    · exact Slot.apart_of_below hsite.steps hkey (place_of_mem_opening hopening)
        (Slot.within_of_place_eq hplace)
    · obtain ⟨part, hpart, hslot⟩ := List.mem_flatMap.1 hparts
      rcases parts_below_or_alone node site with hbelow | ⟨-, halone⟩
      · obtain ⟨step, hpartPlace, hstep⟩ := hbelow part hpart
        have hne : step ≠ .key name := by
          rintro rfl
          rcases hstep with ⟨position, heq⟩ | ⟨field, hfield, heq⟩
          · exact nomatch heq
          · exact hfree (Step.key.inj heq ▸ hfield)
        exact Slot.apart_of_steps hsite.steps (hstep.isPlain hnode) hkey hne
          (hpartPlace ▸ within_of_mem_part hnode hsite hpart hslot) (Slot.within_of_place_eq hplace)
      · exact Slot.apart_of_keyword (halone other hother)

/-- **THE FINDINGS OF A NODE ARE APART.** -/
theorem pairwise_findings {node : Node} :
    ∀ {site : Site}, node.IsPlain → site.IsPlain →
      (rules.findings node site).Pairwise Slot.Apart := by
  induction node using Node.induction_children with
  | step node ih =>
      intro site hnode hsite
      rw [findings_eq, List.pairwise_append, List.pairwise_append, List.pairwise_flatMap]
      refine ⟨⟨pairwise_opening, ⟨fun part hmem => ?_, ?_⟩, apart_opening_parts hnode hsite⟩,
        pairwise_closing hsite, apart_closing hnode hsite⟩
      · have hpart := part_of_mem_parts hmem
        exact ih part.1 hpart.mem_children (hnode.inside hpart.mem_children)
          (isPlain_of_part hpart hnode hsite)
      · exact (pairwise_parts hnode.here.nodup).imp_of_mem fun hpart hother hparted =>
          apart_of_parted hnode hsite hpart hother hparted

end Rules

/-! ## Reports -/

/-- If the errors agree in place and keyword, they are objections. -/
def FieldError.Apart (error other : FieldError) : Prop :=
  error.place = other.place → error.keyword = other.keyword → error.keyword = "custom"

namespace Rules

variable {rules : Rules}

/-- **NO ERROR IS REPORTED TWICE**, at once or with waiting: two errors of one report have
    different places or different keywords, unless both are objections of custom checks. -/
theorem errors_are_apart {node : Node} {whole : Json} (hnode : node.IsPlain) (hwhole : whole.IsPlain)
    {report : Report}
    (h : (rules.validate node whole).value = .ok report
      ∨ (rules.validateWaiting node whole).value = .ok report) :
    report.errors.Pairwise FieldError.Apart := by
  obtain ⟨slots, hslots, herrors⟩ := exists_sublist_of_report h
  have hsite : Site.IsPlain (.root whole) := ⟨nofun, fun value hvalue => Option.some.inj hvalue ▸ hwhole⟩
  rw [herrors, List.pairwise_filterMap]
  refine ((pairwise_findings hnode hsite).sublist hslots).imp fun hapart error herror other hother => ?_
  obtain ⟨hplace, hkeyword⟩ := place_keyword_of_outcome? herror
  obtain ⟨hotherPlace, hotherKeyword⟩ := place_keyword_of_outcome? hother
  unfold FieldError.Apart
  rw [hplace, hkeyword, hotherPlace, hotherKeyword]
  exact hapart

/-- Two errors in one tag differ in their keywords, two tags in their indices. -/
theorem errors_are_apart_in_mixed_tags :
    let whole := Json.object [("tags", .array [.string "a", .bool true]), ("note", .null)]
    ∃ report, ((ofConfig { allowUnknownFields := false }).validate longTags whole).value = .ok report
      ∧ report.errors.map (fun error => (error.place, error.keyword))
        = [("tags[0]", "min"), ("tags[1]", "type"), ("note", "unknown")]
      ∧ report.errors.Pairwise FieldError.Apart := by
  intro whole
  have hnow : longTags.firstSuspended? .root = none := rfl
  have hreport := value_validate_of_immediate (ofConfig { allowUnknownFields := false }) whole hnow
  have hfields : PlainNames ["tags"] := by decide
  have hnode : longTags.IsPlain :=
    .intro hfields (List.forall_mem_singleton.2
      (.intro (by decide) (List.forall_mem_singleton.2 (.of_parts_eq_nil (by decide) rfl))))
  have htags : (Json.array [.string "a", .bool true]).IsPlain :=
    .intro (by decide) (List.forall_mem_cons.2 ⟨.of_parts_eq_nil (by decide) rfl,
      List.forall_mem_singleton.2 (.of_parts_eq_nil (by decide) rfl)⟩)
  have hmembers : PlainNames ["tags", "note"] := by decide
  have hwhole : whole.IsPlain :=
    .intro hmembers (List.forall_mem_cons.2 ⟨htags,
      List.forall_mem_singleton.2 (.of_parts_eq_nil (by decide) rfl)⟩)
  exact ⟨_, hreport, by decide +kernel, errors_are_apart hnode hwhole (.inl hreport)⟩

end Rules

end Conform
