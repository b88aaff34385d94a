import Conform.Proofs.Findings
import Conform.Proofs.Slots

/-! # The walk — it adds the findings of a node

    A step from slots to slots REPORTS a list of slots when, from whatever was
    kept of any slots, it comes to what is kept of them with that list at the
    end.  Steps one after another report their lists one after another, so it is
    enough to see what each single step of the walk reports.

    Main fact: `walk_reports`.  It covers both ways of ending, at the first error
    and at the end of the tree. -/

namespace Conform

variable {α β : Type}

/-- The value a checking computation comes to, if no error stops it. -/
def Yields (x : Checking α) (a : α) : Prop := x.run.value = .ok a

theorem yields_pure (a : α) : Yields (pure a) a := rfl

theorem yields_lift (x : Noted α) : Yields (ExceptT.lift x) x.value := rfl

/-- Two computations in a row yield what the second one makes of the first. -/
theorem Yields.bind {x : Checking α} {f : α → Checking β} {a : α} {b : β}
    (hx : Yields x a) (hf : Yields (f a) b) : Yields (x >>= f) b := by
  show (ExceptT.bindCont f x.run.value).value = .ok b
  have h : x.run.value = .ok a := hx
  rw [h]
  exact hf

namespace Rules

variable {rules : Rules}

/-- A step adds `more` to the slots, as far as slots are kept. -/
def Reports (rules : Rules) (step : List Slot → Checking (List Slot)) (more : List Slot) : Prop :=
  ∀ slots, Yields (step (rules.keep slots)) (rules.keep (slots ++ more))

theorem reports_pure : rules.Reports (fun slots => pure slots) [] := by
  intro slots
  rw [List.append_nil]
  exact yields_pure _

theorem reports_add (slot : Slot) :
    rules.Reports (fun slots => pure (rules.add slots slot)) [slot] := by
  intro slots
  rw [← add_keep]
  exact yields_pure _

theorem reports_addAll (more : List Slot) :
    rules.Reports (fun slots => pure (rules.addAll slots more)) more := by
  intro slots
  rw [← addAll_keep]
  exact yields_pure _

/-- Steps one after another report one list after the other. -/
theorem Reports.bind {first second : List Slot → Checking (List Slot)} {one two : List Slot}
    (h1 : rules.Reports first one) (h2 : rules.Reports second two) :
    rules.Reports (fun slots => first slots >>= second) (one ++ two) := by
  intro slots
  rw [← List.append_assoc]
  exact (h1 slots).bind (h2 (slots ++ one))

/-- Doing nothing once the slots are full changes no report. -/
theorem Reports.unlessFull {checker : Checker} {site : Site} {more : List Slot}
    (h : rules.Reports (checker site) more) :
    rules.Reports (rules.unlessFull checker site) more := by
  intro slots
  unfold Rules.unlessFull
  by_cases hf : rules.isFull (rules.keep slots) = true
  · rw [if_pos hf, keep_append_of_isFull rules more hf]
    exact yields_pure _
  · rw [if_neg hf]
    exact h slots

/-! ## Custom checks -/

/-- A custom check reports its objection, or that it waits. -/
theorem reports_runCustom (node : Node) (place : Place) (value : Json) (custom : Custom) :
    rules.Reports (rules.runCustom .suspending node place value custom)
      (rules.customFindings node place value custom) := by
  obtain ⟨serial, check | check⟩ := custom
  · intro slots
    refine (yields_lift (check value)).bind ?_
    dsimp only [customFindings]
    cases (check value).value with
    | some text => exact reports_add _ slots
    | none => exact reports_pure slots
  · exact reports_add _

/-- Custom checks report one after another. -/
theorem reports_runCustoms (node : Node) (place : Place) (value : Json) (customs : List Custom) :
    rules.Reports (rules.runCustoms .suspending node place value customs)
      (customs.flatMap (rules.customFindings node place value)) := by
  induction customs with
  | nil => exact reports_pure
  | cons custom rest ih =>
      intro slots
      rw [List.flatMap_cons]
      unfold runCustoms
      by_cases hf : rules.isFull (rules.keep slots) = true
      · rw [if_pos hf, keep_append_of_isFull rules _ hf]
        exact yields_pure _
      · rw [if_neg hf]
        exact (reports_runCustom node place value custom).bind ih slots

/-! ## Values and sites -/

/-- A site reports what is found in its value, or that it is missing. -/
theorem reports_enter {node : Node} {inside : Json → List Slot → Checking (List Slot)}
    {found : Json → List Slot} {site : Site}
    (h : ∀ value, site.value = some value → rules.Reports (inside value) (found value)) :
    rules.Reports (rules.enter node inside site) (rules.siteFindings node found site) := by
  refine Reports.unlessFull ?_
  intro slots
  dsimp only
  unfold siteFindings
  cases hv : node.present? site with
  | some value =>
      have hfilter : site.value.filter (fun value => !value.isNull || node.acceptsNull) = some value := hv
      rw [hfilter]
      exact h value (Option.filter_eq_some_iff.1 hv).1 slots
  | none =>
      have hfilter : site.value.filter (fun value => !value.isNull || node.acceptsNull) = none := hv
      rw [hfilter]
      dsimp only
      by_cases hr : node.facets.required = true
      · rw [if_pos hr, if_pos hr]
        exact reports_add _ slots
      · rw [if_neg hr, if_neg hr]
        exact reports_pure slots

/-- A value reports its faults, then its parts, then its custom checks. -/
theorem reports_checkValue {node : Node} {place : Place}
    {parts : Json → List Slot → Checking (List Slot)} {found : Json → List Slot} {value : Json}
    (h : rules.Reports (parts value) (found value)) :
    rules.Reports (rules.checkValue .suspending node place parts value)
      (rules.valueFindings node place found value) := by
  unfold checkValue valueFindings
  by_cases hb : node.base.fits value = true
  · simp only [if_pos hb]
    have hown : rules.Reports
        (fun slots => parts value (rules.addAll slots ((node.ownFaults value).map
          fun fault => .ready (rules.broken node place fault)))) _ :=
      (reports_addAll _).bind h
    refine hown.bind ?_
    by_cases hf : (node.ownFaults value).isEmpty = true
    · simp only [if_pos hf]
      exact reports_runCustoms node place value node.facets.customs
    · simp only [if_neg hf]
      exact reports_pure
  · simp only [if_neg hb]
    exact reports_add _

/-- Items report one after another. -/
theorem reports_eachItem {checker : Checker} {found : Site → List Slot}
    (h : ∀ site, rules.Reports (checker site) (found site)) (record : Option Json) (place : Place)
    (items : List Json) :
    ∀ position, rules.Reports (eachItem checker record place position items)
      (itemFindings found record place position items) := by
  induction items with
  | nil =>
      intro position
      exact reports_pure
  | cons item rest ih =>
      intro position
      exact (h ⟨some item, record, place.index position⟩).bind (ih (position + 1))

/-- Unknown members are reported by name. -/
theorem reports_addUnknown (fields : List (String × Node)) (members : Members Json)
    (place : Place) :
    rules.Reports (fun slots => pure (rules.addUnknown fields members place slots))
      (rules.unknownFindings fields members place) := by
  unfold addUnknown unknownFindings
  by_cases h : (rules.config.allowUnknownFields || fields.isEmpty) = true
  · simp only [if_pos h]
    exact reports_pure
  · simp only [if_neg h]
    exact reports_addAll _

/-- Fields report one after another. -/
theorem reports_walkFields {fields : List (String × Node)}
    (h : ∀ field ∈ fields, ∀ site,
      rules.Reports (rules.walk .suspending field.2 site) (rules.findings field.2 site))
    (value : Json) (place : Place) :
    rules.Reports (rules.walkFields .suspending fields value place)
      (rules.fieldFindings fields value place) := by
  induction fields with
  | nil => exact reports_pure
  | cons field rest ih =>
      obtain ⟨name, node⟩ := field
      have hrest := ih fun field hmem => h field (List.mem_cons_of_mem _ hmem)
      exact (h (name, node) List.mem_cons_self ⟨value.member? name, some value, place.key name⟩).bind
        hrest

/-! ## Unions -/

/-- The same trial with what is kept of the slots. -/
def keepTrial (rules : Rules) : Trial → Trial
  | .agreed own => .agreed (rules.keep own)
  | .refused closest => .refused (closest.map rules.keep)

/-- Trying members goes on from the closest one before. -/
def trialFrom (closest : Option (List Slot)) : Trial → Trial
  | .agreed own => .agreed own
  | .refused later => .refused (closest <|> later)

theorem trialFrom_none (trial : Trial) : trialFrom none trial = trial := by
  cases trial <;> rfl

theorem trialOf_cons_of_clean {value : Json} {member : Node} {own : List Slot}
    (tried : List (Node × List Slot)) (h : hasErrors own = false) :
    trialOf value ((member, own) :: tried) = .agreed own := by
  unfold trialOf
  rw [List.find?_cons_of_pos (by rw [h]; rfl)]

/-- A member with errors is at best the closest one. -/
theorem trialFrom_trialOf_cons {value : Json} {member : Node} {own : List Slot}
    (closest : Option (List Slot)) (tried : List (Node × List Slot)) (h : hasErrors own = true) :
    trialFrom closest (trialOf value ((member, own) :: tried))
      = trialFrom (closest <|> if member.fits value then some own else none)
          (trialOf value tried) := by
  unfold trialOf
  rw [List.find?_cons_of_neg (by rw [h]; exact Bool.false_ne_true)]
  cases tried.find? fun one => !hasErrors one.2 with
  | some one => rfl
  | none =>
      by_cases hf : member.fits value = true
      · simp only [List.find?_cons, hf, if_true]
        cases closest <;> rfl
      · simp only [List.find?_cons, hf]
        cases closest <;> rfl

/-- **TRYING GOES BY THE FINDINGS** of the members: what each keeps of its slots
    has an error exactly if it finds one. -/
theorem yields_walkMembers {members : List Node} {site : Site}
    (h : ∀ node ∈ members,
      rules.Reports (rules.walk .suspending node site) (rules.findings node site))
    (value : Json) :
    ∀ closest, Yields (rules.walkMembers .suspending members value site (closest.map rules.keep))
      (rules.keepTrial (trialFrom closest (trialOf value (rules.memberFindings members site)))) := by
  induction members with
  | nil =>
      intro closest
      cases closest <;> exact yields_pure _
  | cons member rest ih =>
      intro closest
      have hown := h member List.mem_cons_self []
      rw [keep_nil, List.nil_append] at hown
      refine hown.bind ?_
      rw [hasErrors_keep]
      show Yields _ (rules.keepTrial (trialFrom closest
        (trialOf value ((member, rules.findings member site) :: rules.memberFindings rest site))))
      cases he : hasErrors (rules.findings member site) with
      | false =>
          rw [if_neg Bool.false_ne_true, trialOf_cons_of_clean _ he]
          exact yields_pure _
      | true =>
          -- the slots that are kept of the closest member stand for all of its slots
          rw [if_pos rfl, trialFrom_trialOf_cons _ _ he]
          have hclosest : (closest.map rules.keep <|>
                if member.fits value then some (rules.keep (rules.findings member site)) else none)
              = (closest <|> if member.fits value then some (rules.findings member site)
                  else none).map rules.keep := by
            cases closest with
            | some own => rfl
            | none => cases member.fits value <;> rfl
          rw [hclosest]
          exact ih (fun node hmem => h node (List.mem_cons_of_mem _ hmem)) _

/-- **A TRIAL IS CONCLUDED BY WHAT WAS KEPT OF IT**, as by what was found. -/
theorem reports_concludeTrial (node : Node) (members : List Node) (place : Place) (value : Json)
    (trial : Trial) :
    rules.Reports
      (fun slots => rules.concludeTrial .suspending node members place value slots
        (rules.keepTrial trial))
      (rules.trialFindings node members place value trial) := by
  intro slots
  cases trial with
  | agreed own =>
      show Yields (rules.runCustoms .suspending node place value node.facets.customs
        (rules.addAll (rules.keep slots) (rules.keep own))) _
      rw [addAll_keep, keep_append_keep]
      unfold trialFindings
      rw [← List.append_assoc]
      exact reports_runCustoms node place value node.facets.customs (slots ++ own)
  | refused closest =>
      cases closest with
      | none => exact reports_add _ slots
      | some own =>
          show Yields (pure (rules.addAll (rules.keep slots) (rules.keep own))) _
          rw [addAll_keep, keep_append_keep]
          exact yields_pure _

/-! ## Branches -/

/-- Cases are walked under their names. -/
theorem walkCases_eq_mapValues (mode : Mode) (cases : List (String × Node)) :
    rules.walkCases mode cases = Members.mapValues (rules.walk mode) cases := by
  induction cases with
  | nil => rfl
  | cons case rest ih =>
      show (case.1, rules.walk mode case.2) :: rules.walkCases mode rest = _
      rw [ih]
      rfl

theorem reports_followOption {picked : Option Node} {site : Site}
    (h : ∀ node ∈ picked, rules.Reports (rules.walk .suspending node site) (rules.findings node site)) :
    rules.Reports (followOption (picked.map (rules.walk .suspending)) site)
      ((picked.map fun node => rules.findings node site).getD []) := by
  cases picked with
  | none => exact reports_pure
  | some node => exact h node rfl

/-- A branch on a text reports what the case does that it picks. -/
theorem reports_matching {facets : Facets} {reference : String} {cases : List (String × Node)}
    (h : ∀ case ∈ cases, ∀ site,
      rules.Reports (rules.walk .suspending case.2 site) (rules.findings case.2 site))
    (site : Site) :
    rules.Reports (rules.walk .suspending (.matching facets reference cases) site)
      (rules.findings (.matching facets reference cases) site) := by
  refine Reports.unlessFull ?_
  show rules.Reports
    (followOption (pickCase? reference (rules.walkCases .suspending cases) site.context) site) _
  rw [findings_matching, walkCases_eq_mapValues, pickCase?_map]
  refine reports_followOption fun node hmem => ?_
  obtain ⟨case, hcase, rfl⟩ := exists_mem_of_mem_pickCase? hmem
  exact h case hcase site

/-- A switch reports what the side does that it picks. -/
theorem reports_switch {facets : Facets} {field : String} {yes : Node} {no : Option Node}
    (hyes : ∀ site, rules.Reports (rules.walk .suspending yes site) (rules.findings yes site))
    (hno : ∀ node ∈ no, ∀ site,
      rules.Reports (rules.walk .suspending node site) (rules.findings node site))
    (site : Site) :
    rules.Reports (rules.walk .suspending (.switch facets field yes no) site)
      (rules.findings (.switch facets field yes no) site) := by
  have hpick : rules.Reports
      (followOption (pickSide? field (rules.walk .suspending yes)
        (no.map (rules.walk .suspending)) site.context) site)
      (rules.findings (.switch facets field yes no) site) := by
    rw [findings_switch, pickSide?_map]
    refine reports_followOption fun node hmem => ?_
    rcases mem_pickSide? hmem with rfl | hmem
    · exact hyes site
    · exact hno node hmem site
  -- the side that is left out has to be known before the walk can be unfolded
  cases no with
  | none =>
      show rules.Reports (rules.unlessFull (fun site =>
        followOption (pickSide? field (rules.walk .suspending yes) none site.context) site) site) _
      exact Reports.unlessFull hpick
  | some node =>
      show rules.Reports (rules.unlessFull (fun site =>
        followOption (pickSide? field (rules.walk .suspending yes)
          (some (rules.walk .suspending node)) site.context) site) site) _
      exact Reports.unlessFull hpick

/-! ## Chains -/

/-- The entries of a chain are walked at their targets. -/
theorem walkEntries_eq_map (mode : Mode) (entries : List (Chain.Entry Node)) :
    rules.walkEntries mode entries = entries.map (Chain.Entry.map (rules.walk mode)) := by
  induction entries with
  | nil => rfl
  | cons entry rest ih =>
      obtain ⟨kind, conditions, target, message, throws⟩ := entry
      show ⟨kind, conditions, rules.walkTarget mode target, message, throws⟩
        :: rules.walkEntries mode rest = _
      rw [ih]
      cases target <;> rfl

theorem walkFallback_eq_map (mode : Mode) (fallback : Chain.Fallback Node) :
    rules.walkFallback mode fallback = fallback.map (rules.walk mode) := by
  cases fallback <;> rfl

/-- Following a chain reports what the selected target finds; `holder` is the node
    of the chain, if it belongs to one. -/
theorem reports_followChain {holder : Option Node} {chain : Chain Node}
    (h : ∀ node ∈ chain.targets, ∀ site,
      rules.Reports (rules.walk .suspending node site) (rules.findings node site))
    (site : Site) :
    rules.Reports
      (rules.followChain holder
        ⟨rules.walkEntries .suspending chain.entries, rules.walkFallback .suspending chain.fallback⟩
        site)
      (rules.selectionFindings holder site ((chain.select site.context).value.map rules.findings)) := by
  intro slots
  rw [walkEntries_eq_map, walkFallback_eq_map]
  refine (yields_lift _).bind ?_
  rw [value_select_map]
  cases hs : (chain.select site.context).value with
  | fail message => exact reports_add _ slots
  | pass => exact reports_pure slots
  | validate node => exact h node (Chain.mem_targets_of_selectFrom hs) site slots

/-! ## Whole walks -/

/-- **A WALK ADDS THE FINDINGS** of its node to the slots it was given, and never
    stops with an error, as long as it waits for suspended checks. -/
theorem walk_reports (node : Node) :
    ∀ site, rules.Reports (rules.walk .suspending node site) (rules.findings node site) := by
  -- one case for each kind of node, each a lemma about a walk whose parts report what they find
  induction node using Node.induction with
  | leaf type facets =>
      intro site
      exact reports_enter fun value _ => reports_checkValue reports_pure
  | object facets fields h =>
      intro site
      refine reports_enter fun value _ => reports_checkValue ?_
      exact (reports_walkFields h value site.place).bind (reports_addUnknown fields _ site.place)
  | array facets items h =>
      intro site
      cases items with
      | none => exact reports_enter fun value _ => reports_checkValue reports_pure
      | some items =>
          refine reports_enter fun value _ => reports_checkValue ?_
          exact reports_eachItem (h items rfl) site.record site.place (itemsOf value) 0
  | union facets members h =>
      intro site
      refine reports_enter fun value _ => ?_
      intro slots
      have htrial := yields_walkMembers (fun node hmem => h node hmem site) value none
      -- the walk tries members with what it has kept so far; at the start that is nothing
      rw [trialFrom_none] at htrial
      exact htrial.bind (reports_concludeTrial _ members site.place value _ slots)
  | matching facets reference cases h =>
      intro site
      exact reports_matching h site
  | switch facets field yes no hyes hno =>
      intro site
      exact reports_switch hyes hno site
  | chain facets body h =>
      intro site
      rw [findings_chain]
      obtain ⟨entries, fallback⟩ := body
      exact (reports_followChain h site).unlessFull

end Rules

end Conform
