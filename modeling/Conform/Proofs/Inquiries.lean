import Conform.Proofs.ErrorPlaces

/-! # Inquiries — what is asked from outside, and in which order

    A walk that waits asks immediate custom checks and the conditions of chains; what it
    asks is a list of INQUIRIES, which a recursion over the tree reads off without walking.
    A union asks its members one after the other up to the first that agrees, and a custom
    check is asked only where the own checks of its node hold.  The suspended checks are
    put off: once the walk is over each of them runs to its end, one after the other, in
    the order of the document. -/

namespace Conform

/-! ## Notes of computations -/

section

variable {α β : Type}

/-- The computation comes to a value and makes these notes on the way. -/
def Makes (x : Checking α) (a : α) (notes : List String) : Prop := x.run = ⟨.ok a, notes⟩

theorem makes_pure (a : α) : Makes (pure a) a [] := rfl

/-- Asking a predicate from outside makes the notes of the question. -/
theorem makes_lift (x : Noted α) : Makes (ExceptT.lift x) x.value x.notes := by
  show Noted.mk _ (x.notes ++ []) = _
  rw [List.append_nil]
  rfl

/-- Two computations in a row make the notes of both, in order. -/
theorem Makes.bind {x : Checking α} {f : α → Checking β} {a : α} {b : β} {one two : List String}
    (hx : Makes x a one) (hf : Makes (f a) b two) : Makes (x >>= f) b (one ++ two) := by
  have hrun : (x >>= f).run = x.run >>= ExceptT.bindCont f := rfl
  have hrest : (f a).run = ⟨.ok b, two⟩ := hf
  have hfirst : x.run = ⟨.ok a, one⟩ := hx
  show (x >>= f).run = _
  rw [hrun, hfirst]
  show Noted.mk (f a).run.value (one ++ (f a).run.notes) = _
  rw [hrest]

theorem Makes.yields {x : Checking α} {a : α} {notes : List String} (h : Makes x a notes) :
    Yields x a :=
  congrArg Noted.value h

theorem Makes.eq_of_yields {x : Checking α} {a b : α} {notes : List String} (h : Makes x a notes)
    (hyields : Yields x b) : a = b :=
  Except.ok.inj (h.yields.symm.trans hyields)

end

/-! ## Inquiries -/

/-- What is asked from outside during a walk: an immediate check of a node about a value,
    or the conditions of a chain about a record. -/
inductive Inquiry where
  | custom (node : Node) (site : Site) (value : Json) (check : Json → Noted (Option String))
  | selection (body : Chain Node) (record : Json)

/-- The notes that asking makes. -/
def Inquiry.notes : Inquiry → List String
  | .custom _ _ value check => (check value).notes
  | .selection body record => (body.select record).notes

/-- The check, if it is immediate. -/
def Custom.immediate? (custom : Custom) : Option (Json → Noted (Option String)) :=
  match custom.check with
  | .immediate check => some check
  | .suspended _ => none

namespace Rules

variable {rules : Rules} {node : Node} {site : Site}

/-- The immediate checks of a node about a value, in the order of their attachment. -/
def customInquiries (node : Node) (site : Site) (value : Json) : List Inquiry :=
  (node.facets.customs.filterMap Custom.immediate?).map (.custom node site value)

/-- The parts that are walked: those that are kept, and of a union all members up to the
    first that agrees. -/
def tries (rules : Rules) (node : Node) (site : Site) : List (Node × Site) :=
  match node with
  | .union _ members =>
      (node.present? site).toList.flatMap fun _ =>
        (upTo (fun member => !hasErrors (rules.findings member site)) members).map
          fun member => (member, site)
  | _ => rules.parts node site

/-- Whatever is tried belongs to the node. -/
theorem mem_children_of_mem_tries {part : Node × Site} (h : part ∈ rules.tries node site) :
    part.1 ∈ node.children := by
  unfold tries at h
  split at h
  · obtain ⟨value, -, hpart⟩ := List.mem_flatMap.1 h
    obtain ⟨member, hmember, rfl⟩ := List.mem_map.1 hpart
    exact mem_of_mem_upTo hmember
  · exact (part_of_mem_parts h).mem_children

/-- What a node asks before its parts: a chain its conditions. -/
def openingInquiries (node : Node) (site : Site) : List Inquiry :=
  match node with
  | .chain _ body => [.selection body site.context]
  | _ => []

/-- What a node asks after its parts: its immediate checks, where its own checks hold. -/
def closingInquiries (rules : Rules) (node : Node) (site : Site) : List Inquiry :=
  (node.present? site).toList.flatMap fun value =>
    if rules.passes node site value then customInquiries node site value else []

/-- What a walk of a node at a site asks, in order. -/
def inquiries (rules : Rules) (node : Node) (site : Site) : List Inquiry :=
  openingInquiries node site
    ++ ((rules.tries node site).attach.flatMap fun part => inquiries rules part.1.1 part.1.2)
    ++ rules.closingInquiries node site
termination_by sizeOf node
decreasing_by exact Node.sizeOf_lt_of_mem_children (mem_children_of_mem_tries part.2)

/-- A node is asked first for its own choice, then for its parts, and last for its custom
    checks. -/
theorem inquiries_eq (node : Node) (site : Site) :
    rules.inquiries node site
      = openingInquiries node site
        ++ ((rules.tries node site).flatMap fun part => rules.inquiries part.1 part.2)
        ++ rules.closingInquiries node site := by
  have hforget : ∀ part (h : part ∈ rules.tries node site),
      rules.inquiries (Subtype.mk part h).1.1 (Subtype.mk part h).1.2
        = rules.inquiries part.1 part.2 :=
    fun _ _ => rfl
  rw [inquiries, List.flatMap_subtype hforget, List.unattach_attach]

/-! ## What each step asks -/

/-- From any slots, the step comes to some slots and makes the notes of these inquiries. -/
def Asks (step : List Slot → Checking (List Slot)) (asked : List Inquiry) : Prop :=
  ∀ slots, ∃ after, Makes (step slots) after (asked.flatMap Inquiry.notes)

theorem asks_pure (f : List Slot → List Slot) : Asks (fun slots => pure (f slots)) [] :=
  fun slots => ⟨f slots, makes_pure _⟩

/-- Steps one after another ask one after the other. -/
theorem Asks.bind {first second : List Slot → Checking (List Slot)} {one two : List Inquiry}
    (h1 : Asks first one) (h2 : Asks second two) :
    Asks (fun slots => first slots >>= second) (one ++ two) := by
  intro slots
  obtain ⟨between, hfirst⟩ := h1 slots
  obtain ⟨after, hsecond⟩ := h2 between
  rw [List.flatMap_append]
  exact ⟨after, hfirst.bind hsecond⟩

/-- There is always room for more if validation does not end early. -/
theorem isFull_eq_false (hall : rules.config.abortEarly = false) (slots : List Slot) :
    rules.isFull slots = false := by
  rw [isFull, hall, Bool.false_and]

/-- No step is left out if validation does not end early. -/
theorem Asks.unlessFull {checker : Checker} {asked : List Inquiry}
    (hall : rules.config.abortEarly = false) (h : Asks (checker site) asked) :
    Asks (rules.unlessFull checker site) asked := by
  intro slots
  unfold Rules.unlessFull
  rw [isFull_eq_false hall, if_neg Bool.false_ne_true]
  exact h slots

/-- Running one custom check asks it, unless it is suspended. -/
theorem asks_runCustom (rules : Rules) (node : Node) (site : Site) (custom : Custom) (value : Json) :
    Asks (rules.runCustom .suspending node site.place value custom)
      (custom.immediate?.toList.map (.custom node site value)) := by
  obtain ⟨serial, check | check⟩ := custom
  · intro slots
    have hlift := makes_lift (check value)
    cases hvalue : (check value).value with
    | some text =>
        rw [hvalue] at hlift
        exact ⟨_, hlift.bind (makes_pure _)⟩
    | none =>
        rw [hvalue] at hlift
        exact ⟨_, hlift.bind (makes_pure _)⟩
  · exact asks_pure _

/-- Custom checks are asked in order. -/
theorem asks_runCustoms (hall : rules.config.abortEarly = false) (value : Json)
    (customs : List Custom) :
    Asks (rules.runCustoms .suspending node site.place value customs)
      ((customs.filterMap Custom.immediate?).map (.custom node site value)) := by
  induction customs with
  | nil => exact asks_pure id
  | cons custom rest ih =>
      intro slots
      unfold runCustoms
      rw [isFull_eq_false hall, if_neg Bool.false_ne_true]
      have hone := (asks_runCustom rules node site custom value).bind ih
      rw [← List.map_append] at hone
      have hsplit : (custom :: rest).filterMap Custom.immediate?
          = custom.immediate?.toList ++ rest.filterMap Custom.immediate? := by
        rw [List.filterMap_cons]
        cases custom.immediate? <;> rfl
      rw [hsplit]
      exact hone slots

/-! ## Values and sites -/

/-- At a site the questions are those about its value, if it has one. -/
theorem asks_enter {inside : Json → List Slot → Checking (List Slot)} {asked : Json → List Inquiry}
    (hall : rules.config.abortEarly = false)
    (h : ∀ value, node.present? site = some value → Asks (inside value) (asked value)) :
    Asks (rules.enter node inside site) ((node.present? site).toList.flatMap asked) := by
  refine Asks.unlessFull hall ?_
  intro slots
  dsimp only
  cases hv : node.present? site with
  | some value =>
      have hfilter : site.value.filter (fun value => !value.isNull || node.acceptsNull) = some value := hv
      rw [hfilter, Option.toList_some, List.flatMap_singleton]
      exact h value hv slots
  | none =>
      have hfilter : site.value.filter (fun value => !value.isNull || node.acceptsNull) = none := hv
      rw [hfilter]
      dsimp only
      split
      · exact ⟨_, makes_pure _⟩
      · exact ⟨_, makes_pure _⟩

/-- A value of the right type is asked for its parts, and for custom checks if its own ones have
    no objection. -/
theorem asks_checkValue {parts : Json → List Slot → Checking (List Slot)} {value : Json}
    {asked : List Inquiry} (hall : rules.config.abortEarly = false) (h : Asks (parts value) asked) :
    Asks (rules.checkValue .suspending node site.place parts value)
      (if node.base.fits value then
        asked ++ if (node.ownFaults value).isEmpty then customInquiries node site value else []
      else []) := by
  unfold checkValue
  by_cases hfits : node.base.fits value = true
  · simp only [if_pos hfits]
    have hown : Asks (fun slots => parts value (rules.addAll slots ((node.ownFaults value).map
        fun fault => .ready (rules.broken node site.place fault)))) asked :=
      fun slots => h _
    refine hown.bind ?_
    by_cases hkept : (node.ownFaults value).isEmpty = true
    · simp only [if_pos hkept]
      exact asks_runCustoms hall value node.facets.customs
    · simp only [if_neg hkept]
      exact asks_pure id
  · simp only [if_neg hfits]
    exact asks_pure _

/-- The items of an array are asked in order, each of them at its index. -/
theorem asks_eachItem {checker : Checker} {asked : Site → List Inquiry}
    (h : ∀ site, Asks (checker site) (asked site)) (record : Option Json) (place : Place)
    (items : List Json) :
    ∀ position, Asks (eachItem checker record place position items)
      ((items.zipIdx position).flatMap fun item => asked ⟨some item.1, record, place.index item.2⟩) := by
  induction items with
  | nil =>
      intro position
      exact asks_pure id
  | cons item rest ih =>
      intro position
      exact (h ⟨some item, record, place.index position⟩).bind (ih (position + 1))

/-- The fields of an object are asked in order, each of them at its name. -/
theorem asks_walkFields {fields : List (String × Node)}
    (h : ∀ field ∈ fields, ∀ site,
      Asks (rules.walk .suspending field.2 site) (rules.inquiries field.2 site))
    (value : Json) (place : Place) :
    Asks (rules.walkFields .suspending fields value place)
      (fields.flatMap fun field =>
        rules.inquiries field.2 ⟨value.member? field.1, some value, place.key field.1⟩) := by
  induction fields with
  | nil => exact asks_pure id
  | cons field rest ih =>
      obtain ⟨name, node⟩ := field
      have hrest := ih fun field hmem => h field (List.mem_cons_of_mem _ hmem)
      exact (h (name, node) List.mem_cons_self ⟨value.member? name, some value, place.key name⟩).bind
        hrest

/-- The inquiries of a leaf, an object or an array, by what its value is. -/
theorem inquiries_checked (hopening : openingInquiries node site = [])
    (htries : rules.tries node site = (node.present? site).toList.flatMap fun value =>
      if node.base.fits value then within node site value else [])
    (hpasses : ∀ value, rules.passes node site value
      = (node.base.fits value && (node.ownFaults value).isEmpty)) :
    rules.inquiries node site
      = (node.present? site).toList.flatMap fun value =>
          if node.base.fits value then
            ((within node site value).flatMap fun part => rules.inquiries part.1 part.2)
              ++ if (node.ownFaults value).isEmpty then customInquiries node site value else []
          else [] := by
  rw [inquiries_eq, hopening, htries, closingInquiries, List.nil_append]
  cases node.present? site with
  | none => rfl
  | some value =>
      rw [Option.toList_some, List.flatMap_singleton, List.flatMap_singleton,
        List.flatMap_singleton, hpasses]
      cases node.base.fits value with
      | true => rfl
      | false => rfl

/-! ## Unions -/

/-- **MEMBERS ARE TRIED UP TO THE FIRST THAT AGREES**, one after the other. -/
theorem makes_walkMembers {members : List Node}
    (h : ∀ node ∈ members, Asks (rules.walk .suspending node site) (rules.inquiries node site))
    (value : Json) :
    ∀ closest, ∃ trial, Makes (rules.walkMembers .suspending members value site closest) trial
      (((upTo (fun member => !hasErrors (rules.findings member site)) members).flatMap
        fun member => rules.inquiries member site).flatMap Inquiry.notes) := by
  induction members with
  | nil =>
      intro closest
      exact ⟨_, makes_pure _⟩
  | cons member rest ih =>
      intro closest
      obtain ⟨own, hown⟩ := h member List.mem_cons_self []
      -- what a member keeps was shown of walks in general; only what it asks is new
      have hkept : own = rules.keep (rules.findings member site) := by
        have hreports : rules.Reports (rules.walk .suspending member site)
            (rules.findings member site) := walk_reports member site
        have hyields := hreports []
        rw [keep_nil, List.nil_append] at hyields
        exact hown.eq_of_yields hyields
      have herrors : hasErrors own = hasErrors (rules.findings member site) := by
        rw [hkept, hasErrors_keep]
      rw [upTo]
      cases he : hasErrors (rules.findings member site) with
      | false =>
          rw [Bool.not_false, if_pos rfl, List.flatMap_singleton]
          -- a clean member: the ones behind it are not walked, nor asked
          refine ⟨.agreed own, ?_⟩
          rw [← List.append_nil ((rules.inquiries member site).flatMap Inquiry.notes)]
          refine hown.bind ?_
          rw [herrors, he, if_neg Bool.false_ne_true]
          exact makes_pure _
      | true =>
          rw [Bool.not_true, if_neg Bool.false_ne_true, List.flatMap_cons, List.flatMap_append]
          obtain ⟨trial, htrial⟩ := ih (fun node hmem => h node (List.mem_cons_of_mem _ hmem))
            (closest <|> if member.fits value then some own else none)
          refine ⟨trial, hown.bind ?_⟩
          rw [herrors, he, if_pos rfl]
          exact htrial

/-- Only a trial that a member agreed to is followed by custom checks. -/
theorem asks_concludeTrial (hall : rules.config.abortEarly = false) (members : List Node)
    (value : Json) (trial : Trial) :
    Asks (fun slots => rules.concludeTrial .suspending node members site.place value slots trial)
      (match trial with
        | .agreed _ => customInquiries node site value
        | .refused _ => []) := by
  cases trial with
  | agreed own => exact fun slots => asks_runCustoms hall value node.facets.customs _
  | refused closest =>
      cases closest with
      | some own => exact asks_pure _
      | none => exact asks_pure _

/-- A union asks what its members ask, up to the first that agrees, and then its own checks
    if one does. -/
theorem asks_union {facets : Facets} {members : List Node}
    (hall : rules.config.abortEarly = false)
    (h : ∀ node ∈ members, Asks (rules.walk .suspending node site) (rules.inquiries node site)) :
    Asks (rules.walk .suspending (.union facets members) site)
      (rules.inquiries (.union facets members) site) := by
  have hasked : rules.inquiries (.union facets members) site
      = ((Node.union facets members).present? site).toList.flatMap fun value =>
          ((upTo (fun member => !hasErrors (rules.findings member site)) members).flatMap
              fun member => rules.inquiries member site)
            ++ if (rules.agreed? members site).isSome then
                customInquiries (.union facets members) site value else [] := by
    rw [inquiries_eq, tries, closingInquiries]
    cases (Node.union facets members).present? site with
    | none => rfl
    | some value =>
        rw [Option.toList_some, List.flatMap_singleton, List.flatMap_singleton,
          List.flatMap_singleton, List.flatMap_map]
        rfl
  rw [hasked]
  refine asks_enter hall fun value hvalue slots => ?_
  obtain ⟨trial, htrial⟩ := makes_walkMembers h value none
  have hreports : ∀ node ∈ members, rules.Reports (rules.walk .suspending node site)
      (rules.findings node site) := fun node _ => walk_reports node site
  have hyields := yields_walkMembers hreports value none
  rw [trialFrom_none, trialOf_memberFindings] at hyields
  -- the walk asks on the way to the trial that the findings give: it is known what was found
  obtain rfl : trial = rules.keepTrial (rules.trialAt members site value) :=
    htrial.eq_of_yields hyields
  obtain ⟨after, hafter⟩ := asks_concludeTrial hall members value
    (rules.keepTrial (rules.trialAt members site value)) slots
  refine ⟨after, ?_⟩
  rw [List.flatMap_append]
  refine htrial.bind ?_
  have hcustoms : (match rules.keepTrial (rules.trialAt members site value) with
        | .agreed _ => customInquiries (.union facets members) site value
        | .refused _ => [])
      = if (rules.agreed? members site).isSome then
          customInquiries (.union facets members) site value else [] := by
    unfold trialAt
    cases rules.agreed? members site <;> rfl
  rw [← hcustoms]
  exact hafter

/-! ## Branches -/

/-- A branch asks what its target asks, if it has one. -/
theorem asks_followOption {picked : Option Node}
    (h : ∀ node ∈ picked, Asks (rules.walk .suspending node site) (rules.inquiries node site)) :
    Asks (followOption (picked.map (rules.walk .suspending)) site)
      (picked.toList.flatMap fun node => rules.inquiries node site) := by
  cases picked with
  | none => exact asks_pure id
  | some node =>
      rw [Option.toList_some, List.flatMap_singleton]
      exact h node rfl

/-- A branch asks what the target asks that it selects, and no checks of its own. -/
theorem inquiries_branch {picked : Option Node}
    (htries : rules.tries node site = picked.toList.map fun target => (target, site))
    (hpasses : ∀ value, rules.passes node site value = false) :
    rules.inquiries node site
      = openingInquiries node site ++ picked.toList.flatMap fun target => rules.inquiries target site := by
  have hclosing : rules.closingInquiries node site = [] := by
    unfold closingInquiries
    rw [List.flatMap_eq_nil_iff]
    intro value _
    rw [hpasses, if_neg Bool.false_ne_true]
  rw [inquiries_eq, hclosing, htries, List.flatMap_map, List.append_nil]

/-- Following a chain asks its conditions first. -/
theorem asks_followChain {holder : Option Node} {chain : Chain Node}
    (h : ∀ node ∈ chain.targets, Asks (rules.walk .suspending node site) (rules.inquiries node site)) :
    Asks
      (rules.followChain holder
        ⟨rules.walkEntries .suspending chain.entries, rules.walkFallback .suspending chain.fallback⟩
        site)
      (.selection chain site.context
        :: ((chain.select site.context).value.target?.toList.flatMap fun node =>
            rules.inquiries node site)) := by
  intro slots
  unfold followChain
  rw [walkEntries_eq_map, walkFallback_eq_map, Chain.select, Chain.selectFrom_map, lift_map_bind,
    List.flatMap_cons]
  have hlift := makes_lift (chain.select site.context)
  -- the conditions are asked while selecting; only a target asks more
  cases hselect : (chain.select site.context).value with
  | fail message =>
      rw [hselect] at hlift
      exact ⟨_, hlift.bind (makes_pure _)⟩
  | pass =>
      rw [hselect] at hlift
      exact ⟨_, hlift.bind (makes_pure _)⟩
  | validate node =>
      rw [hselect] at hlift
      obtain ⟨after, hafter⟩ := h node (Chain.mem_targets_of_selectFrom hselect) slots
      refine ⟨after, hlift.bind ?_⟩
      show Makes (rules.walk .suspending node site slots) after
        ((List.flatMap (fun node => rules.inquiries node site) [node]).flatMap Inquiry.notes)
      rw [List.flatMap_singleton]
      exact hafter

/-! ## Whole walks -/

/-- **A WALK ASKS ITS INQUIRIES**, and nothing else makes a note on the way. -/
theorem walk_asks (hall : rules.config.abortEarly = false) (node : Node) :
    ∀ site, Asks (rules.walk .suspending node site) (rules.inquiries node site) := by
  -- nothing ends early here, so all parts are asked, whatever the ones before them find
  induction node using Node.induction with
  | leaf type facets =>
      intro site
      rw [inquiries_checked rfl rfl fun _ => rfl]
      exact asks_enter hall fun value _ => asks_checkValue hall (asks_pure id)
  | object facets fields h =>
      intro site
      rw [inquiries_checked rfl rfl fun _ => rfl]
      refine asks_enter hall fun value _ => asks_checkValue hall ?_
      have hparts := (asks_walkFields h value site.place).bind
        (asks_pure (rules.addUnknown fields (membersOf value) site.place))
      rw [List.append_nil] at hparts
      rw [within, List.flatMap_map]
      exact hparts
  | array facets items h =>
      intro site
      rw [inquiries_checked rfl rfl fun _ => rfl]
      cases items with
      | none => exact asks_enter hall fun value _ => asks_checkValue hall (asks_pure id)
      | some items =>
          refine asks_enter hall fun value _ => asks_checkValue hall ?_
          rw [within, Option.toList_some, List.flatMap_singleton, List.flatMap_map]
          exact asks_eachItem (h items rfl) site.record site.place (itemsOf value) 0
  | union facets members h =>
      intro site
      exact asks_union hall fun node hmem => h node hmem site
  | matching facets reference cases h =>
      intro site
      rw [inquiries_branch rfl fun _ => rfl]
      refine Asks.unlessFull hall ?_
      show Asks
        (followOption (pickCase? reference (rules.walkCases .suspending cases) site.context) site) _
      rw [walkCases_eq_mapValues, pickCase?_map]
      refine asks_followOption fun node hmem => ?_
      obtain ⟨case, hcase, rfl⟩ := exists_mem_of_mem_pickCase? hmem
      exact h case hcase site
  | switch facets field yes no hyes hno =>
      intro site
      rw [inquiries_branch rfl fun _ => rfl]
      have hpick : Asks
          (followOption (pickSide? field (rules.walk .suspending yes)
            (no.map (rules.walk .suspending)) site.context) site)
          ((pickSide? field yes no site.context).toList.flatMap fun node =>
            rules.inquiries node site) := by
        rw [pickSide?_map]
        refine asks_followOption fun node hmem => ?_
        rcases mem_pickSide? hmem with rfl | hmem
        · exact hyes site
        · exact hno node hmem site
      cases no with
      | none => exact Asks.unlessFull hall hpick
      | some no => exact Asks.unlessFull hall hpick
  | chain facets body h =>
      intro site
      rw [inquiries_branch rfl fun _ => rfl]
      obtain ⟨entries, fallback⟩ := body
      exact Asks.unlessFull hall (asks_followChain fun node hmem => h node hmem site)

/-! ## Fair questions -/

/-- The check of a node is asked about the value at a place of the document, and the own
    checks of the node hold of that value. -/
structure Fair (rules : Rules) (whole : Json) (node : Node) (site : Site) (value : Json)
    (check : CustomCheck) : Prop where
  attached : ∃ custom ∈ node.facets.customs, custom.check = check
  present : node.present? site = some value
  passes : rules.passes node site value = true
  stands : whole.at? site.place.steps = some value

/-- What is tried at a site of the document is tried at a site of the document. -/
theorem standsIn_of_mem_tries {whole : Json} {part : Node × Site} (hsite : site.StandsIn whole)
    (h : part ∈ rules.tries node site) : part.2.StandsIn whole := by
  unfold tries at h
  split at h
  · obtain ⟨value, -, hpart⟩ := List.mem_flatMap.1 h
    obtain ⟨member, -, rfl⟩ := List.mem_map.1 hpart
    exact hsite
  · exact standsIn_of_part (part_of_mem_parts h) hsite

/-- **A CUSTOM CHECK IS ASKED FAIRLY**: about the value that stands there, once its own checks
    have no objection. -/
theorem fair_of_mem_closingInquiries {whole value : Json} {kept : Node} {keptSite : Site}
    {check : Json → Noted (Option String)} (hsite : site.StandsIn whole)
    (h : .custom kept keptSite value check ∈ rules.closingInquiries node site) :
    rules.Fair whole kept keptSite value (.immediate check) := by
  obtain ⟨found, hpresent, hasked⟩ := List.mem_flatMap.1 h
  have hpresent := Option.mem_toList.1 hpresent
  split at hasked
  · next hpasses =>
      obtain ⟨immediate, hmem, heq⟩ := List.mem_map.1 hasked
      obtain ⟨rfl, rfl, rfl, rfl⟩ := Inquiry.custom.inj heq
      obtain ⟨custom, hcustom, himmediate⟩ := List.mem_filterMap.1 hmem
      refine ⟨⟨custom, hcustom, ?_⟩, hpresent, hpasses,
        hsite.value.symm.trans (Node.value_of_present? hpresent)⟩
      obtain ⟨serial, check | check⟩ := custom
      · rw [Option.some.inj himmediate]
      · exact nomatch himmediate
  · exact nomatch hasked

/-- **NO IMMEDIATE CHECK IS ASKED** about a value that breaks the own checks of its node. -/
theorem fair_of_mem_inquiries {whole value : Json} {node kept : Node} {keptSite : Site}
    {check : Json → Noted (Option String)} :
    ∀ {site : Site}, site.StandsIn whole → .custom kept keptSite value check ∈ rules.inquiries node site →
      rules.Fair whole kept keptSite value (.immediate check) := by
  induction node using Node.induction_children with
  | step node ih =>
      intro site hsite h
      rw [inquiries_eq, List.mem_append, List.mem_append] at h
      rcases h with (hopening | hparts) | hclosing
      · unfold openingInquiries at hopening
        split at hopening
        · exact nomatch List.mem_singleton.1 hopening
        · exact nomatch hopening
      · obtain ⟨part, hpart, hasked⟩ := List.mem_flatMap.1 hparts
        exact ih part.1 (mem_children_of_mem_tries hpart) (standsIn_of_mem_tries hsite hpart) hasked
      · exact fair_of_mem_closingInquiries hsite hclosing

/-- What waits is a suspended check of the node. -/
theorem exists_suspended_of_undecided {place : Place} {value : Json} {check : Undecided}
    (h : .undecided check ∈ rules.allCustomFindings node place value) :
    ∃ custom ∈ node.facets.customs, custom.check = .suspended check.check
      ∧ check = undecided node place value check.check := by
  obtain ⟨custom, hmem, hslot⟩ := List.mem_flatMap.1 h
  unfold customFindings at hslot
  split at hslot
  · split at hslot
    · exact nomatch List.mem_singleton.1 hslot
    · exact nomatch hslot
  · next suspended hcheck =>
      obtain rfl := Slot.undecided.inj (List.mem_singleton.1 hslot)
      exact ⟨custom, hmem, hcheck, rfl⟩

/-- **NO SUSPENDED CHECK IS PUT OFF** about such a value either. -/
theorem fair_of_undecided {whole : Json} {check : Undecided} (hsite : site.StandsIn whole)
    (h : .undecided check ∈ rules.findings node site) :
    ∃ kept keptSite value, rules.Keeps node site kept keptSite
      ∧ check = undecided kept keptSite.place value check.check
      ∧ rules.Fair whole kept keptSite value (.suspended check.check) := by
  obtain ⟨kept, keptSite, hkept, hslot⟩ := exists_keeps_of_mem_findings h
  have hstands := standsIn_of_keeps hkept hsite
  rcases hslot with hopening | hclosing
  · exact nomatch isReady_of_mem_opening hopening
  · obtain ⟨value, hpresent, ⟨name, -, -, heq⟩ | ⟨hpasses, hcustoms⟩⟩ := mem_closing hclosing
    · exact nomatch heq
    · obtain ⟨custom, hmem, hcheck, heq⟩ := exists_suspended_of_undecided hcustoms
      exact ⟨kept, keptSite, value, hkept, heq, ⟨custom, hmem, hcheck⟩, hpresent, hpasses,
        hstands.value.symm.trans (Node.value_of_present? hpresent)⟩

/-- **SUSPENDED CHECKS RUN ONCE, ONE AFTER THE OTHER, IN THE ORDER OF THE DOCUMENT.**  With
    `found`, what the tree finds, and `asked`, what the walk asks: the walk asks and makes
    the notes of that; then each check that waits among `found` runs to its end before the
    next one starts, and nothing else does; the report names what each of `found` comes to.
    Whatever is kept finds a stretch of `found`: its own errors, then those of its parts in
    their order, then members without a field, then its custom checks.  Each check that
    waits is one of a node that is kept, and is asked about the value at the place that it
    names; no check, at once or late, is asked about a value that breaks the own checks of
    its node. -/
theorem waiting_asks_in_order (hall : rules.config.abortEarly = false) (node : Node) (whole : Json) :
    let found := rules.findings node (.root whole)
    let asked := rules.inquiries node (.root whole)
    rules.validateWaiting node whole
        = ⟨.ok (.ofErrors (found.filterMap rules.outcome?)),
            asked.flatMap Inquiry.notes ++ found.flatMap Slot.notes⟩
      ∧ (∀ kept site, rules.Keeps node (.root whole) kept site →
        rules.opening kept site
            ++ ((rules.parts kept site).flatMap fun part => rules.findings part.1 part.2)
            ++ rules.closing kept site <:+: found)
      ∧ (∀ check, .undecided check ∈ found →
        ∃ kept site value, rules.Keeps node (.root whole) kept site
          ∧ check = undecided kept site.place value check.check
          ∧ rules.Fair whole kept site value (.suspended check.check))
      ∧ ∀ kept site value check, .custom kept site value check ∈ asked →
        rules.Fair whole kept site value (.immediate check) := by
  intro found asked
  refine ⟨?_, fun kept site hkept => ?_, fun check => fair_of_undecided (Site.standsIn_root whole),
    fun kept site value check => fair_of_mem_inquiries (Site.standsIn_root whole)⟩
  -- nothing is cut off, so all that was found is decided
  · have hdecided : rules.decided found = found := by
      rw [decided, hall, if_neg Bool.false_ne_true]
    obtain ⟨after, hwalk⟩ := walk_asks hall node (.root whole) []
    have hnotes : (rules.walk .suspending node (.root whole) []).run.notes
        = asked.flatMap Inquiry.notes := congrArg Noted.notes hwalk
    rw [validateWaiting_eq, hnotes, hdecided]
  · rw [← findings_eq]
    exact infix_of_keeps hkept

/-- Two texts, one under the other, that are looked up elsewhere, and a number. -/
def lookedUp (check : String → Json → Task (Option String)) : Node :=
  .object { customs := [⟨0, .suspended (check "whole")⟩] }
    [("name", .leaf .string { customs := [⟨1, .suspended (check "name")⟩] }),
     ("age", .leaf .integer { customs := [⟨2, .suspended (check "age")⟩] })]

theorem waiting_asks_lookedUp_in_order :
    let check (name : String) (_ : Json) : Task (Option String) :=
      .pending [name] (.done (pure (some "NO")))
    let whole := Json.object [("name", .string "x"), ("age", .string "y")]
    let rules := ofConfig {}
    let outcome := rules.validateWaiting (lookedUp check) whole
    outcome.notes = ["name", "whole"]
      ∧ outcome.value.toOption.map (fun report => report.errors.map fun error => (error.place, error.keyword))
        = some [("name", "custom"), ("age", "type"), ("", "custom")]
      ∧ outcome.notes = (rules.inquiries (lookedUp check) (.root whole)).flatMap Inquiry.notes
        ++ (rules.findings (lookedUp check) (.root whole)).flatMap Slot.notes := by
  intro check whole rules outcome
  have hall : rules.config.abortEarly = false := rfl
  exact ⟨by decide, by decide, congrArg Noted.notes (waiting_asks_in_order hall (lookedUp check) whole).1⟩

end Rules

end Conform
