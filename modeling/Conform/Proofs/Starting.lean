import Conform.Proofs.Customs
import Conform.Proofs.Slots
import Conform.Proofs.Walk

/-! # Starting — the walk starts no suspended check

    The walk puts a suspended check into a slot as it is.  So exchanging the
    suspended checks of a tree exchanges the checks in the slots and nothing else:
    the walk takes the same decisions, calls the same checks from outside, and makes
    the same notes (`walk_withSuspended`).  A step from slots to slots that behaves
    like this is BLIND to the exchange. -/

namespace Conform

/-- Exchanges a suspended check; an immediate one stays. -/
def Custom.withSuspended (f : (Json → Task (Option String)) → Json → Task (Option String))
    (custom : Custom) : Custom :=
  match custom.check with
  | .immediate check => ⟨custom.serial, .immediate check⟩
  | .suspended check => ⟨custom.serial, .suspended (f check)⟩

/-- Exchanges the suspended checks of a node and of all nodes in it. -/
def Node.withSuspended (f : (Json → Task (Option String)) → Json → Task (Option String)) :
    Node → Node :=
  Node.mapCustoms (Custom.withSuspended f)

/-- Exchanges the check that waits in a slot. -/
def Slot.withSuspended (f : (Json → Task (Option String)) → Json → Task (Option String)) :
    Slot → Slot
  | .ready error => .ready error
  | .undecided check => .undecided { check with check := f check.check }

namespace Rules

variable {rules : Rules} {mode : Mode}
  {f : (Json → Task (Option String)) → Json → Task (Option String)}

/-- A step with exchanged checks: it does the same, up to the exchange. -/
def Blind (f : (Json → Task (Option String)) → Json → Task (Option String))
    (step exchanged : List Slot → Checking (List Slot)) : Prop :=
  ∀ slots, exchanged (slots.map (Slot.withSuspended f))
    = List.map (Slot.withSuspended f) <$> step slots

/-- A check that waits is no error, whichever check it is. -/
theorem hasErrors_map_withSuspended (slots : List Slot) :
    hasErrors (slots.map (Slot.withSuspended f)) = hasErrors slots := by
  induction slots with
  | nil => rfl
  | cons slot rest ih =>
      rw [List.map_cons, hasErrors_cons, hasErrors_cons, ih]
      cases slot <;> rfl

/-- Whether there are errors enough to end early does not depend on the checks that wait. -/
theorem isFull_map_withSuspended (slots : List Slot) :
    rules.isFull (slots.map (Slot.withSuspended f)) = rules.isFull slots := by
  unfold isFull
  rw [hasErrors_map_withSuspended]

/-- One slot is put to the others, or left out, alike. -/
theorem add_map_withSuspended (slots : List Slot) (slot : Slot) :
    rules.add (slots.map (Slot.withSuspended f)) (slot.withSuspended f)
      = (rules.add slots slot).map (Slot.withSuspended f) := by
  unfold add
  rw [isFull_map_withSuspended]
  by_cases h : rules.isFull slots = true
  · rw [if_pos h, if_pos h]
  · rw [if_neg h, if_neg h, List.map_append]
    rfl

/-- Several slots are put to the others alike. -/
theorem addAll_map_withSuspended (slots more : List Slot) :
    rules.addAll (slots.map (Slot.withSuspended f)) (more.map (Slot.withSuspended f))
      = (rules.addAll slots more).map (Slot.withSuspended f) := by
  induction more generalizing slots with
  | nil => rfl
  | cons slot rest ih =>
      show rules.addAll (rules.add _ _) _ = (rules.addAll (rules.add slots slot) rest).map _
      rw [add_map_withSuspended, ih]

/-! ## Blind steps -/

theorem blind_pure : Blind f (fun slots => pure slots) (fun slots => pure slots) := by
  intro slots
  rw [map_pure]

/-- Adding a slot is blind, if the slot that is added is exchanged as well. -/
theorem blind_add (slot : Slot) :
    Blind f (fun slots => pure (rules.add slots slot))
      (fun slots => pure (rules.add slots (slot.withSuspended f))) := by
  intro slots
  dsimp only
  rw [map_pure, add_map_withSuspended]

/-- **BLIND STEPS COMPOSE**: the second one takes over where the first one ends,
    exchanged or not. -/
theorem Blind.bind {first first' second second' : List Slot → Checking (List Slot)}
    (h1 : Blind f first first') (h2 : Blind f second second') :
    Blind f (fun slots => first slots >>= second) (fun slots => first' slots >>= second') := by
  intro slots
  dsimp only
  rw [h1 slots, bind_map_left, map_bind]
  exact congrArg _ (funext h2)

/-- A step that is left out where there are errors enough is left out on both sides. -/
theorem Blind.unlessFull {checker checker' : Checker} {site : Site}
    (h : Blind f (checker site) (checker' site)) :
    Blind f (rules.unlessFull checker site) (rules.unlessFull checker' site) := by
  intro slots
  unfold Rules.unlessFull
  rw [isFull_map_withSuspended]
  by_cases hf : rules.isFull slots = true
  · rw [if_pos hf, if_pos hf]
    exact blind_pure slots
  · rw [if_neg hf, if_neg hf]
    exact h slots

/-- **A CUSTOM CHECK IS THE ONLY PLACE OF THE EXCHANGE**: an immediate one is called, and a
    suspended one is put into a slot without a call. -/
theorem blind_runCustom (node : Node) (place : Place) (value : Json) (custom : Custom) :
    Blind f (rules.runCustom mode node place value custom)
      (rules.runCustom mode (node.withSuspended f) place value (custom.withSuspended f)) := by
  obtain ⟨serial, check | check⟩ := custom
  · intro slots
    show (ExceptT.lift (check value) >>= _) = _ <$> (ExceptT.lift (check value) >>= _)
    rw [map_bind]
    refine congrArg _ (funext fun objection => ?_)
    cases objection with
    | some text =>
        dsimp only
        rw [Node.withSuspended, objection_mapCustoms]
        exact blind_add (.ready (rules.objection node place text)) slots
    | none => exact blind_pure slots
  · cases mode with
    | immediate =>
        intro slots
        rfl
    | suspending =>
        intro slots
        show pure (rules.add _ (.undecided (undecided (node.withSuspended f) place value (f check))))
          = _
        rw [Node.withSuspended, undecided_mapCustoms]
        exact blind_add (.undecided (undecided node place value check)) slots

/-- The custom checks of a node run in the same order. -/
theorem blind_runCustoms (node : Node) (place : Place) (value : Json) (customs : List Custom) :
    Blind f (rules.runCustoms mode node place value customs)
      (rules.runCustoms mode (node.withSuspended f) place value
        (customs.map (Custom.withSuspended f))) := by
  induction customs with
  | nil => exact blind_pure
  | cons custom rest ih =>
      intro slots
      rw [List.map_cons]
      unfold runCustoms
      rw [isFull_map_withSuspended]
      by_cases hf : rules.isFull slots = true
      · rw [if_pos hf, if_pos hf]
        exact blind_pure slots
      · rw [if_neg hf, if_neg hf]
        exact (blind_runCustom node place value custom).bind ih slots

/-- What precedes the look into a value reports in the same words. -/
theorem blind_enter {node : Node} {inside inside' : Json → List Slot → Checking (List Slot)}
    {site : Site} (h : ∀ value, Blind f (inside value) (inside' value)) :
    Blind f (rules.enter node inside site) (rules.enter (node.withSuspended f) inside' site) := by
  refine Blind.unlessFull ?_
  intro slots
  rw [Node.withSuspended, Node.acceptsNull_mapCustoms, Node.required_mapCustoms,
    missing_mapCustoms]
  cases site.value.filter fun value => !value.isNull || node.acceptsNull with
  | some value => exact h value slots
  | none =>
      dsimp only
      by_cases hr : node.facets.required = true
      · rw [if_pos hr, if_pos hr]
        exact blind_add (.ready (rules.missing node site.place)) slots
      · rw [if_neg hr, if_neg hr]
        exact blind_pure slots

/-- A value is checked alike if its parts are. -/
theorem blind_checkValue {node : Node} {place : Place}
    {parts parts' : Json → List Slot → Checking (List Slot)} {value : Json}
    (h : Blind f (parts value) (parts' value)) :
    Blind f (rules.checkValue mode node place parts value)
      (rules.checkValue mode (node.withSuspended f) place parts' value) := by
  intro slots
  unfold checkValue
  rw [Node.withSuspended, Node.base_mapCustoms, Node.ownFaults_mapCustoms, broken_mapCustoms,
    wrongType_mapCustoms, Node.facets_mapCustoms]
  by_cases hb : node.base.fits value = true
  · rw [if_pos hb, if_pos hb]
    have hown : Blind f
        (fun slots => parts value (rules.addAll slots ((node.ownFaults value).map
          fun fault => .ready (rules.broken node place fault))))
        (fun slots => parts' value (rules.addAll slots ((node.ownFaults value).map
          fun fault => .ready (rules.broken node place fault)))) := by
      intro slots
      dsimp only
      rw [← h, ← addAll_map_withSuspended, List.map_map]
      rfl
    -- what a node finds itself does not depend on its suspended checks, nor does whether they
    -- run
    refine hown.bind ?_ slots
    by_cases hf : (node.ownFaults value).isEmpty = true
    · simp only [if_pos hf]
      exact blind_runCustoms node place value node.facets.customs
    · simp only [if_neg hf]
      exact blind_pure
  · rw [if_neg hb, if_neg hb]
    exact blind_add (.ready (rules.wrongType node place)) slots

/-- Items are walked in order, whatever is done at each of them. -/
theorem blind_eachItem {checker checker' : Checker}
    (h : ∀ site, Blind f (checker site) (checker' site)) (record : Option Json) (place : Place)
    (items : List Json) :
    ∀ position, Blind f (eachItem checker record place position items)
      (eachItem checker' record place position items) := by
  induction items with
  | nil =>
      intro position
      exact blind_pure
  | cons item rest ih =>
      intro position
      exact (h ⟨some item, record, place.index position⟩).bind (ih (position + 1))

/-- Unknown members are told by the names of the fields, which stay. -/
theorem blind_addUnknown (g : Node → Node) (fields : List (String × Node))
    (members : Members Json) (place : Place) :
    Blind f (fun slots => pure (rules.addUnknown fields members place slots))
      (fun slots => pure (rules.addUnknown (Members.mapValues g fields) members place slots)) := by
  intro slots
  dsimp only
  unfold addUnknown
  rw [show (Members.mapValues g fields).isEmpty = fields.isEmpty by cases fields <;> rfl]
  by_cases h : (rules.config.allowUnknownFields || fields.isEmpty) = true
  · rw [if_pos h, if_pos h]
    exact blind_pure slots
  · rw [if_neg h, if_neg h, map_pure, ← addAll_map_withSuspended, List.map_map]
    simp only [Members.hasName_mapValues]
    rfl

/-- Fields are walked in order, each of them alike. -/
theorem blind_walkFields {fields : List (String × Node)}
    (h : ∀ field ∈ fields, ∀ site,
      Blind f (rules.walk mode field.2 site) (rules.walk mode (field.2.withSuspended f) site))
    (value : Json) (place : Place) :
    Blind f (rules.walkFields mode fields value place)
      (rules.walkFields mode (Members.mapValues (Node.withSuspended f) fields) value place) := by
  induction fields with
  | nil => exact blind_pure
  | cons field rest ih =>
      obtain ⟨name, node⟩ := field
      have hrest := ih fun field hmem => h field (List.mem_cons_of_mem _ hmem)
      exact (h (name, node) List.mem_cons_self ⟨value.member? name, some value, place.key name⟩).bind
        hrest

/-! ## Unions -/

/-- The same trial with exchanged checks in its slots. -/
def exchangeTrial (f : (Json → Task (Option String)) → Json → Task (Option String)) :
    Trial → Trial
  | .agreed own => .agreed (own.map (Slot.withSuspended f))
  | .refused closest => .refused (closest.map (List.map (Slot.withSuspended f)))

/-- The members of a union are tried in the same order, and what is kept of them is exchanged. -/
theorem walkMembers_withSuspended {members : List Node} {site : Site}
    (h : ∀ node ∈ members,
      Blind f (rules.walk mode node site) (rules.walk mode (node.withSuspended f) site))
    (value : Json) :
    ∀ closest, rules.walkMembers mode (members.map (Node.withSuspended f)) value site
        (closest.map (List.map (Slot.withSuspended f)))
      = exchangeTrial f <$> rules.walkMembers mode members value site closest := by
  induction members with
  | nil =>
      intro closest
      rfl
  | cons member rest ih =>
      intro closest
      have hown := h member List.mem_cons_self []
      have hrest := ih fun node hmem => h node (List.mem_cons_of_mem _ hmem)
      show (rules.walk mode (member.withSuspended f) site [] >>= _)
        = _ <$> (rules.walk mode member site [] >>= _)
      rw [List.map_nil] at hown
      rw [hown, bind_map_left, map_bind]
      -- an exchange of checks takes no error away and adds none
      refine congrArg _ (funext fun own => ?_)
      rw [hasErrors_map_withSuspended, Node.withSuspended, Node.mapCustoms, Node.fits_mapEach]
      by_cases he : hasErrors own = true
      · rw [if_pos he, if_pos he, ← hrest]
        cases closest with
        | some found => rfl
        | none =>
            cases member.fits value <;> rfl
      · rw [if_neg he, if_neg he]
        rfl

/-- A trial is concluded alike: the same member wins, or the same errors are reported. -/
theorem concludeTrial_withSuspended (node : Node) (members : List Node) (place : Place)
    (value : Json) (trial : Trial) :
    Blind f (fun slots => rules.concludeTrial mode node members place value slots trial)
      (fun slots => rules.concludeTrial mode (node.withSuspended f)
        (members.map (Node.withSuspended f)) place value slots (exchangeTrial f trial)) := by
  intro slots
  cases trial with
  | agreed own =>
      show rules.runCustoms mode _ place value (node.withSuspended f).facets.customs
        (rules.addAll _ (own.map (Slot.withSuspended f))) = _
      rw [addAll_map_withSuspended, Node.withSuspended, Node.facets_mapCustoms]
      exact blind_runCustoms node place value node.facets.customs _
  | refused closest =>
      cases closest with
      | none =>
          show pure (rules.add _ (.ready (rules.noMember (node.mapCustoms (Custom.withSuspended f)) place
            (members.map (Node.mapCustoms (Custom.withSuspended f)))))) = _
          rw [noMember_mapCustoms]
          exact blind_add (.ready (rules.noMember node place members)) slots
      | some own =>
          show pure (rules.addAll _ (own.map (Slot.withSuspended f))) = _
          rw [addAll_map_withSuspended]
          rfl

/-! ## Branches -/

theorem blind_followOption {picked : Option Node} {site : Site}
    (h : ∀ node ∈ picked,
      Blind f (rules.walk mode node site) (rules.walk mode (node.withSuspended f) site)) :
    Blind f (followOption (picked.map (rules.walk mode)) site)
      (followOption ((picked.map (Node.withSuspended f)).map (rules.walk mode)) site) := by
  cases picked with
  | none => exact blind_pure
  | some node => exact h node rfl

/-- What a computation goes on with matters only at the value it comes to. -/
theorem lift_bind_congr {α β : Type} (x : Noted α) {k k' : α → Checking β}
    (h : k x.value = k' x.value) : (ExceptT.lift x >>= k) = (ExceptT.lift x >>= k') := by
  show Noted.mk (k x.value).run.value (_ ++ (k x.value).run.notes)
    = Noted.mk (k' x.value).run.value (_ ++ (k' x.value).run.notes)
  rw [h]

/-- A change to what was asked can be made by what goes on with it. -/
theorem lift_map_bind {α β γ : Type} (g : α → β) (x : Noted α) (k : β → Checking γ) :
    (ExceptT.lift (g <$> x) >>= k) = (ExceptT.lift x >>= fun a => k (g a)) := by
  show Noted.mk _ (((x.notes ++ []) ++ []) ++ _) = Noted.mk _ ((x.notes ++ []) ++ _)
  rw [List.append_nil (x.notes ++ [])]
  rfl

/-- A chain makes the same choice, for conditions see no check of the tree. -/
theorem blind_followChain {holder holder' : Option Node} (chain : Chain Node) {site : Site}
    (hholder : ∀ message, rules.failing holder' site.place message
      = rules.failing holder site.place message)
    (h : ∀ node ∈ chain.targets,
      Blind f (rules.walk mode node site) (rules.walk mode (node.withSuspended f) site)) :
    Blind f
      (rules.followChain holder
        ⟨rules.walkEntries mode chain.entries, rules.walkFallback mode chain.fallback⟩ site)
      (rules.followChain holder'
        ⟨rules.walkEntries mode (chain.entries.map (Chain.Entry.map (Node.withSuspended f))),
          rules.walkFallback mode (chain.fallback.map (Node.withSuspended f))⟩ site) := by
  intro slots
  unfold followChain Chain.select
  dsimp only
  rw [walkEntries_eq_map, walkEntries_eq_map, walkFallback_eq_map, walkFallback_eq_map,
    Chain.selectFrom_map, Chain.selectFrom_map, Chain.selectFrom_map, map_bind, lift_map_bind,
    lift_map_bind, lift_map_bind]
  refine lift_bind_congr _ ?_
  cases hs : (Chain.selectFrom chain.fallback site.context chain.entries).value with
  | fail message =>
      show pure (rules.add _ (.ready (rules.failing holder' site.place message))) = _
      rw [hholder]
      exact blind_add (.ready (rules.failing holder site.place message)) slots
  | pass => exact blind_pure slots
  | validate node => exact h node (Chain.mem_targets_of_selectFrom hs) slots

/-! ## Whole walks -/

/-- **THE WALK STARTS NO SUSPENDED CHECK**: with other checks in their place it makes
    the same notes and comes to the same slots, up to the exchange. -/
theorem walk_withSuspended (node : Node) :
    ∀ site, Blind f (rules.walk mode node site) (rules.walk mode (node.withSuspended f) site) := by
  induction node using Node.induction with
  | leaf type facets =>
      intro site
      exact blind_enter fun value => blind_checkValue blind_pure
  | object facets fields h =>
      intro site
      have hnode := Node.mapEach_object (Facets.mapCustoms (Custom.withSuspended f)) facets fields
      rw [show (Node.object facets fields).withSuspended f = _ from hnode]
      show Blind f (rules.enter _ _ site) (rules.enter _ _ site)
      rw [← hnode]
      refine blind_enter fun value => blind_checkValue ?_
      exact (blind_walkFields h value site.place).bind (blind_addUnknown _ fields _ site.place)
  | array facets items h =>
      intro site
      cases items with
      | none => exact blind_enter fun value => blind_checkValue blind_pure
      | some items =>
          refine blind_enter fun value => blind_checkValue ?_
          exact blind_eachItem (h items rfl) site.record site.place (itemsOf value) 0
  | union facets members h =>
      intro site
      have hnode := Node.mapEach_union (Facets.mapCustoms (Custom.withSuspended f)) facets members
      rw [show (Node.union facets members).withSuspended f = _ from hnode]
      show Blind f (rules.enter _ _ site) (rules.enter _ _ site)
      rw [← hnode]
      refine blind_enter fun value => ?_
      intro slots
      have htrial := walkMembers_withSuspended (fun node hmem => h node hmem site) value none
      show (rules.walkMembers mode (members.map (Node.withSuspended f)) value site none >>= _)
        = _ <$> (rules.walkMembers mode members value site none >>= _)
      rw [show rules.walkMembers mode (members.map (Node.withSuspended f)) value site none = _
        from htrial, bind_map_left, map_bind]
      refine congrArg _ (funext fun trial => ?_)
      exact concludeTrial_withSuspended (.union facets members) members site.place value trial slots
  | matching facets reference cases h =>
      intro site
      have hnode := Node.mapEach_matching (Facets.mapCustoms (Custom.withSuspended f)) facets
        reference cases
      rw [show (Node.matching facets reference cases).withSuspended f = _ from hnode]
      refine Blind.unlessFull ?_
      show Blind f
        (followOption (pickCase? reference (rules.walkCases mode cases) site.context) site)
        (followOption (pickCase? reference
          (rules.walkCases mode (Members.mapValues (Node.withSuspended f) cases)) site.context) site)
      rw [walkCases_eq_mapValues, walkCases_eq_mapValues, pickCase?_map, pickCase?_map, pickCase?_map]
      refine blind_followOption fun node hmem => ?_
      obtain ⟨case, hcase, rfl⟩ := exists_mem_of_mem_pickCase? hmem
      exact h case hcase site
  | switch facets field yes no hyes hno =>
      intro site
      have hpick : Blind f
          (followOption (pickSide? field (rules.walk mode yes) (no.map (rules.walk mode))
            site.context) site)
          (followOption (pickSide? field (rules.walk mode (yes.withSuspended f))
            ((no.map (Node.withSuspended f)).map (rules.walk mode)) site.context) site) := by
        rw [pickSide?_map, pickSide?_map, pickSide?_map]
        refine blind_followOption fun node hmem => ?_
        rcases mem_pickSide? hmem with rfl | hmem
        · exact hyes site
        · exact hno node hmem site
      -- with and without a second side, what is walked is the side that was picked
      cases no with
      | none => exact Blind.unlessFull hpick
      | some no => exact Blind.unlessFull hpick
  | chain facets body h =>
      intro site
      have hnode := Node.mapEach_chain (Facets.mapCustoms (Custom.withSuspended f)) facets body
      rw [show (Node.chain facets body).withSuspended f = _ from hnode]
      obtain ⟨entries, fallback⟩ := body
      refine Blind.unlessFull ?_
      refine blind_followChain ⟨entries, fallback⟩ (fun message => ?_)
        fun node hmem => h node hmem site
      rw [← hnode]
      exact failing_mapCustoms rules _ _ site.place message

/-- Changing a result leaves the notes. -/
theorem notes_map {α β : Type} (g : α → β) (x : Checking α) :
    (g <$> x).run.notes = x.run.notes := by
  obtain ⟨outcome, notes⟩ := x
  cases outcome with
  | ok a => exact List.append_nil notes
  | error error => exact List.append_nil notes

/-- The notes of a walk are the same with other suspended checks. -/
theorem notes_walk_withSuspended
    (f : (Json → Task (Option String)) → Json → Task (Option String)) (node : Node) (site : Site) :
    (rules.walk mode (node.withSuspended f) site []).run.notes
      = (rules.walk mode node site []).run.notes := by
  have h : rules.walk mode (node.withSuspended f) site [] = _ := walk_withSuspended node site []
  rw [h, notes_map]

end Rules

end Conform
