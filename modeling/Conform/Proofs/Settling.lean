import Conform.Proofs.EarlyEnd
import Conform.Proofs.ExchangedCustoms

/-! # Settling — suspended checks done at once

    A tree is SETTLED when each of its custom checks gives its verdict at once and
    without a note.  The findings of the settled tree are what the slots of the
    tree come to, as long as every union settles on a member that stays without
    errors once its suspended checks are done (`Stands`).  This is a matter of the
    members that are kept only: where a member is refused for an error that is
    there at once, the settled member is refused too. -/

namespace Conform

/-- The objection that a custom check comes to, at once or later. -/
def Custom.verdict (custom : Custom) (value : Json) : Option String :=
  match custom.check with
  | .immediate check => (check value).value
  | .suspended check => (check value).run.value

/-- The custom check that gives the verdict at once. -/
def Custom.settled (custom : Custom) : Custom :=
  ⟨0, .immediate fun value => pure (custom.verdict value)⟩

/-- The tree with all its custom checks settled. -/
def Node.settled : Node → Node := Node.mapCustoms Custom.settled

namespace Rules

variable {rules : Rules}

/-! ## Slots that are decided -/

/-- The errors that slots come to, as slots. -/
def settle (rules : Rules) (slots : List Slot) : List Slot :=
  (slots.filterMap rules.outcome?).map Slot.ready

theorem settle_append (slots more : List Slot) :
    rules.settle (slots ++ more) = rules.settle slots ++ rules.settle more := by
  unfold settle
  rw [List.filterMap_append, List.map_append]

theorem settle_eq_nil_iff (slots : List Slot) :
    rules.settle slots = [] ↔ ∀ slot ∈ slots, rules.outcome? slot = none := by
  unfold settle
  rw [List.map_eq_nil_iff, List.filterMap_eq_nil_iff]

/-- Errors stay errors. -/
theorem settle_of_isReady {slots : List Slot} (h : ∀ slot ∈ slots, slot.isReady = true) :
    rules.settle slots = slots := by
  induction slots with
  | nil => rfl
  | cons slot rest ih =>
      have hrest := ih fun slot hmem => h slot (List.mem_cons_of_mem _ hmem)
      cases slot with
      | ready error =>
          show Slot.ready error :: rules.settle rest = _
          rw [hrest]
      | undecided check => exact nomatch h _ List.mem_cons_self

/-- Errors that are ready stay. -/
theorem hasErrors_settle_of_hasErrors {slots : List Slot} (h : hasErrors slots = true) :
    hasErrors (rules.settle slots) = true := by
  obtain ⟨slot, hmem, hready⟩ := List.any_eq_true.1 h
  cases slot with
  | ready error =>
      refine List.any_eq_true.2 ⟨.ready error, List.mem_map.2 ⟨error, ?_, rfl⟩, rfl⟩
      exact List.mem_filterMap.2 ⟨_, hmem, rfl⟩
  | undecided check => exact nomatch hready

/-- After settling, slots are clean exactly if none is left. -/
theorem hasErrors_settle_eq_false_iff (slots : List Slot) :
    hasErrors (rules.settle slots) = false ↔ rules.settle slots = [] := by
  unfold settle
  cases slots.filterMap rules.outcome? with
  | nil => exact ⟨fun _ => rfl, fun _ => rfl⟩
  | cons error rest =>
      constructor
      · intro h
        exact nomatch h
      · intro h
        exact nomatch h

/-! ## Custom checks -/

/-- What an immediate check finds is its verdict. -/
theorem customFindings_immediate (node : Node) (place : Place) (value : Json) (serial : Nat)
    (check : Json → Noted (Option String)) :
    rules.customFindings node place value ⟨serial, .immediate check⟩
      = ((check value).value.map fun text => Slot.ready (rules.objection node place text)).toList := by
  unfold customFindings
  dsimp only
  cases (check value).value with
  | none => rfl
  | some text => rfl

/-- A settled custom check finds at once what the suspended one comes to. -/
theorem customFindings_settled (node : Node) (place : Place) (value : Json) (custom : Custom) :
    rules.customFindings node.settled place value custom.settled
      = rules.settle (rules.customFindings node place value custom) := by
  rw [Custom.settled, customFindings_immediate]
  simp only [Node.settled, objection_mapCustoms]
  obtain ⟨serial, check | check⟩ := custom
  · rw [customFindings_immediate]
    show ((check value).value.map _).toList = _
    cases (check value).value <;> rfl
  · have hlate : rules.outcome? (.undecided (undecided node place value check))
        = (check value).run.value.map (rules.objection node place) := rfl
    show ((check value).run.value.map _).toList
      = rules.settle [.undecided (undecided node place value check)]
    unfold settle
    rw [List.filterMap_cons, hlate]
    cases (check value).run.value <;> rfl

/-- Settled custom checks find at once what the suspended ones come to. -/
theorem allCustomFindings_settled (node : Node) (place : Place) (value : Json) :
    rules.allCustomFindings node.settled place value
      = rules.settle (rules.allCustomFindings node place value) := by
  unfold allCustomFindings
  rw [Node.settled, Node.facets_mapCustoms]
  show (node.facets.customs.map Custom.settled).flatMap _ = _
  rw [List.flatMap_map]
  induction node.facets.customs with
  | nil => rfl
  | cons custom rest ih =>
      rw [List.flatMap_cons, List.flatMap_cons, settle_append, ih]
      exact congrArg (· ++ _) (customFindings_settled node place value custom)

/-! ## Members that are refused -/

/-- The member that agrees is one of the members, and finds no errors. -/
theorem mem_of_agreed? {members : List Node} {site : Site} {member : Node}
    (h : rules.agreed? members site = some member) :
    member ∈ members ∧ hasErrors (rules.findings member site) = false := by
  have hclean := List.find?_some h
  rw [Bool.not_eq_true'] at hclean
  exact ⟨List.mem_of_find?_eq_some h, hclean⟩

/-- If no member agrees, all of them find errors. -/
theorem hasErrors_of_agreed?_eq_none {members : List Node} {site : Site}
    (h : rules.agreed? members site = none) :
    ∀ member ∈ members, hasErrors (rules.findings member site) = true := by
  intro member hmem
  have hn := List.find?_eq_none.1 h member hmem
  rw [Bool.not_eq_true', Bool.not_eq_false] at hn
  exact hn

/-- A union that settles on no member finds an error. -/
theorem hasErrors_trialFindings_of_refused {node : Node} {listed members : List Node} {site : Site}
    {place : Place} {value : Json} (h : rules.agreed? members site = none) :
    hasErrors (rules.trialFindings node listed place value (rules.trialAt members site value))
      = true := by
  unfold trialAt
  rw [h]
  dsimp only
  cases hc : members.find? (Node.fits value) with
  | none => rfl
  | some closest => exact hasErrors_of_agreed?_eq_none h closest (List.mem_of_find?_eq_some hc)

/-- **AN ERROR THAT IS THERE AT ONCE STAYS**: the settled tree finds errors wherever
    the tree does before its suspended checks are done. -/
theorem exchange_hasErrors :
    Exchange rules Custom.settled (fun _ _ => True)
      (fun slots settled => hasErrors slots = true → hasErrors settled = true) where
  nil := id
  append := by
    intro one one' two two' h1 h2 h
    rw [hasErrors_append, Bool.or_eq_true] at h ⊢
    exact h.imp h1 h2
  ready := fun _ h => h
  customs := by
    intro node site _ place value h
    rw [show rules.allCustomFindings (node.mapCustoms Custom.settled) place value = _ from
      allCustomFindings_settled node place value]
    exact hasErrors_settle_of_hasErrors h
  parts := fun _ _ => trivial
  trials := by
    intro facets members site value _ _ ih h
    cases hs : rules.agreed? (members.map (Node.mapCustoms Custom.settled)) site with
    | none => exact hasErrors_trialFindings_of_refused hs
    | some settled =>
        -- the member was free of errors before, so only the custom checks of the union are left
        obtain ⟨hmem, hclean⟩ := mem_of_agreed? hs
        obtain ⟨member, hmember, rfl⟩ := List.mem_map.1 hmem
        cases ha : rules.agreed? members site with
        | none =>
            -- every member had an error, which it still has
            have herrors := hasErrors_of_agreed?_eq_none ha member hmember
            rw [ih member hmember site trivial herrors] at hclean
            exact nomatch hclean
        | some agreed =>
            unfold trialAt at h ⊢
            rw [ha] at h
            rw [hs]
            dsimp only [trialFindings] at h ⊢
            rw [hasErrors_append, (mem_of_agreed? ha).2, Bool.false_or] at h
            rw [show rules.allCustomFindings ((Node.union facets members).mapCustoms Custom.settled)
                site.place value = _ from allCustomFindings_settled _ site.place value,
              hasErrors_append, hasErrors_settle_of_hasErrors h, Bool.or_true]

theorem hasErrors_findings_settled {node : Node} {site : Site}
    (h : hasErrors (rules.findings node site) = true) :
    hasErrors (rules.findings node.settled site) = true :=
  exchange_hasErrors.findings node site trivial h

/-! ## Unions that stand -/

/-- Every member that a union settles on comes to no error, at all unions that the
    node keeps at the site. -/
def Stands (rules : Rules) (node : Node) (site : Site) : Prop :=
  ∀ facets members here value member, rules.Keeps node site (.union facets members) here →
    (Node.union facets members).present? here = some value →
    rules.agreed? members here = some member →
    ∀ slot ∈ rules.findings member here, rules.outcome? slot = none

theorem Stands.part {node part : Node} {site partSite : Site} (h : rules.Stands node site)
    (hpart : rules.Part node site part partSite) : rules.Stands part partSite := by
  intro facets members here value member hkeeps
  exact h facets members here value member (.step hpart hkeeps)

/-- The settled member is settled on where the member is that stands. -/
theorem agreed?_settled {members : List Node} {site : Site} {member : Node}
    (h : rules.agreed? members site = some member)
    (hstands : hasErrors (rules.findings member.settled site) = false) :
    rules.agreed? (members.map Node.settled) site = some member.settled := by
  obtain ⟨hclean, before, after, rfl, hbefore⟩ := List.find?_eq_some_iff_append.1 h
  refine List.find?_eq_some_iff_append.2
    ⟨by rw [hstands]; rfl, before.map Node.settled, after.map Node.settled, by
      rw [List.map_append, List.map_cons], ?_⟩
  intro settled hmem
  obtain ⟨earlier, hearlier, rfl⟩ := List.mem_map.1 hmem
  have herrors := hbefore earlier hearlier
  rw [Bool.not_not] at herrors
  -- the members before it had errors, and settling takes none away
  rw [hasErrors_findings_settled herrors]
  rfl

/-- If no member agrees, none does after settling. -/
theorem agreed?_settled_eq_none {members : List Node} {site : Site}
    (h : rules.agreed? members site = none) :
    rules.agreed? (members.map Node.settled) site = none := by
  refine List.find?_eq_none.2 fun settled hmem => ?_
  obtain ⟨member, hmember, rfl⟩ := List.mem_map.1 hmem
  rw [hasErrors_findings_settled (hasErrors_of_agreed?_eq_none h member hmember)]
  exact Bool.false_ne_true

/-- **WHERE UNIONS STAND, SETTLING IS DECIDING**: the settled tree finds what the
    slots of the tree come to. -/
theorem exchange_settle :
    Exchange rules Custom.settled rules.Stands
      (fun slots settled => settled = rules.settle slots) where
  nil := rfl
  append := by
    intro one one' two two' h1 h2
    rw [h1, h2, settle_append]
  ready := fun _ => rfl
  customs := fun _ place value => allCustomFindings_settled _ place value
  parts := Stands.part
  trials := by
    intro facets members site value hstands hvalue ih
    cases ha : rules.agreed? members site with
    | some member =>
        have hnone : rules.settle (rules.findings member site) = [] :=
          (settle_eq_nil_iff _).2 (hstands facets members site value member (.here _ _) hvalue ha)
        have hsettled : rules.findings member.settled site = [] := by
          rw [← hnone]
          exact ih member (mem_of_agreed? ha).1 site (hstands.part (.agreed hvalue ha))
        have hagreed : rules.agreed? (members.map (Node.mapCustoms Custom.settled)) site
            = some member.settled := agreed?_settled ha (by rw [hsettled]; rfl)
        unfold trialAt
        rw [ha, hagreed]
        dsimp only [trialFindings]
        rw [hsettled, settle_append, hnone]
        exact allCustomFindings_settled _ site.place value
    | none =>
        -- no member is settled on now either, and the closest one is the same
        have hrefused : rules.agreed? (members.map (Node.mapCustoms Custom.settled)) site = none :=
          agreed?_settled_eq_none ha
        have hclosest : (members.map (Node.mapCustoms Custom.settled)).find? (Node.fits value)
            = (members.find? (Node.fits value)).map Node.settled := by
          rw [List.find?_map]
          refine congrArg (Option.map Node.settled) (congrArg (List.find? · members) ?_)
          funext node
          exact Node.fits_mapEach _ value node
        unfold trialAt
        rw [ha, hrefused, hclosest]
        cases hc : members.find? (Node.fits value) with
        | some member =>
            exact ih member (List.mem_of_find?_eq_some hc) site (hstands.part (.closest hvalue ha hc))
        | none =>
            show [Slot.ready (rules.noMember (Node.mapCustoms Custom.settled _) _ _)] = _
            rw [noMember_mapCustoms]
            rfl

/-- **SETTLED TREES FIND WHAT IS LEFT AFTER WAITING**, where the unions stand. -/
theorem findings_settled {node : Node} {site : Site} (h : rules.Stands node site) :
    rules.findings node.settled site = rules.settle (rules.findings node site) :=
  exchange_settle.findings node site h

/-- Where all that is found comes to nothing, every union that is kept stands. -/
theorem stands_of_settle_eq_nil {node : Node} {site : Site}
    (h : rules.settle (rules.findings node site) = []) : rules.Stands node site := by
  intro facets members here value member hkeeps hvalue hagreed slot hmem
  have hfound : slot ∈ rules.findings (.union facets members) here :=
    mem_findings_of_part (.agreed hvalue hagreed) hmem
  exact (settle_eq_nil_iff _).1 h slot (mem_findings_of_keeps hkeeps hfound)

end Rules

end Conform
