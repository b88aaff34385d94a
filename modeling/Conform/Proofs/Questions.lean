import Mathlib.Data.List.Basic
import Conform.Proofs.Inquiries

/-! # Questions — what a validation asks until errors end it

    Where the first error ends the validation, a walk does nothing once the slots are full.
    So a node REACHES its parts only up to the first that has an error, and asks its own
    checks only if nothing was found before.  The members of a union have slots of their own
    each, and are tried whatever came before.

    Main fact: from slots with room a walk asks its QUESTIONS, which are read off the tree
    without walking, and nothing else makes a note on the way (`walk_inquires`).  It covers
    both ways of ending. -/

namespace Conform

/-! ## Notes of computations -/

section

variable {α β : Type}

/-- What comes next adds its notes after those that were made. -/
theorem notes_bind_of_yields {x : Checking α} {f : α → Checking β} {a : α} (h : Yields x a) :
    (x >>= f).run.notes = x.run.notes ++ (f a).run.notes := by
  have hvalue : x.run.value = .ok a := h
  show x.run.notes ++ (ExceptT.bindCont f x.run.value).notes = _
  rw [hvalue]
  rfl

end

namespace Rules

variable {rules : Rules} {node : Node} {site : Site}

/-! ## Parts that are visited, and questions -/

/-- The parts that are visited once a node is. -/
def reached (rules : Rules) (node : Node) (site : Site) : List (Node × Site) :=
  match node with
  | .union _ _ => rules.tries node site
  | _ =>
      if rules.isFull (rules.opening node site) then []
      else upTo (fun part => rules.isFull (rules.findings part.1 part.2)) (rules.parts node site)

/-- The immediate checks that a node asks about a value, up to one that ends the validation. -/
def customQuestions (rules : Rules) (node : Node) (site : Site) (value : Json) : List Inquiry :=
  ((upTo (fun custom => rules.isFull (rules.customFindings node site.place value custom))
    node.facets.customs).filterMap Custom.immediate?).map (.custom node site value)

/-- What a node finds in a value before its checks are asked. -/
def priorFindings (rules : Rules) (node : Node) (site : Site) (value : Json) : List Slot :=
  rules.opening node site
    ++ ((rules.parts node site).flatMap fun part => rules.findings part.1 part.2)
    ++ rules.unknownAt node site value

/-- What a node asks after its parts: its immediate checks, where its own checks hold and
    nothing ended the validation before. -/
def closingQuestions (rules : Rules) (node : Node) (site : Site) : List Inquiry :=
  (node.present? site).toList.flatMap fun value =>
    if rules.passes node site value && !rules.isFull (rules.priorFindings node site value) then
      rules.customQuestions node site value
    else []

/-- Whatever is reached belongs to the node. -/
theorem mem_children_of_mem_reached {part : Node × Site} (h : part ∈ rules.reached node site) :
    part.1 ∈ node.children := by
  unfold reached at h
  split at h
  · exact mem_children_of_mem_tries h
  · split at h
    · exact nomatch h
    · exact (part_of_mem_parts (mem_of_mem_upTo h)).mem_children

/-- What is asked from outside once a node is visited, in order. -/
def questions (rules : Rules) (node : Node) (site : Site) : List Inquiry :=
  openingInquiries node site
    ++ ((rules.reached node site).attach.flatMap fun part => questions rules part.1.1 part.1.2)
    ++ rules.closingQuestions node site
termination_by sizeOf node
decreasing_by exact Node.sizeOf_lt_of_mem_children (mem_children_of_mem_reached part.2)

/-- A node is asked first for its own choice, then at what is reached, and last by custom
    checks. -/
theorem questions_eq (node : Node) (site : Site) :
    rules.questions node site
      = openingInquiries node site
        ++ ((rules.reached node site).flatMap fun part => rules.questions part.1 part.2)
        ++ rules.closingQuestions node site := by
  have hforget : ∀ part (h : part ∈ rules.reached node site),
      rules.questions (Subtype.mk part h).1.1 (Subtype.mk part h).1.2
        = rules.questions part.1 part.2 :=
    fun _ _ => rfl
  rw [questions, List.flatMap_subtype hforget, List.unattach_attach]

/-! ## Single steps -/

/-- With room in the slots, the step makes the notes of these inquiries. -/
def Inquires (rules : Rules) (step : List Slot → Checking (List Slot)) (asked : List Inquiry) :
    Prop :=
  ∀ slots, rules.isFull slots = false → (step slots).run.notes = asked.flatMap Inquiry.notes

/-- Without room in the slots, the step does nothing. -/
def Rests (rules : Rules) (step : List Slot → Checking (List Slot)) : Prop :=
  ∀ slots, rules.isFull slots = true → step slots = pure slots

/-- The step asks these inquiries and reports these findings while there is room. -/
structure Proceeds (rules : Rules) (step : List Slot → Checking (List Slot))
    (asked : List Inquiry) (found : List Slot) : Prop where
  inquires : rules.Inquires step asked
  reports : rules.Reports step found
  rests : rules.Rests step

theorem proceeds_pure : rules.Proceeds (fun slots => pure slots) [] [] where
  inquires _ _ := rfl
  reports := reports_pure
  rests _ _ := rfl

theorem rests_unlessFull (checker : Checker) : rules.Rests (rules.unlessFull checker site) :=
  fun _ hfull => if_pos hfull

theorem rests_enter (node : Node) (inside : Json → List Slot → Checking (List Slot)) (site : Site) :
    rules.Rests (rules.enter node inside site) :=
  rests_unlessFull _

theorem Inquires.congr {step : List Slot → Checking (List Slot)} {asked other : List Inquiry}
    (h : rules.Inquires step asked) (heq : asked = other) : rules.Inquires step other :=
  heq ▸ h

/-- A guard does not change what is asked where there is room. -/
theorem Inquires.unlessFull {checker : Checker} {asked : List Inquiry}
    (h : rules.Inquires (checker site) asked) :
    rules.Inquires (rules.unlessFull checker site) asked := by
  intro slots hroom
  unfold Rules.unlessFull
  rw [hroom, if_neg Bool.false_ne_true]
  exact h slots hroom

/-- **ONE STEP AFTER THE OTHER**: the second asks only if the first left room. -/
theorem Inquires.bind {first second : List Slot → Checking (List Slot)} {one two : List Inquiry}
    {found more : List Slot} (h1 : rules.Inquires first one) (hreports : rules.Reports first found)
    (h2 : rules.Proceeds second two more) :
    rules.Inquires (fun slots => first slots >>= second)
      (one ++ if rules.isFull found then [] else two) := by
  intro slots hroom
  have hyields := hreports slots
  rw [keep_of_isFull_eq_false rules hroom] at hyields
  have hfull : rules.isFull (rules.keep (slots ++ found)) = rules.isFull found := by
    rw [isFull_keep rules, isFull_append rules, hroom, Bool.false_or]
  rw [notes_bind_of_yields hyields, h1 slots hroom, List.flatMap_append]
  refine congrArg (_ ++ ·) ?_
  cases hfound : rules.isFull found with
  | true =>
      rw [h2.rests _ (hfull.trans hfound), if_pos rfl]
      rfl
  | false =>
      rw [if_neg Bool.false_ne_true]
      exact h2.inquires _ (hfull.trans hfound)

/-- **STEPS IN A ROW ASK IN A ROW**, unless the first one finds errors enough. -/
theorem Proceeds.bind {first second : List Slot → Checking (List Slot)} {one two : List Inquiry}
    {found more : List Slot} (h1 : rules.Proceeds first one found)
    (h2 : rules.Proceeds second two more) :
    rules.Proceeds (fun slots => first slots >>= second)
      (one ++ if rules.isFull found then [] else two) (found ++ more) where
  inquires := h1.inquires.bind h1.reports h2
  reports := h1.reports.bind h2.reports
  rests slots hfull := by
    show first slots >>= second = _
    rw [h1.rests slots hfull]
    exact h2.rests slots hfull

theorem rests_addAll (more : List Slot) : rules.Rests fun slots => pure (rules.addAll slots more) := by
  intro slots hfull
  induction more with
  | nil => rfl
  | cons slot rest ih =>
      have hadd : rules.add slots slot = slots := if_pos hfull
      show pure (rules.addAll (rules.add slots slot) rest) = _
      rw [hadd]
      exact ih

theorem proceeds_addAll (more : List Slot) :
    rules.Proceeds (fun slots => pure (rules.addAll slots more)) [] more where
  inquires _ _ := rfl
  reports := reports_addAll more
  rests := rests_addAll more

/-- Unknown members are found without a question. -/
theorem proceeds_addUnknown (fields : List (String × Node)) (members : Members Json)
    (place : Place) :
    rules.Proceeds (fun slots => pure (rules.addUnknown fields members place slots)) []
      (rules.unknownFindings fields members place) where
  inquires _ _ := rfl
  reports := reports_addUnknown fields members place
  rests slots hfull := by
    unfold addUnknown
    split
    · rfl
    · exact rests_addAll _ slots hfull

/-- A list of steps asks up to the first that leaves no room. -/
theorem flatMap_upTo_cons {α β : Type} (p : α → Bool) (f : α → List β) (a : α) (rest : List α) :
    (upTo p (a :: rest)).flatMap f = f a ++ if p a then [] else (upTo p rest).flatMap f := by
  rw [upTo]
  split
  · rw [List.flatMap_singleton, List.append_nil]
  · rw [List.flatMap_cons]

/-! ## Custom checks -/

theorem inquires_runCustom (node : Node) (site : Site) (value : Json) (custom : Custom) :
    rules.Inquires (rules.runCustom .suspending node site.place value custom)
      (custom.immediate?.toList.map (.custom node site value)) := by
  intro slots _
  obtain ⟨after, hafter⟩ := asks_runCustom rules node site custom value slots
  exact congrArg Noted.notes hafter

/-- Custom checks are asked in order, up to the first objection when validation ends early. -/
theorem proceeds_runCustoms (node : Node) (site : Site) (value : Json) (customs : List Custom) :
    rules.Proceeds (rules.runCustoms .suspending node site.place value customs)
      (((upTo (fun custom => rules.isFull (rules.customFindings node site.place value custom))
        customs).filterMap Custom.immediate?).map (.custom node site value))
      (customs.flatMap (rules.customFindings node site.place value)) := by
  induction customs with
  | nil => exact proceeds_pure
  | cons custom rest ih =>
      refine ⟨fun slots hroom => ?_, reports_runCustoms node site.place value _,
        fun slots hfull => if_pos hfull⟩
      -- with room for it, the first check is asked, and the rest if that leaves room
      have hone := (inquires_runCustom node site value custom).bind
        (reports_runCustom node site.place value custom) ih
      unfold runCustoms
      rw [hroom, if_neg Bool.false_ne_true]
      refine (hone slots hroom).trans (congrArg (List.flatMap Inquiry.notes) ?_)
      rw [List.filterMap_eq_flatMap_toList, List.filterMap_eq_flatMap_toList, List.map_flatMap,
        List.map_flatMap, flatMap_upTo_cons]

/-! ## Parts in a row -/

/-- The walks of parts, one after the other. -/
def walkParts (rules : Rules) : List (Node × Site) → List Slot → Checking (List Slot)
  | [], slots => pure slots
  | part :: rest, slots => rules.walk .suspending part.1 part.2 slots >>= walkParts rules rest

/-- Fields are parts, each at its member. -/
theorem walkFields_eq_walkParts (fields : List (String × Node)) (value : Json) (place : Place)
    (slots : List Slot) :
    rules.walkFields .suspending fields value place slots
      = rules.walkParts (fields.map fun field =>
          (field.2, ⟨value.member? field.1, some value, place.key field.1⟩)) slots := by
  induction fields generalizing slots with
  | nil => rfl
  | cons field rest ih =>
      show rules.walk _ _ _ slots >>= rules.walkFields .suspending rest value place = _
      rw [funext ih]
      rfl

/-- Items are parts, each at its index. -/
theorem eachItem_eq_walkParts (items : Node) (record : Option Json) (place : Place)
    (values : List Json) (position : Nat) (slots : List Slot) :
    eachItem (rules.walk .suspending items) record place position values slots
      = rules.walkParts ((values.zipIdx position).map fun item =>
          (items, ⟨some item.1, record, place.index item.2⟩)) slots := by
  induction values generalizing position slots with
  | nil => rfl
  | cons value rest ih =>
      show rules.walk _ _ _ slots >>= eachItem _ record place (position + 1) rest = _
      rw [funext (ih (position + 1))]
      rfl

/-- A walk that starts without room does nothing. -/
theorem rests_walk (node : Node) (site : Site) : rules.Rests (rules.walk .suspending node site) := by
  cases node with
  | leaf type facets => exact rests_enter _ _ _
  | object facets fields => exact rests_enter _ _ _
  | array facets items => cases items <;> exact rests_enter _ _ _
  | union facets members => exact rests_enter _ _ _
  | matching facets reference cases => exact rests_unlessFull _
  | switch facets field yes no => cases no <;> exact rests_unlessFull _
  | chain facets body => exact rests_unlessFull _

/-- Parts in a row are asked up to the first that leaves no room. -/
theorem proceeds_walkParts {parts : List (Node × Site)}
    (h : ∀ part ∈ parts,
      rules.Inquires (rules.walk .suspending part.1 part.2) (rules.questions part.1 part.2)) :
    rules.Proceeds (rules.walkParts parts)
      ((upTo (fun part => rules.isFull (rules.findings part.1 part.2)) parts).flatMap
        fun part => rules.questions part.1 part.2)
      (parts.flatMap fun part => rules.findings part.1 part.2) := by
  induction parts with
  | nil => exact proceeds_pure
  | cons part rest ih =>
      have hwalk : rules.Proceeds (rules.walk .suspending part.1 part.2)
          (rules.questions part.1 part.2) (rules.findings part.1 part.2) :=
        ⟨h part List.mem_cons_self, walk_reports part.1 part.2, rests_walk part.1 part.2⟩
      rw [flatMap_upTo_cons, List.flatMap_cons]
      exact hwalk.bind (ih fun part hmem => h part (List.mem_cons_of_mem _ hmem))

/-! ## Values -/

/-- A site is asked about its value, if it has one. -/
theorem inquires_enter {inside : Json → List Slot → Checking (List Slot)} {asked : Json → List Inquiry}
    (h : ∀ value, node.present? site = some value → rules.Inquires (inside value) (asked value)) :
    rules.Inquires (rules.enter node inside site) ((node.present? site).toList.flatMap asked) := by
  refine Inquires.unlessFull fun slots hroom => ?_
  cases hv : node.present? site with
  | some value =>
      have hfilter : site.value.filter (fun value => !value.isNull || node.acceptsNull) = some value := hv
      rw [hfilter, Option.toList_some, List.flatMap_singleton]
      exact h value hv slots hroom
  | none =>
      have hfilter : site.value.filter (fun value => !value.isNull || node.acceptsNull) = none := hv
      rw [hfilter]
      dsimp only
      split <;> rfl

/-- The own checks come first, then the parts, then the custom checks. -/
theorem inquires_checkValue {parts : Json → List Slot → Checking (List Slot)} {value : Json}
    {asked : List Inquiry} {found : List Slot} (h : rules.Proceeds (parts value) asked found) :
    rules.Inquires (rules.checkValue .suspending node site.place parts value)
      (if node.base.fits value then
        let faults := (node.ownFaults value).map fun fault =>
          Slot.ready (rules.broken node site.place fault)
        (if rules.isFull faults then [] else asked)
          ++ if (node.ownFaults value).isEmpty && !rules.isFull (faults ++ found) then
              rules.customQuestions node site value
            else []
      else []) := by
  unfold checkValue
  by_cases hfits : node.base.fits value = true
  · simp only [if_pos hfits]
    generalize (node.ownFaults value).map
      (fun fault => Slot.ready (rules.broken node site.place fault)) = faults
    have hown := (proceeds_addAll faults).bind h
    cases (node.ownFaults value).isEmpty with
    | true =>
        refine ((hown.bind (proceeds_runCustoms node site value _)).inquires).congr ?_
        cases rules.isFull (faults ++ found) <;> rfl
    | false =>
        refine ((hown.bind proceeds_pure).inquires).congr ?_
        cases rules.isFull (faults ++ found) <;> rfl
  · simp only [if_neg hfits]
    exact fun _ _ => rfl

/-- What a leaf, an object or an array finds by itself in a value before its parts. -/
def ownFindings (rules : Rules) (node : Node) (site : Site) (value : Json) : List Slot :=
  if node.base.fits value then
    (node.ownFaults value).map fun fault => .ready (rules.broken node site.place fault)
  else [.ready (rules.wrongType node site.place)]

/-- The questions of a leaf, an object or an array, by what its value is. -/
theorem questions_checked (hasked : openingInquiries node site = [])
    (hreached : rules.reached node site
      = if rules.isFull (rules.opening node site) then []
        else upTo (fun part => rules.isFull (rules.findings part.1 part.2)) (rules.parts node site))
    (hopening : rules.opening node site
      = rules.siteFindings node (rules.ownFindings node site) site)
    (hparts : rules.parts node site = (node.present? site).toList.flatMap fun value =>
      if node.base.fits value then within node site value else [])
    (hpasses : ∀ value, rules.passes node site value
      = (node.base.fits value && (node.ownFaults value).isEmpty)) :
    rules.questions node site
      = (node.present? site).toList.flatMap fun value =>
          if node.base.fits value then
            let faults := (node.ownFaults value).map fun fault =>
              Slot.ready (rules.broken node site.place fault)
            (if rules.isFull faults then []
              else (upTo (fun part => rules.isFull (rules.findings part.1 part.2))
                (within node site value)).flatMap fun part => rules.questions part.1 part.2)
            ++ if (node.ownFaults value).isEmpty && !rules.isFull (faults
                  ++ (((within node site value).flatMap fun part => rules.findings part.1 part.2)
                    ++ rules.unknownAt node site value)) then
                rules.customQuestions node site value
              else []
          else [] := by
  rw [questions_eq, hasked, hreached, closingQuestions, List.nil_append]
  unfold priorFindings
  rw [hparts, hopening, siteFindings]
  -- an absent value has no parts, and nothing asks about it
  cases node.present? site with
  | none =>
      rw [Option.toList_none, List.flatMap_nil, upTo, ite_self]
      rfl
  | some value =>
      simp only [Option.toList_some, List.flatMap_singleton, hpasses]
      unfold ownFindings
      cases node.base.fits value with
      | true =>
          simp only [if_true, Bool.true_and, List.append_assoc]
          split <;> rfl
      | false =>
          simp only [Bool.false_and, Bool.false_eq_true, if_false, upTo, ite_self]
          rfl

/-! ## Unions -/

/-- **MEMBERS ARE TRIED UP TO THE FIRST THAT AGREES**, each with slots of its own. -/
theorem notes_walkMembers {members : List Node}
    (h : ∀ node ∈ members,
      rules.Inquires (rules.walk .suspending node site) (rules.questions node site))
    (value : Json) :
    ∀ closest, (rules.walkMembers .suspending members value site closest).run.notes
      = ((upTo (fun member => !hasErrors (rules.findings member site)) members).flatMap
          fun member => rules.questions member site).flatMap Inquiry.notes := by
  induction members with
  | nil => exact fun _ => rfl
  | cons member rest ih =>
      intro closest
      have hyields : Yields (rules.walk .suspending member site [])
          (rules.keep (rules.findings member site)) := by
        have hreports : rules.Reports (rules.walk .suspending member site)
          (rules.findings member site) := walk_reports member site
        have hempty := hreports []
        rw [keep_nil, List.nil_append] at hempty
        exact hempty
      have hown := h member List.mem_cons_self [] (isFull_nil rules)
      rw [flatMap_upTo_cons, List.flatMap_append, ← hown]
      refine (notes_bind_of_yields hyields).trans (congrArg (_ ++ ·) ?_)
      rw [hasErrors_keep]
      cases hasErrors (rules.findings member site) with
      | false => rfl
      | true => exact ih (fun node hmem => h node (List.mem_cons_of_mem _ hmem)) _

/-- Only a trial that a member agreed to is followed by custom checks. -/
theorem inquires_concludeTrial (members : List Node) (value : Json) (trial : Trial) :
    ∀ slots, rules.isFull slots = false →
      (rules.concludeTrial .suspending node members site.place value slots
          (rules.keepTrial trial)).run.notes
        = (match trial with
          | .agreed own => if rules.isFull own then [] else rules.customQuestions node site value
          | .refused _ => []).flatMap Inquiry.notes := by
  intro slots hroom
  cases trial with
  | agreed own =>
      have hadd : rules.Proceeds _ [] (rules.keep own) := proceeds_addAll (rules.keep own)
      have hadded := hadd.bind (proceeds_runCustoms node site value node.facets.customs)
      rw [List.nil_append, isFull_keep rules] at hadded
      exact hadded.inquires slots hroom
  | refused closest => cases closest <;> rfl

/-- Where a member agrees, what it finds is all that is found before the checks of a union. -/
theorem priorFindings_of_agreed {facets : Facets} {members : List Node} {member : Node}
    {value : Json} (hvalue : (Node.union facets members).present? site = some value)
    (hagreed : rules.agreed? members site = some member) :
    rules.priorFindings (.union facets members) site value = rules.findings member site := by
  have hopening : rules.opening (.union facets members) site = [] := by
    rw [opening, siteFindings, hvalue, hagreed]
    rfl
  have hparts : rules.parts (.union facets members) site = [(member, site)] := by
    rw [parts, hvalue, Option.toList_some, List.flatMap_singleton, keptMember?, hagreed]
    rfl
  rw [priorFindings, hopening, hparts, List.flatMap_singleton, List.nil_append]
  exact List.append_nil _

/-- The questions of a union: those of its members, up to the first that agrees, and then
    its own checks if one does. -/
theorem questions_union (facets : Facets) (members : List Node) :
    rules.questions (.union facets members) site
      = ((Node.union facets members).present? site).toList.flatMap fun value =>
          ((upTo (fun member => !hasErrors (rules.findings member site)) members).flatMap
              fun member => rules.questions member site)
            ++ match rules.trialAt members site value with
              | .agreed own =>
                  if rules.isFull own then [] else rules.customQuestions (.union facets members) site value
              | .refused _ => [] := by
  rw [questions_eq, reached, tries, closingQuestions]
  cases hvalue : (Node.union facets members).present? site with
  | none => rfl
  | some value =>
      have hpasses : rules.passes (.union facets members) site value
          = (rules.agreed? members site).isSome := rfl
      rw [Option.toList_some, List.flatMap_singleton, List.flatMap_singleton,
        List.flatMap_singleton, List.flatMap_map, hpasses]
      unfold trialAt
      refine congrArg (List.append _) ?_
      cases hagreed : rules.agreed? members site with
      | none => rfl
      | some member =>
          rw [priorFindings_of_agreed hvalue hagreed, Option.isSome_some, Bool.true_and]
          dsimp only
          cases rules.isFull (rules.findings member site) <;> rfl

/-- A union asks as its trial does, if its members do. -/
theorem inquires_union {facets : Facets} {members : List Node}
    (h : ∀ node ∈ members,
      rules.Inquires (rules.walk .suspending node site) (rules.questions node site)) :
    rules.Inquires (rules.walk .suspending (.union facets members) site)
      (rules.questions (.union facets members) site) := by
  rw [questions_union]
  refine inquires_enter fun value _ slots hroom => ?_
  have hreports : ∀ node ∈ members,
      rules.Reports (rules.walk .suspending node site) (rules.findings node site) :=
    fun node _ => walk_reports node site
  have hyields := yields_walkMembers hreports value none
  rw [trialFrom_none, trialOf_memberFindings] at hyields
  rw [List.flatMap_append, ← notes_walkMembers h value none,
    ← inquires_concludeTrial members value (rules.trialAt members site value) slots hroom]
  exact notes_bind_of_yields hyields

/-! ## Branches -/

/-- A branch asks as its target does, if it has one. -/
theorem inquires_followOption {picked : Option Node}
    (h : ∀ node ∈ picked,
      rules.Inquires (rules.walk .suspending node site) (rules.questions node site)) :
    rules.Inquires (followOption (picked.map (rules.walk .suspending)) site)
      (picked.toList.flatMap fun node => rules.questions node site) := by
  cases picked with
  | none => exact fun _ _ => rfl
  | some node =>
      rw [Option.toList_some, List.flatMap_singleton]
      exact h node rfl

/-- A branch asks what the target asks that it selects, and no checks of its own. -/
theorem questions_branch {picked : Option Node}
    (hreached : rules.reached node site = picked.toList.map fun target => (target, site))
    (hpasses : ∀ value, rules.passes node site value = false) :
    rules.questions node site
      = openingInquiries node site ++ picked.toList.flatMap fun target => rules.questions target site := by
  have hclosing : rules.closingQuestions node site = [] := by
    unfold closingQuestions
    rw [List.flatMap_eq_nil_iff]
    intro value _
    rw [hpasses, Bool.false_and, if_neg Bool.false_ne_true]
  rw [questions_eq, hclosing, hreached, List.flatMap_map, List.append_nil]

/-- What a branch selects is visited, unless it found something instead. -/
theorem reached_of_picked {picked : Option Node}
    (hreached : rules.reached node site
      = if rules.isFull (rules.opening node site) then []
        else upTo (fun part => rules.isFull (rules.findings part.1 part.2)) (rules.parts node site))
    (hparts : rules.parts node site = picked.toList.map fun target => (target, site))
    (hopening : picked = none ∨ rules.opening node site = []) :
    rules.reached node site = picked.toList.map fun target => (target, site) := by
  rw [hreached, hparts]
  rcases hopening with rfl | hopening
  · exact ite_self _
  · rw [hopening, isFull_nil rules, if_neg Bool.false_ne_true]
    cases picked with
    | none => rfl
    | some target => exact upTo_singleton _ (target, site)

/-- A chain reaches the target that it selects. -/
theorem reached_chain (facets : Facets) (body : Chain Node) :
    rules.reached (.chain facets body) site
      = (body.select site.context).value.target?.toList.map fun target => (target, site) := by
  refine reached_of_picked rfl rfl ?_
  rw [opening]
  cases (body.select site.context).value with
  | validate target => exact .inr rfl
  | fail message => exact .inl rfl
  | pass => exact .inr rfl

/-- Following a chain asks its conditions first. -/
theorem inquires_followChain {holder : Option Node} {chain : Chain Node}
    (h : ∀ node ∈ chain.targets,
      rules.Inquires (rules.walk .suspending node site) (rules.questions node site)) :
    rules.Inquires
      (rules.followChain holder
        ⟨rules.walkEntries .suspending chain.entries, rules.walkFallback .suspending chain.fallback⟩
        site)
      (.selection chain site.context
        :: ((chain.select site.context).value.target?.toList.flatMap fun node =>
            rules.questions node site)) := by
  intro slots hroom
  unfold followChain
  rw [walkEntries_eq_map, walkFallback_eq_map, Chain.select, Chain.selectFrom_map, lift_map_bind,
    List.flatMap_cons]
  have hlift := makes_lift (chain.select site.context)
  -- conditions are asked before there is anything to report, so none of them is left out
  refine (notes_bind_of_yields hlift.yields).trans ?_
  rw [show (ExceptT.lift (chain.select site.context) : Checking _).run.notes
      = (Inquiry.selection chain site.context).notes from congrArg Noted.notes hlift]
  refine congrArg (_ ++ ·) ?_
  cases hselect : (chain.select site.context).value with
  | fail message => rfl
  | pass => rfl
  | validate node =>
      show (rules.walk .suspending node site slots).run.notes
        = (List.flatMap (fun node => rules.questions node site) [node]).flatMap Inquiry.notes
      rw [List.flatMap_singleton]
      exact h node (Chain.mem_targets_of_selectFrom hselect) slots hroom

/-! ## Whole walks -/

/-- **A WALK ASKS ITS QUESTIONS**, and nothing else makes a note on the way. -/
theorem walk_inquires (node : Node) :
    ∀ site, rules.Inquires (rules.walk .suspending node site) (rules.questions node site) := by
  -- by induction on the tree; what a part finds decides whether the next one is asked at all
  induction node using Node.induction with
  | leaf type facets =>
      intro site
      rw [questions_checked rfl rfl rfl rfl fun _ => rfl]
      exact inquires_enter fun value _ => inquires_checkValue proceeds_pure
  | object facets fields h =>
      intro site
      rw [questions_checked rfl rfl rfl rfl fun _ => rfl]
      refine inquires_enter fun value _ => ?_
      have hwithin : ∀ part ∈ within (.object facets fields) site value,
          rules.Inquires (rules.walk .suspending part.1 part.2) (rules.questions part.1 part.2) := by
        intro part hmem
        obtain ⟨field, hfield, rfl⟩ := List.mem_map.1 hmem
        exact h field hfield _
      have hparts := (proceeds_walkParts hwithin).bind
        (proceeds_addUnknown fields (membersOf value) site.place)
      -- fields are parts, and unknown members follow them without a question
      have hsteps : (fun slots => rules.walkFields .suspending fields value site.place slots
            >>= fun slots => pure (rules.addUnknown fields (membersOf value) site.place slots))
          = fun slots => rules.walkParts (within (.object facets fields) site value) slots
            >>= fun slots => pure (rules.addUnknown fields (membersOf value) site.place slots) :=
        funext fun slots => by rw [walkFields_eq_walkParts]; rfl
      rw [← hsteps, ite_self, List.append_nil] at hparts
      exact inquires_checkValue hparts
  | array facets items h =>
      intro site
      rw [questions_checked rfl rfl rfl rfl fun _ => rfl]
      cases items with
      | none => exact inquires_enter fun value _ => inquires_checkValue proceeds_pure
      | some items =>
          refine inquires_enter fun value _ => ?_
          have hitems : within (.array facets (some items)) site value
              = (itemsOf value).zipIdx.map fun item =>
                  (items, ⟨some item.1, site.record, site.place.index item.2⟩) := by
            rw [within, Option.toList_some, List.flatMap_singleton]
          have hwithin : ∀ part ∈ within (.array facets (some items)) site value,
              rules.Inquires (rules.walk .suspending part.1 part.2) (rules.questions part.1 part.2) := by
            intro part hmem
            rw [hitems] at hmem
            obtain ⟨item, -, rfl⟩ := List.mem_map.1 hmem
            exact h items rfl _
          have hparts := proceeds_walkParts hwithin
          -- items are parts as well, so the lemma about parts serves both
          have hsteps : eachItem (rules.walk .suspending items) site.record site.place 0 (itemsOf value)
              = rules.walkParts (within (.array facets (some items)) site value) := by
            rw [hitems]
            exact funext (eachItem_eq_walkParts items site.record site.place (itemsOf value) 0)
          rw [← hsteps, ← List.append_nil (List.flatMap (fun part => rules.findings _ _) _)] at hparts
          exact inquires_checkValue hparts
  | union facets members h =>
      intro site
      exact inquires_union fun node hmem => h node hmem site
  | matching facets reference cases h =>
      intro site
      rw [questions_branch (reached_of_picked rfl rfl (.inr rfl)) fun _ => rfl]
      refine Inquires.unlessFull ?_
      show rules.Inquires
        (followOption (pickCase? reference (rules.walkCases .suspending cases) site.context) site) _
      rw [walkCases_eq_mapValues, pickCase?_map]
      refine inquires_followOption fun node hmem => ?_
      obtain ⟨case, hcase, rfl⟩ := exists_mem_of_mem_pickCase? hmem
      exact h case hcase site
  | switch facets field yes no hyes hno =>
      intro site
      rw [questions_branch (reached_of_picked rfl rfl (.inr rfl)) fun _ => rfl]
      have hpick : rules.Inquires
          (followOption (pickSide? field (rules.walk .suspending yes)
            (no.map (rules.walk .suspending)) site.context) site)
          ((pickSide? field yes no site.context).toList.flatMap fun node =>
            rules.questions node site) := by
        rw [pickSide?_map]
        refine inquires_followOption fun node hmem => ?_
        rcases mem_pickSide? hmem with rfl | hmem
        · exact hyes site
        · exact hno node hmem site
      cases no with
      | none => exact Inquires.unlessFull hpick
      | some no => exact Inquires.unlessFull hpick
  | chain facets body h =>
      intro site
      rw [questions_branch (reached_chain facets body) fun _ => rfl]
      obtain ⟨entries, fallback⟩ := body
      exact Inquires.unlessFull (inquires_followChain fun node hmem => h node hmem site)

end Rules

end Conform
