import Conform.Proofs.Customs
import Conform.Proofs.FindingSources

/-! # Exchanged checks — findings with other custom checks

    Two trees that differ in their custom checks only are walked side by side.  A
    relation between lists of slots carries over from what the custom checks find to
    what the trees find, provided that it respects lists, that it holds of the
    custom checks, and that it is kept where a union settles on a member; these are
    the conditions of an EXCHANGE.  A side condition on nodes and sites may be
    assumed if it passes on to parts. -/

namespace Conform.Rules

variable {rules : Rules} {g : Custom → Custom} {P : Node → Site → Prop}
  {R : List Slot → List Slot → Prop}

/-- What makes a relation between findings carry over from the custom checks of two
    trees to the trees; `P` is the side condition. -/
structure Exchange (rules : Rules) (g : Custom → Custom) (P : Node → Site → Prop)
    (R : List Slot → List Slot → Prop) : Prop where
  nil : R [] []
  append : ∀ {one one' two two' : List Slot}, R one one' → R two two' → R (one ++ two) (one' ++ two')
  ready : ∀ error, R [.ready error] [.ready error]
  customs : ∀ {node : Node} {site : Site}, P node site → ∀ place value,
    R (rules.allCustomFindings node place value)
      (rules.allCustomFindings (node.mapCustoms g) place value)
  parts : ∀ {node part : Node} {site partSite : Site},
    P node site → rules.Part node site part partSite → P part partSite
  trials : ∀ {facets : Facets} {members : List Node} {site : Site} {value : Json},
    P (.union facets members) site → (Node.union facets members).present? site = some value →
    (∀ node ∈ members, ∀ here, P node here →
      R (rules.findings node here) (rules.findings (node.mapCustoms g) here)) →
    R (rules.trialFindings (.union facets members) members site.place value
        (rules.trialAt members site value))
      (rules.trialFindings ((Node.union facets members).mapCustoms g)
        (members.map (Node.mapCustoms g)) site.place value
        (rules.trialAt (members.map (Node.mapCustoms g)) site value))

namespace Exchange

theorem readyMap (h : Exchange rules g P R) {α : Type} (error : α → FieldError) (l : List α) :
    R (l.map fun a => .ready (error a)) (l.map fun a => .ready (error a)) := by
  induction l with
  | nil => exact h.nil
  | cons a rest ih => exact h.append (h.ready (error a)) ih

/-- Slots for each part are related if they are for every part. -/
theorem flatMap (h : Exchange rules g P R) {α : Type} {one two : α → List Slot} {l : List α}
    (hl : ∀ a ∈ l, R (one a) (two a)) : R (l.flatMap one) (l.flatMap two) := by
  induction l with
  | nil => exact h.nil
  | cons a rest ih =>
      rw [List.flatMap_cons, List.flatMap_cons]
      exact h.append (hl a List.mem_cons_self) (ih fun b hb => hl b (List.mem_cons_of_mem _ hb))

/-- What is found at a site is related if what is found inside its value is. -/
theorem site (h : Exchange rules g P R) {node : Node} {inside inside' : Json → List Slot}
    {site : Site} (hin : ∀ value, node.present? site = some value → R (inside value) (inside' value)) :
    R (rules.siteFindings node inside site)
      (rules.siteFindings (node.mapCustoms g) inside' site) := by
  unfold siteFindings
  rw [show (node.mapCustoms g).present? site = node.present? site by
    unfold Node.present?; rw [Node.acceptsNull_mapCustoms]]
  rw [Node.required_mapCustoms, missing_mapCustoms]
  cases hv : node.present? site with
  | some value => exact hin value hv
  | none =>
      dsimp only
      by_cases hr : node.facets.required = true
      · rw [if_pos hr]
        exact h.ready _
      · rw [if_neg hr]
        exact h.nil

/-- What is found in a value is related if its parts are. -/
theorem value (h : Exchange rules g P R) {node : Node} {site : Site} (hnode : P node site)
    {parts parts' : Json → List Slot} {value : Json}
    (hparts : node.base.fits value = true → R (parts value) (parts' value)) :
    R (rules.valueFindings node site.place parts value)
      (rules.valueFindings (node.mapCustoms g) site.place parts' value) := by
  unfold valueFindings
  rw [Node.base_mapCustoms, Node.ownFaults_mapCustoms, broken_mapCustoms, wrongType_mapCustoms]
  by_cases hb : node.base.fits value = true
  · rw [if_pos hb, if_pos hb]
    refine h.append (h.append (h.readyMap _ _) (hparts hb)) ?_
    by_cases hf : (node.ownFaults value).isEmpty = true
    · rw [if_pos hf, if_pos hf]
      exact h.customs hnode site.place value
    · rw [if_neg hf, if_neg hf]
      exact h.nil
  · rw [if_neg hb, if_neg hb]
    exact h.ready _

/-- What is found behind a branch is related if it is for the target. -/
theorem picked (h : Exchange rules g P R) {picked : Option Node} {site : Site}
    (hnode : ∀ node ∈ picked,
      R (rules.findings node site) (rules.findings (node.mapCustoms g) site)) :
    R ((picked.map fun node => rules.findings node site).getD [])
      (((picked.map (Node.mapCustoms g)).map fun node => rules.findings node site).getD []) := by
  cases picked with
  | none => exact h.nil
  | some node => exact hnode node rfl

/-- Unknown members are related to themselves, as the names of the fields stay. -/
theorem unknown (h : Exchange rules g P R) (f : Node → Node) (fields : List (String × Node))
    (members : Members Json) (place : Place) :
    R (rules.unknownFindings fields members place)
      (rules.unknownFindings (Members.mapValues f fields) members place) := by
  unfold unknownFindings
  rw [Members.isEmpty_mapValues]
  simp only [Members.hasName_mapValues]
  by_cases hu : (rules.config.allowUnknownFields || fields.isEmpty) = true
  · rw [if_pos hu]
    exact h.nil
  · rw [if_neg hu]
    exact h.readyMap _ _

/-- **AN EXCHANGE CARRIES OVER TO TREES**, by induction on the tree. -/
theorem findings (h : Exchange rules g P R) (node : Node) :
    ∀ site, P node site → R (rules.findings node site) (rules.findings (node.mapCustoms g) site) := by
  induction node using Node.induction with
  | leaf type facets =>
      intro site hp
      exact h.site fun value _ => h.value hp fun _ => h.nil
  | object facets fields ih =>
      intro site hp
      have hnode := Node.mapEach_object (Facets.mapCustoms g) facets fields
      rw [show (Node.object facets fields).mapCustoms g = _ from hnode]
      show R (rules.siteFindings _ _ _) (rules.siteFindings _ _ _)
      rw [← hnode]
      refine h.site fun value hvalue => h.value hp fun hfits => ?_
      refine h.append ?_ (h.unknown _ fields _ _)
      rw [fieldFindings_eq_flatMap, fieldFindings_eq_flatMap, Members.mapValues, List.flatMap_map]
      exact h.flatMap fun field hmem => ih field hmem _ (h.parts hp (.field hvalue hfits hmem))
  | array facets items ih =>
      intro site hp
      cases items with
      | none => exact h.site fun value _ => h.value hp fun _ => h.nil
      | some items =>
          refine h.site fun value hvalue => h.value hp fun hfits => ?_
          exact h.flatMap fun item hitem => ih items rfl _ (h.parts hp (.item hvalue hfits hitem))
  | union facets members ih =>
      intro site hp
      have hnode := Node.mapEach_union (Facets.mapCustoms g) facets members
      rw [findings_union, show (Node.union facets members).mapCustoms g = _ from hnode,
        findings_union, ← hnode]
      exact h.site fun value hvalue => h.trials hp hvalue ih
  | matching facets reference cases ih =>
      intro site hp
      rw [show (Node.matching facets reference cases).mapCustoms g = _ from
        Node.mapEach_matching (Facets.mapCustoms g) facets reference cases, findings_matching,
        findings_matching, pickCase?_map]
      refine h.picked fun node hmem => ?_
      obtain ⟨case, hcase, rfl⟩ := exists_mem_of_mem_pickCase? hmem
      exact ih case hcase site (h.parts hp (.case hmem))
  | switch facets field yes no hyes hno =>
      intro site hp
      rw [show (Node.switch facets field yes no).mapCustoms g = _ from
        Node.mapEach_switch (Facets.mapCustoms g) facets field yes no, findings_switch,
        findings_switch, pickSide?_map]
      refine h.picked fun node hmem => ?_
      have hnode : P node site := h.parts hp (.side hmem)
      rcases mem_pickSide? hmem with rfl | hno'
      · exact hyes site hnode
      · exact hno node hno' site hnode
  | chain facets body ih =>
      intro site hp
      -- conditions look at the record alone, so the same target is selected
      have hnode := Node.mapEach_chain (Facets.mapCustoms g) facets body
      rw [show (Node.chain facets body).mapCustoms g = _ from hnode, findings_chain, findings_chain,
        value_select_map, ← hnode]
      cases hs : (body.select site.context).value with
      | fail message =>
          show R [_] [.ready (rules.failing (some ((Node.chain facets body).mapCustoms g)) _ message)]
          rw [failing_mapCustoms]
          exact h.ready _
      | pass => exact h.nil
      | validate node => exact ih node (Chain.mem_targets_of_selectFrom hs) site (h.parts hp (.target hs))

end Exchange

end Conform.Rules
