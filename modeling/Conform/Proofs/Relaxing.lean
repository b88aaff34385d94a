import Conform.Proofs.Clean
import Conform.Proofs.Declared

/-! # Relaxing — less asked, no more refused

    A tree is RELAXED by erasing checks of its nodes: that a value is required, clauses,
    choices and patterns, at any nodes and independently of each other.  What the tree
    finds no error in, the relaxed tree finds no error in (`clean_of_relaxed`).

    This is not a matter of single checks.  A node that loses its last broken check starts
    its custom checks, and a union may settle on an earlier member.  So the induction is
    over clean sites and not over lists of errors: a clean node has run its custom checks
    already, and a union is clean as soon as some member is. -/

namespace Conform

/-- Which checks of its own a node loses. -/
structure Erasure where
  required : Bool := false
  clause : Bool := false
  choices : Bool := false
  pattern : Bool := false

/-- The facets without the checks that are erased. -/
def Facets.erase (facets : Facets) (erasure : Erasure) : Facets :=
  { facets with
    required := facets.required && !erasure.required
    clause := if erasure.clause then none else facets.clause
    choices := if erasure.choices then [] else facets.choices
    pattern := if erasure.pattern then none else facets.pattern }

/-- The second tree is the first one with checks erased.  Nodes that stand at the same
    place in the two are written as a pair. -/
inductive Node.Relaxed : Node → Node → Prop
  | leaf (erasure : Erasure) (type : Primitive) (facets : Facets) :
      Relaxed (.leaf type facets) (.leaf type (facets.erase erasure))
  | object (erasure : Erasure) (facets : Facets) {fields : Members (Node × Node)}
      (hfields : ∀ field ∈ fields, Relaxed field.2.1 field.2.2) :
      Relaxed (.object facets (Members.mapValues Prod.fst fields))
        (.object (facets.erase erasure) (Members.mapValues Prod.snd fields))
  | array (erasure : Erasure) (facets : Facets) {items : Option (Node × Node)}
      (hitems : ∀ pair ∈ items, Relaxed pair.1 pair.2) :
      Relaxed (.array facets (items.map Prod.fst))
        (.array (facets.erase erasure) (items.map Prod.snd))
  | union (erasure : Erasure) (facets : Facets) {members : List (Node × Node)}
      (hmembers : ∀ pair ∈ members, Relaxed pair.1 pair.2) :
      Relaxed (.union facets (members.map Prod.fst))
        (.union (facets.erase erasure) (members.map Prod.snd))
  | matching (erasure : Erasure) (facets : Facets) (reference : String)
      {cases : Members (Node × Node)} (hcases : ∀ case ∈ cases, Relaxed case.2.1 case.2.2) :
      Relaxed (.matching facets reference (Members.mapValues Prod.fst cases))
        (.matching (facets.erase erasure) reference (Members.mapValues Prod.snd cases))
  | switch (erasure : Erasure) (facets : Facets) (field : String) {yes : Node × Node}
      {no : Option (Node × Node)} (hyes : Relaxed yes.1 yes.2)
      (hno : ∀ pair ∈ no, Relaxed pair.1 pair.2) :
      Relaxed (.switch facets field yes.1 (no.map Prod.fst))
        (.switch (facets.erase erasure) field yes.2 (no.map Prod.snd))
  | chain (erasure : Erasure) (facets : Facets) {body : Chain (Node × Node)}
      (hbody : ∀ pair ∈ body.targets, Relaxed pair.1 pair.2) :
      Relaxed (.chain facets (body.map Prod.fst))
        (.chain (facets.erase erasure) (body.map Prod.snd))

/-! ## Facets -/

/-- A value that keeps the checks of a node keeps those that are left. -/
theorem Facets.KeptBy.erase {facets : Facets} {base : BaseType} {value : Json}
    (h : facets.KeptBy base value) (erasure : Erasure) :
    (facets.erase erasure).KeptBy base value where
  format := h.format
  choices := by
    show OwnFault.ofChoices? (if erasure.choices then [] else facets.choices) value = none
    split
    · rfl
    · exact h.choices
  clause := by
    show OwnFault.ofClause? base (if erasure.clause then none else facets.clause) value = none
    split
    · rfl
    · exact h.clause
  pattern := by
    show OwnFault.ofPattern? (if erasure.pattern then none else facets.pattern) value = none
    split
    · rfl
    · exact h.pattern

theorem Facets.required_erase_eq_false {facets : Facets} (h : facets.required = false)
    (erasure : Erasure) : (facets.erase erasure).required = false := by
  show (facets.required && _) = false
  rw [h, Bool.false_and]

namespace Node.Relaxed

variable {node relaxed : Node}

/-! ## What is the same in both trees -/

theorem exists_facets_eq (h : Relaxed node relaxed) :
    ∃ erasure, relaxed.facets = node.facets.erase erasure := by
  cases h <;> exact ⟨_, rfl⟩

theorem base_eq (h : Relaxed node relaxed) : relaxed.base = node.base := by
  cases h <;> rfl

theorem customs_eq (h : Relaxed node relaxed) : relaxed.facets.customs = node.facets.customs := by
  obtain ⟨erasure, hfacets⟩ := h.exists_facets_eq
  rw [hfacets]
  rfl

/-- Nodes in a relaxed tree are relaxed nodes of the tree. -/
theorem exists_children (h : Relaxed node relaxed) :
    ∃ pairs : List (Node × Node), (∀ pair ∈ pairs, Relaxed pair.1 pair.2)
      ∧ node.children = pairs.map Prod.fst ∧ relaxed.children = pairs.map Prod.snd := by
  cases h with
  | leaf erasure type facets => exact ⟨[], nofun, rfl, rfl⟩
  | @object erasure facets fields hfields =>
      exact ⟨fields.map Prod.snd, List.forall_mem_map.2 hfields,
        Members.map_snd_mapValues Prod.fst fields, Members.map_snd_mapValues Prod.snd fields⟩
  | @array erasure facets items hitems =>
      refine ⟨items.toList, ?_, ?_, ?_⟩
      · exact fun pair hmem => hitems pair (Option.mem_toList.1 hmem)
      · cases items <;> rfl
      · cases items <;> rfl
  | @union erasure facets members hmembers => exact ⟨members, hmembers, rfl, rfl⟩
  | @matching erasure facets reference cases hcases =>
      exact ⟨cases.map Prod.snd, List.forall_mem_map.2 hcases,
        Members.map_snd_mapValues Prod.fst cases, Members.map_snd_mapValues Prod.snd cases⟩
  | @switch erasure facets field yes no hyes hno =>
      refine ⟨yes :: no.toList, ?_, ?_, ?_⟩
      · exact List.forall_mem_cons.2 ⟨hyes, fun pair hmem => hno pair (Option.mem_toList.1 hmem)⟩
      · cases no <;> rfl
      · cases no <;> rfl
  | @chain erasure facets body hbody =>
      exact ⟨body.targets, hbody, Chain.targets_map Prod.fst body, Chain.targets_map Prod.snd body⟩

/-- Null counts as a value in both trees or in neither. -/
theorem acceptsNull_eq (h : Relaxed node relaxed) : relaxed.acceptsNull = node.acceptsNull := by
  induction h with
  | leaf erasure type facets => rfl
  | object erasure facets hfields ih => rfl
  | array erasure facets hitems ih => rfl
  | @union erasure facets members hmembers ih =>
      show someAcceptsNull (members.map Prod.snd) = someAcceptsNull (members.map Prod.fst)
      rw [someAcceptsNull_eq_any, someAcceptsNull_eq_any, List.map_map, List.map_map]
      exact congrArg (List.any · id) (List.map_congr_left ih)
  | matching erasure facets reference hcases ih => rfl
  | switch erasure facets field hyes hno ihyes ihno => rfl
  | chain erasure facets hbody ih => rfl

theorem present?_eq (h : Relaxed node relaxed) (site : Site) :
    relaxed.present? site = node.present? site := by
  rw [present?, present?, h.acceptsNull_eq]

/-- Erasing suspends no check. -/
theorem isImmediate (h : Relaxed node relaxed) (hnode : node.IsImmediate) : relaxed.IsImmediate := by
  induction node using induction_children generalizing relaxed with
  | step node ih =>
      obtain ⟨pairs, hpairs, hchildren, hrelaxed⟩ := h.exists_children
      refine .intro ?_ ?_
      · rw [isSuspended, h.customs_eq]
        exact hnode.here
      · intro part hmem
        rw [hrelaxed] at hmem
        obtain ⟨pair, hpair, rfl⟩ := List.mem_map.1 hmem
        have hchild : pair.1 ∈ node.children := by
          rw [hchildren]
          exact List.mem_map_of_mem hpair
        exact ih pair.1 hchild (hpairs pair hpair) (hnode.inside hchild)

end Node.Relaxed

namespace Rules

variable {rules others : Rules} {node relaxed : Node} {site : Site} {value : Json}

/-! ## Single steps -/

/-- Whether the custom checks object at once is a matter of these checks alone. -/
theorem hasErrors_allCustomFindings_eq (h : relaxed.facets.customs = node.facets.customs)
    (place other : Place) (value : Json) :
    hasErrors (others.allCustomFindings relaxed other value)
      = hasErrors (rules.allCustomFindings node place value) := by
  have hone : ∀ custom, hasErrors (others.customFindings relaxed other value custom)
      = hasErrors (rules.customFindings node place value custom) := by
    rintro ⟨serial, check | check⟩
    · rw [customFindings_immediate, customFindings_immediate]
      cases (check value).value <;> rfl
    · rfl
  unfold allCustomFindings hasErrors
  rw [h, List.any_flatMap, List.any_flatMap]
  exact List.any_congr rfl hone

/-- A site stays clean where the inside of a present value does. -/
theorem hasErrors_siteFindings_of_relaxed (h : node.Relaxed relaxed)
    {inside inside' : Json → List Slot}
    (hinside : ∀ value, hasErrors (inside value) = false → hasErrors (inside' value) = false)
    (hclean : hasErrors (rules.siteFindings node inside site) = false) :
    hasErrors (others.siteFindings relaxed inside' site) = false := by
  cases hvalue : node.present? site with
  | some value =>
      rw [siteFindings_of_present hvalue] at hclean
      rw [siteFindings_of_present ((h.present?_eq site).trans hvalue)]
      exact hinside value hclean
  | none =>
      obtain ⟨erasure, hfacets⟩ := h.exists_facets_eq
      rw [hasErrors_siteFindings_of_absent hvalue] at hclean
      rw [hasErrors_siteFindings_of_absent ((h.present?_eq site).trans hvalue), hfacets]
      exact Facets.required_erase_eq_false hclean erasure

/-- A value stays clean where its parts do. -/
theorem hasErrors_valueFindings_of_relaxed (h : node.Relaxed relaxed) {place : Place}
    {parts parts' : Json → List Slot}
    (hparts : hasErrors (parts value) = false → hasErrors (parts' value) = false)
    (hclean : hasErrors (rules.valueFindings node place parts value) = false) :
    hasErrors (others.valueFindings relaxed place parts' value) = false := by
  obtain ⟨⟨hfits, hown⟩, hcleanParts, hcustoms⟩ := hasErrors_valueFindings_eq_false_iff.1 hclean
  obtain ⟨erasure, hfacets⟩ := h.exists_facets_eq
  refine hasErrors_valueFindings_eq_false_iff.2 ⟨⟨?_, ?_⟩, hparts hcleanParts, ?_⟩
  · rw [h.base_eq]
    exact hfits
  · refine (Node.ownFaults_eq_nil_iff relaxed value).2 ?_
    rw [hfacets, h.base_eq]
    exact ((Node.ownFaults_eq_nil_iff node value).1 hown).erase erasure
  · -- the custom checks of the node have run already, and had nothing to object
    rw [hasErrors_allCustomFindings_eq h.customs_eq]
    exact hcustoms

/-! ## Trees -/

/-- **WHERE A TREE IS CLEAN, THE RELAXED TREE IS CLEAN**, under any rules that let pass
    the members without a field which were let pass before. -/
theorem clean_of_relaxed (h : node.Relaxed relaxed)
    (hallow : rules.config.allowUnknownFields = true → others.config.allowUnknownFields = true) :
    ∀ site, hasErrors (rules.findings node site) = false →
      hasErrors (others.findings relaxed site) = false := by
  induction h with
  | leaf erasure type facets =>
      intro site hclean
      exact hasErrors_siteFindings_of_relaxed (.leaf erasure type facets)
        (fun value => hasErrors_valueFindings_of_relaxed (.leaf erasure type facets) id) hclean
  | @object erasure facets fields hfields ih =>
      intro site hclean
      have hnode := Node.Relaxed.object erasure facets hfields
      refine hasErrors_siteFindings_of_relaxed hnode
        (fun value => hasErrors_valueFindings_of_relaxed hnode ?_) hclean
      intro hparts
      rw [hasErrors_append, Bool.or_eq_false_iff] at hparts ⊢
      refine ⟨?_, ?_⟩
      · have hold := hasErrors_fieldFindings_eq_false_iff.1 hparts.1
        refine hasErrors_fieldFindings_eq_false_iff.2 (List.forall_mem_map.2 ?_)
        intro field hmem
        exact ih field hmem _ (List.forall_mem_map.1 hold field hmem)
      · have hold := hasErrors_unknownFindings_eq_false_iff.1 hparts.2
        refine hasErrors_unknownFindings_eq_false_iff.2 ?_
        simp only [Members.hasName_mapValues, Members.isEmpty_mapValues] at hold ⊢
        exact hold.imp_left hallow
  | @array erasure facets items hitems ih =>
      intro site hclean
      have hnode := Node.Relaxed.array erasure facets hitems
      cases items with
      | none =>
          exact hasErrors_siteFindings_of_relaxed hnode
            (fun value => hasErrors_valueFindings_of_relaxed hnode id) hclean
      | some pair =>
          refine hasErrors_siteFindings_of_relaxed hnode
            (fun value => hasErrors_valueFindings_of_relaxed hnode ?_) hclean
          intro hparts
          have hold := hasErrors_itemFindings_eq_false_iff.1 hparts
          refine hasErrors_itemFindings_eq_false_iff.2 ?_
          intro item hmem
          exact ih pair rfl _ (hold item hmem)
  | @union erasure facets members hmembers ih =>
      intro site hclean
      have hnode := Node.Relaxed.union erasure facets hmembers
      rw [findings_union] at hclean ⊢
      refine hasErrors_siteFindings_of_relaxed hnode ?_ hclean
      intro value htrial
      obtain ⟨⟨member, hmember, hown⟩, hcustoms⟩ := hasErrors_trialFindings_eq_false_iff.1 htrial
      obtain ⟨pair, hpair, rfl⟩ := List.mem_map.1 hmember
      refine hasErrors_trialFindings_eq_false_iff.2 ⟨⟨pair.2, ?_, ?_⟩, ?_⟩
      -- an earlier member may be the one that is settled on now, but this one is clean too
      · exact List.mem_map_of_mem hpair
      · exact ih pair hpair site hown
      · rw [hasErrors_allCustomFindings_eq hnode.customs_eq]
        exact hcustoms
  | @matching erasure facets reference cases hcases ih =>
      intro site hclean
      rw [findings_matching, pickCase?_map] at hclean ⊢
      cases hpick : pickCase? reference cases site.context with
      | none => rfl
      | some pair =>
          rw [hpick] at hclean
          obtain ⟨case, hcase, rfl⟩ := exists_mem_of_mem_pickCase? (Option.mem_def.2 hpick)
          exact ih case hcase site hclean
  | @switch erasure facets field yes no hyes hno ihyes ihno =>
      intro site hclean
      rw [findings_switch, pickSide?_map] at hclean ⊢
      cases hpick : pickSide? field yes no site.context with
      | none => rfl
      | some pair =>
          rw [hpick] at hclean
          rcases mem_pickSide? (Option.mem_def.2 hpick) with rfl | hmem
          · exact ihyes site hclean
          · exact ihno pair hmem site hclean
  | @chain erasure facets body hbody ih =>
      intro site hclean
      -- the conditions look at the record alone, so both select at the same place
      have hselect : ∀ f : Node × Node → Node,
          ((body.map f).select site.context).value = (body.select site.context).value.map f :=
        fun f => value_select_map f body site.context
      rw [findings_chain, hselect] at hclean ⊢
      cases hpick : (body.select site.context).value with
      | fail message =>
          rw [hpick] at hclean
          exact nomatch hclean
      | pass => rfl
      | validate pair =>
          rw [hpick] at hclean
          exact ih pair (Chain.mem_targets_of_selectFrom hpick) site hclean

end Rules

/-! ## Schemas -/

/-- **RELAXING NEVER REJECTS MORE**: what a schema accepts, every schema accepts whose tree
    is relaxed and whose configuration lets pass what was let pass. -/
theorem check_of_relaxed {schema relaxed : Schema} (hnode : schema.node.Relaxed relaxed.node)
    (hallow : schema.config.allowUnknownFields = true → relaxed.config.allowUnknownFields = true)
    {value : Json} (hcheck : (schema.check value).value = true) :
    (relaxed.check value).value = true := by
  obtain ⟨hfirst, hclean⟩ := (Schema.value_check_eq_true_iff schema value).1 hcheck
  refine (Schema.value_check_eq_true_iff relaxed value).2 ⟨?_, ?_⟩
  · rw [Node.firstSuspended?_eq_none_iff] at hfirst ⊢
    exact hnode.isImmediate hfirst
  · refine Rules.clean_of_relaxed hnode ?_ (.root value) hclean
    rw [Schema.config_rules, Schema.config_rules]
    exact hallow

/-- One of some choices, which a custom check objects to all the same. -/
def takenName (choices : List Literal) : Node :=
  .leaf .string { choices := choices, customs := [⟨1, .immediate fun _ => pure (some "TAKEN")⟩] }

/-- A schema for objects with a name that is not taken, or is any string. -/
def nameSchema (required : Bool) (choices : List Literal) (config : Config) : Schema :=
  let name := Node.union { required := required } [takenName choices, .leaf .string {}]
  { node := .object {} [("name", name)], config := config }

/-- Without its choices the first member starts its custom check, which objects; the value
    is accepted on account of the second one. -/
theorem check_nameSchema :
    let value := Json.object [("name", .string "b")]
    ((nameSchema true [.string "a"] { allowUnknownFields := false }).check value).value = true
      ∧ ((nameSchema false [] {}).check value).value = true := by
  intro value
  have htaken : (takenName [.string "a"]).Relaxed (takenName []) :=
    .leaf { choices := true } .string _
  have hany : (Node.leaf .string {}).Relaxed (.leaf .string {}) := .leaf {} .string {}
  have hmembers : ∀ pair ∈ [(takenName [.string "a"], takenName []),
      (Node.leaf .string {}, Node.leaf .string {})], pair.1.Relaxed pair.2 :=
    List.forall_mem_cons.2 ⟨htaken, List.forall_mem_singleton.2 hany⟩
  have hname := Node.Relaxed.union { required := true } { required := true } hmembers
  have hfields : ∀ field ∈ ([("name", _, _)] : Members (Node × Node)),
      field.2.1.Relaxed field.2.2 := List.forall_mem_singleton.2 hname
  have hchecked : ((nameSchema true [.string "a"] { allowUnknownFields := false }).check value).value
      = true := rfl
  exact ⟨hchecked, check_of_relaxed (.object {} {} hfields) (fun _ => rfl) hchecked⟩

end Conform
