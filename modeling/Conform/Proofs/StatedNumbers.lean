import Conform.Proofs.Comparing
import Conform.Proofs.Exporting
import Conform.Proofs.Finiteness
import Conform.Proofs.ErrorPlaces

/-! # Stated numbers — what reports and exports say of them

    An error about a clause states the limit that is broken, one about choices states
    them all, and the JSON Schema of a node states its bounds and its choices.  A number
    that is not finite has no JSON form, and null is stated in its place.

    Main fact: of a tree whose numbers are finite, every report and the schema state
    numbers as numbers (`Node.HasFiniteNumbers.statesNumbers`).  Which trees of texts
    these are is decided by the numerals in the text
    (`Compiler.numbers_are_stated_as_numbers`). -/

namespace Conform

namespace Json

/-- Nothing in the value is null. -/
def HasNoNull (value : Json) : Prop := value.Every (· ≠ .null)

theorem hasNoNull_string (text : String) : (Json.string text).HasNoNull := .of_parts_eq_nil nofun rfl

theorem hasNoNull_bool (truth : Bool) : (Json.bool truth).HasNoNull := .of_parts_eq_nil nofun rfl

/-- A number is not null. -/
theorem IsNumber.hasNoNull {value : Json} (h : value.IsNumber) : value.HasNoNull := by
  cases value with
  | integer n => exact .of_parts_eq_nil nofun rfl
  | float x => exact .of_parts_eq_nil nofun rfl
  | _ => exact h.elim

/-- An object has no null if its members have none. -/
theorem hasNoNull_object {members : Members Json} (h : ∀ member ∈ members, member.2.HasNoNull) :
    (Json.object members).HasNoNull := by
  refine .intro nofun ?_
  intro value hvalue
  obtain ⟨member, hmember, rfl⟩ := List.mem_map.1 hvalue
  exact h member hmember

theorem hasNoNull_array {items : List Json} (h : ∀ item ∈ items, item.HasNoNull) :
    (Json.array items).HasNoNull :=
  .intro nofun h

end Json

/-- A finite literal is written as something other than null. -/
theorem Literal.IsFinite.hasNoNull_toJson {literal : Literal} (h : literal.IsFinite) :
    literal.toJson.HasNoNull := by
  cases literal with
  | string text => exact Json.hasNoNull_string text
  | boolean truth => exact Json.hasNoNull_bool truth
  | number x => exact Json.IsNumber.hasNoNull (Json.isNumber_ofNumber_iff.2 h)

/-- Finite choices are written without null. -/
theorem hasNoNull_choices {literals : List Literal} (h : ∀ literal ∈ literals, literal.IsFinite) :
    (Json.array (literals.map Literal.toJson)).HasNoNull := by
  refine Json.hasNoNull_array ?_
  intro item hitem
  obtain ⟨literal, hliteral, rfl⟩ := List.mem_map.1 hitem
  exact (h literal hliteral).hasNoNull_toJson

/-! ## Reports -/

/-- A limit is stated as a number, and nothing is stated as null. -/
structure FieldError.StatesNumbers (error : FieldError) : Prop where
  limit : ∀ limit, Members.valueOf? error.params "limit" = some limit → limit.IsNumber
  params : (Json.object error.params).HasNoNull

/-- A limit that is broken is a bound of the clause. -/
theorem Clause.limit_mem_bounds {clause : Clause} {measured : Binary64} {breach : Breach}
    (h : clause.check measured = some breach) : breach.limit ∈ clause.bounds := by
  cases clause with
  | range least most =>
      rw [check] at h
      split at h
      · next bound hbound =>
          obtain rfl := Option.some.inj h
          exact List.mem_append_left _ (Option.mem_toList.2 (Option.filter_eq_some_iff.1 hbound).1)
      · obtain ⟨bound, hbound, rfl⟩ := Option.map_eq_some_iff.1 h
        exact List.mem_append_right _ (Option.mem_toList.2 (Option.filter_eq_some_iff.1 hbound).1)
  | above bound =>
      obtain ⟨-, heq⟩ := Option.ite_none_right_eq_some.1 h
      obtain rfl := Option.some.inj heq
      exact List.mem_cons_self
  | atLeast bound =>
      obtain ⟨-, heq⟩ := Option.ite_none_right_eq_some.1 h
      obtain rfl := Option.some.inj heq
      exact List.mem_cons_self
  | below bound =>
      obtain ⟨-, heq⟩ := Option.ite_none_right_eq_some.1 h
      obtain rfl := Option.some.inj heq
      exact List.mem_cons_self
  | atMost bound =>
      obtain ⟨-, heq⟩ := Option.ite_none_right_eq_some.1 h
      obtain rfl := Option.some.inj heq
      exact List.mem_cons_self
  | equalTo bound =>
      obtain ⟨-, heq⟩ := Option.ite_none_left_eq_some.1 h
      obtain rfl := Option.some.inj heq
      exact List.mem_cons_self
  | exactly count =>
      obtain ⟨-, heq⟩ := Option.ite_none_left_eq_some.1 h
      obtain rfl := Option.some.inj heq
      exact List.mem_cons_self

namespace Rules

variable {rules : Rules} {node : Node} {site : Site} {error : FieldError}

/-- An error that states texts only. -/
theorem statesNumbers_of_texts (hlimit : Members.valueOf? error.params "limit" = none)
    (h : ∀ param ∈ error.params, ∃ text, param.2 = .string text) : error.StatesNumbers := by
  refine ⟨fun limit hsome => ?_, Json.hasNoNull_object fun param hparam => ?_⟩
  · rw [hlimit] at hsome
    cases hsome
  · obtain ⟨text, htext⟩ := h param hparam
    rw [htext]
    exact Json.hasNoNull_string text

/-- An error about a finite limit states the limit as a number. -/
theorem statesNumbers_breach {breach : Breach} (h : breach.limit.IsFinite)
    (hparams : error.params = breachParams breach) : error.StatesNumbers := by
  have hnumber := Json.isNumber_ofNumber_iff.2 h
  constructor
  · rw [hparams]
    rintro limit ⟨rfl⟩
    exact hnumber
  · rw [hparams]
    refine Json.hasNoNull_object (List.forall_mem_cons.2 ⟨hnumber.hasNoNull, ?_⟩)
    cases namesEnd breach with
    | false => exact nofun
    | true => exact List.forall_mem_singleton.2 (Json.hasNoNull_bool _)

/-- **AN ERROR OF A NODE'S OWN CHECKS** states its finite numbers as numbers. -/
theorem statesNumbers_broken {value : Json} {fault : OwnFault} {place : Place}
    (hnode : node.facets.HasFiniteNumbers) (hfault : fault ∈ node.ownFaults value) :
    (rules.broken node place fault).StatesNumbers := by
  rcases OwnFault.mem_ownFaults_iff.1 hfault with hformat | hchoices | hclause | hpattern
  · obtain ⟨format, rfl⟩ := OwnFault.exists_format_of_ofFormat? hformat
    exact statesNumbers_of_texts rfl (List.forall_mem_singleton.2 ⟨_, rfl⟩)
  · obtain rfl := OwnFault.eq_choices_of_ofChoices? hchoices
    refine ⟨nofun, Json.hasNoNull_object ?_⟩
    exact List.forall_mem_cons.2 ⟨Json.hasNoNull_string _,
      List.forall_mem_singleton.2 (hasNoNull_choices hnode.choices)⟩
  · obtain ⟨clause, measure, measured, breach, hbounds, rfl, -, hbreach⟩ :=
      OwnFault.exists_clause_of_ofClause? hclause
    exact statesNumbers_breach (hnode.clause clause hbounds _ (Clause.limit_mem_bounds hbreach)) rfl
  · obtain ⟨source, rfl⟩ := OwnFault.exists_pattern_of_ofPattern? hpattern
    exact statesNumbers_of_texts rfl (List.forall_mem_singleton.2 ⟨_, rfl⟩)

/-- **WHAT COMES FIRST AT A NODE STATES NUMBERS**, if the node has finite ones. -/
theorem statesNumbers_of_mem_opening {slot : Slot} (hnode : node.facets.HasFiniteNumbers)
    (hslot : slot ∈ rules.opening node site) (herror : rules.outcome? slot = some error) :
    error.StatesNumbers := by
  obtain ⟨found, rfl, hfound⟩ := exists_openingError hslot
  obtain rfl := Option.some.inj herror
  cases hfound with
  | missing habsent => exact statesNumbers_of_texts rfl nofun
  | wrongType hvalue => exact statesNumbers_of_texts rfl (List.forall_mem_singleton.2 ⟨_, rfl⟩)
  | noMember hvalue members => exact statesNumbers_of_texts rfl (List.forall_mem_singleton.2 ⟨_, rfl⟩)
  | broken hvalue hfault => exact statesNumbers_broken hnode hfault
  | failing message => exact statesNumbers_of_texts rfl nofun

/-- Objections, and errors about members without a field, have no parameters. -/
theorem params_of_mem_closing {slot : Slot} (hslot : slot ∈ rules.closing node site)
    (herror : rules.outcome? slot = some error) : error.params = [] := by
  obtain ⟨value, -, ⟨name, -, -, rfl⟩ | ⟨-, hcustoms⟩⟩ := mem_closing hslot
  · obtain rfl := Option.some.inj herror
    rfl
  · obtain ⟨custom, -, hslot⟩ := List.mem_flatMap.1 hcustoms
    unfold customFindings at hslot
    split at hslot
    · split at hslot
      · obtain rfl := List.mem_singleton.1 hslot
        obtain rfl := Option.some.inj herror
        rfl
      · exact nomatch hslot
    · obtain rfl := List.mem_singleton.1 hslot
      obtain ⟨text, -, rfl⟩ := Option.map_eq_some_iff.1 herror
      rfl

theorem hasFiniteNumbers_of_keeps {kept : Node} {keptSite : Site}
    (h : rules.Keeps node site kept keptSite) (hnode : node.HasFiniteNumbers) : kept.HasFiniteNumbers := by
  induction h with
  | here node site => exact hnode
  | step hpart hkept ih => exact ih (hnode.inside hpart.mem_children)

/-- **EVERY ERROR OF A REPORT STATES NUMBERS**, at once and with waiting. -/
theorem statesNumbers_of_report {whole : Json} {report : Report} (hnode : node.HasFiniteNumbers)
    (h : (rules.validate node whole).value = .ok report
      ∨ (rules.validateWaiting node whole).value = .ok report) :
    ∀ error ∈ report.errors, error.StatesNumbers := by
  intro error hmem
  obtain ⟨slots, hslots, herrors⟩ := exists_sublist_of_report h
  rw [herrors] at hmem
  obtain ⟨slot, hslot, herror⟩ := List.mem_filterMap.1 hmem
  obtain ⟨kept, site, hkept, hslot⟩ := exists_keeps_of_mem_findings (hslots.subset hslot)
  rcases hslot with hopening | hclosing
  · exact statesNumbers_of_mem_opening (hasFiniteNumbers_of_keeps hkept hnode).here hopening herror
  · have hparams := params_of_mem_closing hclosing herror
    refine statesNumbers_of_texts ?_ ?_
    · rw [hparams]
      rfl
    · rw [hparams]
      exact nofun

end Rules

/-! ## Exports -/

namespace Export

theorem isNumber_bound {keyword : String} {limit : Binary64} (h : limit.IsFinite) :
    ∀ entry ∈ bound keyword limit, entry.2.IsNumber :=
  List.forall_mem_singleton.2 (Json.isNumber_ofNumber_iff.2 h)

theorem isNumber_bound? {keyword : String} {limit : Option Binary64}
    (h : ∀ x ∈ limit.toList, x.IsFinite) : ∀ entry ∈ bound? keyword limit, entry.2.IsNumber := by
  cases limit with
  | none => exact nofun
  | some limit => exact isNumber_bound (h limit List.mem_cons_self)

/-- The keywords of a clause on a value state its bounds. -/
theorem isNumber_valueClause {bounds : Clause} (h : bounds.IsFinite) :
    ∀ entry ∈ valueClause bounds, entry.2.IsNumber := by
  cases bounds with
  | range least most =>
      obtain ⟨hleast, hmost⟩ := List.forall_mem_append.1 h
      exact List.forall_mem_append.2 ⟨isNumber_bound? hleast, isNumber_bound? hmost⟩
  | exactly count =>
      have hcount := List.forall_mem_singleton.1 h
      exact List.forall_mem_append.2 ⟨isNumber_bound hcount, isNumber_bound hcount⟩
  | above limit => exact isNumber_bound (List.forall_mem_singleton.1 h)
  | atLeast limit => exact isNumber_bound (List.forall_mem_singleton.1 h)
  | below limit => exact isNumber_bound (List.forall_mem_singleton.1 h)
  | atMost limit => exact isNumber_bound (List.forall_mem_singleton.1 h)
  | equalTo limit => exact isNumber_bound (List.forall_mem_singleton.1 h)

/-- The keywords of a clause on a count state its bounds or the counts next to them. -/
theorem isNumber_countClause {least most : String} {bounds : Clause} (h : bounds.IsFinite) :
    ∀ entry ∈ countClause least most bounds, entry.2.IsNumber := by
  cases bounds with
  | range lower upper =>
      obtain ⟨hlower, hupper⟩ := List.forall_mem_append.1 h
      exact List.forall_mem_append.2 ⟨isNumber_bound? hlower, isNumber_bound? hupper⟩
  | exactly count =>
      have hcount := List.forall_mem_singleton.1 h
      exact List.forall_mem_append.2 ⟨isNumber_bound hcount, isNumber_bound hcount⟩
  | equalTo limit =>
      have hlimit := List.forall_mem_singleton.1 h
      exact List.forall_mem_append.2 ⟨isNumber_bound hlimit, isNumber_bound hlimit⟩
  | above limit => exact isNumber_bound (List.forall_mem_singleton.1 h).increment
  | atLeast limit => exact isNumber_bound (List.forall_mem_singleton.1 h)
  | below limit => exact isNumber_bound (List.forall_mem_singleton.1 h).decrement.atLeastZero
  | atMost limit => exact isNumber_bound (List.forall_mem_singleton.1 h)

/-- **THE KEYWORDS OF A FINITE CLAUSE STATE NUMBERS**, whatever is measured. -/
theorem isNumber_clauseKeywords {facets : Facets} (h : facets.HasFiniteNumbers) (base : BaseType) :
    ∀ entry ∈ clauseKeywords base facets.clause, entry.2.IsNumber := by
  unfold clauseKeywords
  split
  · next bounds measure hbounds hmeasure =>
      have hfinite := h.clause bounds hbounds
      unfold clause
      split_ifs
      · exact isNumber_valueClause hfinite
      · exact isNumber_countClause hfinite
  · exact nofun

/-- No keyword says null. -/
def NoneIsNull (members : Members Json) : Prop := ∀ entry ∈ members, entry.2.HasNoNull

theorem noneIsNull_cons {keyword : String} {argument : Json} {members : Members Json}
    (h : argument.HasNoNull) (hmembers : NoneIsNull members) : NoneIsNull ((keyword, argument) :: members) :=
  List.forall_mem_cons.2 ⟨h, hmembers⟩

/-- Putting a text adds no null. -/
theorem NoneIsNull.put {members : Members Json} (h : NoneIsNull members) (name text : String) :
    NoneIsNull (Members.put members name (.string text)) := by
  intro entry hentry
  rcases Members.mem_of_mem_put hentry with rfl | hold
  · exact Json.hasNoNull_string text
  · exact h entry hold

/-- The keywords of a type are never null. -/
theorem noneIsNull_typeKeywords (base : BaseType) : NoneIsNull (typeKeywords base) := by
  unfold NoneIsNull typeKeywords
  split
  · exact nofun
  · next format =>
      refine List.forall_mem_append.2 ⟨List.forall_mem_append.2 ⟨?_, ?_⟩, ?_⟩
      · exact List.forall_mem_singleton.2 (Json.hasNoNull_string _)
      · intro entry hentry
        obtain ⟨name, -, rfl⟩ := Option.map_eq_some_iff.1 (Option.mem_toList.1 hentry)
        exact Json.hasNoNull_string name
      · intro entry hentry
        obtain ⟨source, -, rfl⟩ := Option.map_eq_some_iff.1 (Option.mem_toList.1 hentry)
        exact Json.hasNoNull_string source
  · exact List.forall_mem_singleton.2 (Json.hasNoNull_string _)

/-- **THE KEYWORDS OF A NODE ARE NEVER NULL**, if its numbers are finite. -/
theorem noneIsNull_own {facets : Facets} (h : facets.HasFiniteNumbers) (base : BaseType) :
    NoneIsNull (own base facets) := by
  have hchecks : NoneIsNull (typeKeywords base ++ choices facets.choices
      ++ clauseKeywords base facets.clause) := by
    refine List.forall_mem_append.2 ⟨List.forall_mem_append.2 ⟨noneIsNull_typeKeywords base, ?_⟩, ?_⟩
    · unfold choices
      split_ifs
      · exact nofun
      · exact List.forall_mem_singleton.2 (hasNoNull_choices h.choices)
    · exact fun entry hentry => (isNumber_clauseKeywords h base entry hentry).hasNoNull
  unfold own putPattern
  split
  · exact hchecks
  · exact hchecks.put "pattern" _

/-- Title and description add no null. -/
theorem hasNoNull_finish (facets : Facets) {members : Members Json} (h : NoneIsNull members) :
    (finish facets members).HasNoNull := by
  have htext : ∀ (keyword : String) (text : Option String) (inner : Members Json),
      NoneIsNull inner → NoneIsNull (putText keyword text inner) := by
    intro keyword text inner hinner
    cases text with
    | none => exact hinner
    | some text => exact hinner.put keyword text
  exact Json.hasNoNull_object (htext _ _ _ (htext _ _ _ h))

/-- The schemas of fields are not null if each of them has no null in it. -/
theorem noneIsNull_schemasByName {nodes : List (String × Node)}
    (h : ∀ entry ∈ nodes, entry.2.toJsonSchema.HasNoNull) : NoneIsNull (Node.schemasByName nodes) := by
  rw [Node.schemasByName_eq_map]
  intro entry hentry
  obtain ⟨node, hnode, rfl⟩ := List.mem_map.1 hentry
  exact h node hnode

/-- The keywords for fields are not null if their schemas are not. -/
theorem noneIsNull_fieldKeywords {fields : List (String × Node)} {properties : Members Json}
    (h : NoneIsNull properties) : NoneIsNull (fieldKeywords fields properties) := by
  have hnames : (Json.array (requiredNames fields)).HasNoNull := by
    refine Json.hasNoNull_array ?_
    intro item hitem
    obtain ⟨field, -, rfl⟩ := List.mem_map.1 hitem
    exact Json.hasNoNull_string field.1
  unfold fieldKeywords
  split_ifs
  · exact nofun
  · exact noneIsNull_cons (Json.hasNoNull_object h) nofun
  · exact noneIsNull_cons (Json.hasNoNull_object h) (noneIsNull_cons hnames nofun)

/-- The arms of a chain are the schemas of its targets. -/
theorem arms_eq_map (body : Chain Node) :
    Node.entrySchemas body.entries ++ Node.fallbackSchemas body.fallback
      = body.targets.map Node.toJsonSchema := by
  have hentries : ∀ entries : List (Chain.Entry Node),
      Node.entrySchemas entries = (entries.filterMap Chain.Entry.target).map Node.toJsonSchema := by
    intro entries
    induction entries with
    | nil => rfl
    | cons entry rest ih =>
        obtain ⟨kind, conditions, target, message, throws⟩ := entry
        show Node.targetSchemas target ++ Node.entrySchemas rest = _
        rw [ih]
        cases target <;> rfl
  rw [Chain.targets, List.map_append, hentries]
  cases body.fallback <;> rfl

end Export

/-- **THE SCHEMA OF A TREE SAYS NO NULL**, if every number of the tree is finite. -/
theorem Node.hasNoNull_toJsonSchema (node : Node) (h : node.HasFiniteNumbers) :
    node.toJsonSchema.HasNoNull := by
  induction node using Node.induction_children with
  | step node ih =>
      -- the schemas of the children stand alone, by name or in a list, and are needed in these
      -- forms
      have hchildren : ∀ child ∈ node.children, child.toJsonSchema.HasNoNull :=
        fun child hchild => ih child hchild (h.inside hchild)
      have hnamed : ∀ nodes : List (String × Node), node.children = nodes.map Prod.snd →
          ∀ entry ∈ nodes, entry.2.toJsonSchema.HasNoNull := by
        intro nodes heq entry hentry
        exact hchildren entry.2 (heq ▸ List.mem_map_of_mem hentry)
      have hlist : ∀ nodes : List Node, node.children = nodes →
          (Json.array (nodes.map Node.toJsonSchema)).HasNoNull := by
        rintro nodes rfl
        refine Json.hasNoNull_array ?_
        intro item hitem
        obtain ⟨child, hchild, rfl⟩ := List.mem_map.1 hitem
        exact hchildren child hchild
      cases node with
      | leaf type facets => exact Export.hasNoNull_finish facets (Export.noneIsNull_own h.here _)
      | object facets fields =>
          refine Export.hasNoNull_finish facets (List.forall_mem_append.2 ⟨Export.noneIsNull_own h.here _, ?_⟩)
          exact Export.noneIsNull_fieldKeywords (Export.noneIsNull_schemasByName (hnamed fields rfl))
      | array facets items =>
          cases items with
          | none => exact Export.hasNoNull_finish facets (Export.noneIsNull_own h.here _)
          | some items =>
              refine Export.hasNoNull_finish facets
                (List.forall_mem_append.2 ⟨Export.noneIsNull_own h.here _, ?_⟩)
              exact Export.noneIsNull_cons (hchildren items List.mem_cons_self) nofun
      | union facets members =>
          refine Export.hasNoNull_finish facets (Export.noneIsNull_cons ?_ nofun)
          rw [schemas_eq_map]
          exact hlist members rfl
      | matching facets reference cases =>
          refine Export.hasNoNull_finish facets
            (Export.noneIsNull_cons (Json.hasNoNull_string _) (Export.noneIsNull_cons ?_ nofun))
          exact Json.hasNoNull_object (Export.noneIsNull_schemasByName (hnamed cases rfl))
      | switch facets field yes no =>
          have hyes := hchildren yes List.mem_cons_self
          cases no with
          | none =>
              exact Export.hasNoNull_finish facets
                (Export.noneIsNull_cons (Json.hasNoNull_string _) (Export.noneIsNull_cons hyes nofun))
          | some no =>
              have hno := hchildren no (List.mem_cons_of_mem _ List.mem_cons_self)
              exact Export.hasNoNull_finish facets
                (Export.noneIsNull_cons (Json.hasNoNull_string _)
                  (Export.noneIsNull_cons hyes (Export.noneIsNull_cons hno nofun)))
      | chain facets body =>
          have harms := hlist body.targets rfl
          rw [← Export.arms_eq_map] at harms
          obtain ⟨entries, fallback⟩ := body
          refine Export.hasNoNull_finish facets (Export.noneIsNull_cons (Json.hasNoNull_bool true) ?_)
          split_ifs
          · exact nofun
          · exact Export.noneIsNull_cons harms nofun

/-! ## Trees of texts -/

/-- The numbers of the tree are stated as numbers: the limits and the choices in the errors
    of every report, the bounds and the choices in the schema. -/
structure Node.StatesNumbers (node : Node) : Prop where
  errors : ∀ (rules : Rules) (whole : Json) (report : Report),
    ((rules.validate node whole).value = .ok report
      ∨ (rules.validateWaiting node whole).value = .ok report) →
    ∀ error ∈ report.errors, error.StatesNumbers
  bounds : node.Every fun part =>
    ∀ keyword ∈ Export.clauseKeywords part.base part.facets.clause, keyword.2.IsNumber
  choices : node.Every fun part => ∀ literal ∈ part.facets.choices, literal.toJson ≠ .null
  schema : node.toJsonSchema.HasNoNull

/-- **FINITE NUMBERS ARE STATED AS NUMBERS.** -/
theorem Node.HasFiniteNumbers.statesNumbers {node : Node} (h : node.HasFiniteNumbers) :
    node.StatesNumbers where
  errors _ _ _ hreport := Rules.statesNumbers_of_report h hreport
  bounds := h.mono fun part hpart => Export.isNumber_clauseKeywords hpart part.base
  choices := h.mono fun _ hpart literal hliteral => (hpart.choices literal hliteral).toJson_ne_null
  schema := node.hasNoNull_toJsonSchema h

namespace Compiler

/-- **THE NUMBERS OF A COMPILED TEXT ARE STATED AS NUMBERS** exactly as far as they are not
    too large.  Every number in the tree is finite if and only if no numeral in the text is
    too large, and then reports and the schema state no null in place of a number.  A
    registry that is asked yields finite numbers only. -/
theorem numbers_are_stated_as_numbers {compiler : Compiler} (hfaithful : compiler.IsFaithful)
    (hyields : compiler.attached = true → ∀ node, compiler.registry.Yields node → node.HasFiniteNumbers)
    {source : String} {node : Node} (h : ((compile (.text source)).run compiler).1 = .ok node) :
    (node.HasFiniteNumbers
        ↔ ∀ numeral ∈ (Dsl.Outline.ofText source.toList).numerals node, ¬numeral.IsTooLarge)
      ∧ (node.HasFiniteNumbers → node.StatesNumbers) := by
  refine ⟨?_, fun hfinite => hfinite.statesNumbers⟩
  obtain ⟨hsame, -⟩ := transparent_compile (.text source) compiler _ (beside_uncached hfaithful)
  rw [hsame] at h
  have hserves : Serves Node.HasFiniteNumbers compiler.uncached := ⟨rfl, hyields⟩
  have hensures : Ensures (Serves Node.HasFiniteNumbers) (compileText "" source)
      fun node => Dsl.Settles ((Dsl.Outline.ofText source.toList).numerals node) node :=
    ensures_compileText_of_read fun _ =>
      Dsl.Outline.ensures_finite Dsl.ensures_registered? (Dsl.Outline.ofText source.toList) ""
  exact (hensures _ hserves).2 node h

theorem numbers_are_stated_of_spacedTree :
    IsFaithful {} ∧ ((compile (.text spacedSource)).run {}).1 = .ok spacedTree
      ∧ (∀ numeral ∈ (Dsl.Outline.ofText spacedSource.toList).numerals spacedTree, ¬numeral.IsTooLarge)
      ∧ spacedTree.StatesNumbers := by
  have hfaithful : IsFaithful {} := fun _ hcache => nomatch hcache
  have hcompile := (makes_text denotesAlone_spacedSource {} isLone_default).1
  obtain ⟨hiff, hstates⟩ := numbers_are_stated_as_numbers hfaithful nofun hcompile
  have hnumerals : ∀ numeral ∈ (Dsl.Outline.ofText spacedSource.toList).numerals spacedTree,
      ¬numeral.IsTooLarge := by
    rw [outline_spacedSource]
    decide +kernel
  exact ⟨hfaithful, hcompile, hnumerals, hstates (hiff.2 hnumerals)⟩

/-- A bound of more digits than a double has room for is taken for an infinity: null is the
    limit that the error states, and the least value that the schema allows. -/
theorem numbers_lost_beyond_doubles :
    ∃ node, compiled (.text ("number:>=" ++ toString (10 ^ 309 : Int))) = .ok node
      ∧ ¬node.HasFiniteNumbers
      ∧ (∃ report, ((Rules.ofConfig {}).validate node (.integer 5)).value = .ok report
          ∧ report.errors.map (fun error => (Members.valueOf? error.params "limit").map Json.isNull)
            = [some true])
      ∧ node.toJsonSchema = .object [("type", .string "number"), ("minimum", .null)] := by
  have hinfinite : Binary64.ofInt (10 ^ 309) = .infinite false := by decide +kernel
  have hwritten : (Dsl.WrittenClause.compared .atLeast (.ofInt (10 ^ 309))).Suits .value :=
    ⟨⟨Dsl.Numeral.isPlain_ofInt _, fun h => absurd rfl h⟩, nofun⟩
  have hcompiled := (@compiled_bounded_iff ⟨"number", .primitive .number, by decide⟩ _ _ rfl
    hwritten.isPlain _).2 ⟨hwritten, rfl⟩
  have hsource := Dsl.TypeName.boundedText_compared ⟨"number", .primitive .number, by decide⟩ .atLeast (10 ^ 309)
  have hclause : (Dsl.WrittenClause.compared .atLeast (.ofInt (10 ^ 309))).clause .value
      = .atLeast (.infinite false) := by
    rw [← hinfinite, ← Dsl.Numeral.value_ofInt]
    rfl
  rw [hclause] at hcompiled
  refine ⟨_, hsource ▸ hcompiled, ?_, ?_, rfl⟩
  · intro hfinite
    have hbound := hfinite.here.clause _ rfl _ List.mem_cons_self
    exact Binary64.not_isFinite_infinite false hbound
  · have hnow : (Node.leaf .number { clause := some (.atLeast (.infinite false)) }).firstSuspended? .root
        = none := rfl
    exact ⟨_, Rules.value_validate_of_immediate (Rules.ofConfig {}) (.integer 5) hnow, by decide +kernel⟩

end Compiler

end Conform
