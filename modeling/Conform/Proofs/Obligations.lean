import Conform.Proofs.Clean
import Conform.Proofs.TreeSources
import Conform.Proofs.Ordering
import Conform.Proofs.CutTexts
import Conform.Proofs.Waiting

/-! # Obligations — what a field asks of every record

    A mark at the end of a text asks for a value, and a custom check of a field that
    objects to everything asks for none.  Both are OBLIGATIONS: facets that are put on
    whatever tree the name of the type stands for, a registered one too.

    A leaf, an object, an array and a union look at their facets, and an object reports
    what the obligation of a field says.  A branch hands its site over to what it
    selects before its own facets are looked at, so it finds what it would find without
    its obligations (`findings_unobliged`).

    Main fact: the obligations of a field hold unless its tree is a branch, which is
    never so where the registry yields no branch (`obligations_hold_unless_branch`). -/

namespace Conform

/-! ## Marked texts -/

namespace Dsl

open Conform.Text

/-- The mark at the end of a text is seen, if the text has a body at all. -/
theorem flag_of_bodyOf_marked {text : Chars} {flag : Bool}
    {body : { part : Chars // part.length ≤ (text ++ ['!']).length }}
    (h : bodyOf (text ++ ['!']) = .ok (flag, body)) : flag = true := by
  have hmark : isBlank '!' = false := by decide
  obtain ⟨front, hfront⟩ := exists_trim_append_singleton hmark text
  unfold bodyOf at h
  split at h
  · exact nomatch h
  · split at h
    · next hb =>
        rw [hfront, beforeLast?_append_singleton] at hb
        exact nomatch hb
    · split at h
      · exact nomatch h
      · exact (congrArg Prod.fst (Except.ok.inj h)).symm

/-- The tree of the outline requires a value, if there is a tree. -/
def Outline.Requires : Outline → Prop
  | .fault _ => True
  | .named required _ => required = true
  | .choice required _ _ => required = true
  | .bounded required _ _ _ => required = true
  | .array required _ _ => required = true
  | .union required _ => required = true

/-- A mark at the end makes the outline of a required node. -/
theorem Outline.requires_ofText (text : Chars) : (Outline.ofText (text ++ ['!'])).Requires := by
  unfold Outline.ofText
  split
  · trivial
  · rename_i required body hbody heq
    obtain rfl := flag_of_bodyOf_marked heq
    split
    · trivial
    all_goals rfl

/-- Whatever names stand for, the flag of an outline is set on its tree. -/
theorem Outline.ensures_required (path : String) (outline : Outline) :
    Ensures (fun _ => True) (outline.node path) fun node =>
      outline.Requires → node.facets.required = true := by
  have hset : ∀ required, ∀ node : Node, required = true →
      (node.withRequired required).facets.required = true := by
    rintro _ node rfl
    exact congrArg Facets.required (Node.facets_mapFacets _ node)
  -- a mark is set last where a node is handed on, and as part of the facets where one is made
  cases outline with
  | fault flaw =>
      unfold Outline.node
      exact .throw _
  | named required name =>
      unfold Outline.node
      exact (Ensures.vacuous _).bind fun node _ => .pure (hset required node)
  | choice required hint body =>
      unfold Outline.node
      exact (Ensures.vacuous _).bind fun _ _ => .pure id
  | bounded required name body rest =>
      unfold Outline.node
      exact (Ensures.vacuous _).bind fun _ _ =>
        (Ensures.vacuous _).bind fun node _ => .pure (hset required node)
  | array required clause items =>
      cases items with
      | none =>
          unfold Outline.node
          exact (Ensures.vacuous _).bind fun _ _ => .pure id
      | some items =>
          unfold Outline.node
          exact (Ensures.vacuous _).bind fun _ _ => (Ensures.vacuous _).bind fun _ _ => .pure id
  | union required members =>
      unfold Outline.node
      exact (Ensures.vacuous _).bind fun _ _ => .pure id

/-- A mark stands at the end of the text. -/
def IsMarked (source : String) : Prop := ∃ plain, source = plain ++ "!"

/-- **A MARKED TEXT REQUIRES A VALUE**, whatever its names stand for. -/
theorem ensures_required_of_marked (path source : String) :
    Ensures (fun _ => True) (read path source) fun node =>
      IsMarked source → node.facets.required = true := by
  refine (Outline.ensures_required path (Outline.ofText source.toList)).mono ?_
  rintro node hrequired ⟨plain, rfl⟩
  refine hrequired ?_
  rw [String.toList_append]
  exact Outline.requires_ofText plain.toList

/-- A text makes a branch only where a name in it stands for one. -/
theorem inherited_branchless (P : Prop) :
    Inherited (fun node => P → node.Branchless) (fun node => P → node.Branchless) where
  builtin base _ := (Node.exportable_ofType base).branchless
  named required node h hP := (h hP).mapFacets _
  bounded required name body rest node constrained h hconstrain hP := by
    rcases constrain_eq_ok hconstrain with ⟨_, _, -, -, rfl⟩ | ⟨_, _, -, -, rfl⟩
    · exact ((h hP).mapFacets _).mapFacets _
    · exact ((h hP).mapFacets _).mapFacets _
  choice _ _ _ _ _ _ _ := trivial
  array _ _ _ _ _ _ _ := trivial
  union _ _ _ _ _ := trivial

end Dsl

/-! ## Obligations in specifications -/

/-- The check objects to every value, at once. -/
def Custom.ObjectsAlways (custom : Custom) : Prop :=
  ∃ check, custom.check = .immediate check ∧ ∀ value, (check value).value ≠ none

namespace Spec

/-- The specification asks for a value: it is a marked text, or a field that is made
    required, or one on a marked text that is not made optional. -/
def AsksForValue : Spec → Prop
  | .text source => Dsl.IsMarked source
  | .field given =>
      given.required = some true ∨ (given.required = none ∧ Dsl.IsMarked given.base)
  | _ => False

/-- The specification has a custom check that objects to every value. -/
def ObjectsAlways : Spec → Prop
  | .field given => ∃ custom ∈ given.customs, custom.ObjectsAlways
  | _ => False

/-- The tree has the obligations that the specification writes, and is no branch where
    the condition holds. -/
structure Obliges (spec : Spec) (condition : Prop) (node : Node) : Prop where
  required : spec.AsksForValue → node.facets.required = true
  objects : spec.ObjectsAlways → ∃ custom ∈ node.facets.customs, custom.ObjectsAlways
  branchless : spec.AsksForValue ∨ spec.ObjectsAlways → condition → node.Branchless

end Spec

/-- Dressing a node adds the custom checks of the field, and leaves its form. -/
theorem FieldSpec.facets_of_dress {path : String} {field : FieldSpec} {node dressed : Node}
    (h : field.dress path node = .ok dressed) :
    dressed.facets.required = field.required.getD node.facets.required
      ∧ dressed.facets.customs = node.facets.customs ++ field.customs
      ∧ (node.Branchless → dressed.Branchless) := by
  cases hw : withPattern path field.pattern node with
  | error error =>
      unfold dress at h
      rw [hw] at h
      exact nomatch h
  | ok patterned =>
      rw [dress_eq_ok hw] at h
      obtain rfl := Except.ok.inj h
      rw [Node.facets_mapFacets]
      unfold withPattern at hw
      split at hw
      · obtain rfl := Except.ok.inj hw
        exact ⟨rfl, rfl, fun hform => hform.mapFacets _⟩
      · split at hw
        · exact nomatch hw
        · split at hw
          · exact nomatch hw
          · obtain rfl := Except.ok.inj hw
            rw [Node.facets_mapFacets]
            exact ⟨rfl, rfl, fun hform => (hform.mapFacets _).mapFacets _⟩

namespace Compiler

/-- Nothing that the registry may answer with is a branch. -/
def YieldsNoBranch (compiler : Compiler) : Prop :=
  compiler.attached = true → ∀ node, compiler.registry.Yields node → node.Branchless

section

variable {condition : Prop}

/-- Whatever is compiled, the registry yields no more afterwards. -/
theorem stepwise_serves :
    Stepwise fun _ x =>
      Ensures (Serves fun node => condition → node.Branchless) x fun _ => True where
  pure _ := .pure trivial
  throw error := .throw error
  bind hx hf := hx.bind fun a _ => hf a
  text path source :=
    (ensures_compileText (Dsl.inherited_branchless condition) path source).mono fun _ _ => trivial

/-- **A MARKED TEXT COMPILES TO A REQUIRED NODE**, which is no branch if no registered tree is. -/
theorem ensures_marked (path source : String) :
    Ensures (Serves fun node => condition → node.Branchless) (compileText path source) fun node =>
      (condition → node.Branchless) ∧ (Dsl.IsMarked source → node.facets.required = true) := by
  refine ensures_compileText_of_read fun attached => ?_
  have hbranchless : Ensures (Dsl.Names.Serve (fun node => condition → node.Branchless) attached)
      (Dsl.read path source) fun node => condition → node.Branchless :=
    Dsl.ensures_read Dsl.ensures_registered? (Dsl.inherited_branchless condition) path source
  exact hbranchless.and (Dsl.ensures_required_of_marked path source) fun _ _ => trivial

/-- **THE TREE HAS THE OBLIGATIONS** of its specification, whatever names stand for. -/
theorem ensures_obliges (path : String) (spec : Spec) :
    Ensures (Serves fun node => condition → node.Branchless) (compileAt path spec)
      (spec.Obliges condition) := by
  have hother := (@stepwise_serves condition).compileAt path spec
  cases spec with
  | text source =>
      unfold compileAt
      refine (ensures_marked path source).mono ?_
      rintro node ⟨hbranchless, hrequired⟩
      exact ⟨hrequired, nofun, fun _ => hbranchless⟩
  | field field =>
      unfold compileAt
      refine (ensures_marked path field.base).bind ?_
      rintro node ⟨hbranchless, hrequired⟩
      refine ensures_mk fun dressed hdressed => ?_
      obtain ⟨hflag, hcustoms, hform⟩ := FieldSpec.facets_of_dress hdressed
      refine ⟨?_, ?_, fun _ hcondition => hform (hbranchless hcondition)⟩
      · rintro (hset | ⟨hunset, hmarked⟩)
        · rw [hflag, hset, Option.getD_some]
        · rw [hflag, hunset, Option.getD_none]
          exact hrequired hmarked
      · rintro ⟨custom, hmem, hobjects⟩
        rw [hcustoms]
        exact ⟨custom, List.mem_append_right _ hmem, hobjects⟩
  | _ => exact hother.mono fun node _ => ⟨nofun, nofun, fun h => h.elim nofun nofun⟩

/-- Every field has a tree among the compiled ones. -/
theorem ensures_eachField (path : String) (fields : List (String × Spec)) :
    Ensures (Serves fun node => condition → node.Branchless) (compileFields path fields)
      fun compiled => ∀ field ∈ fields, ∃ node,
        (field.1, node) ∈ compiled ∧ field.2.Obliges condition node := by
  induction fields with
  | nil =>
      unfold compileFields
      exact .pure fun _ hmem => nomatch hmem
  | cons field rest ih =>
      obtain ⟨name, spec⟩ := field
      unfold compileFields
      refine (ensures_obliges (memberPath path name) spec).bind ?_
      intro node hnode
      refine ih.bind ?_
      intro compiled hcompiled
      refine .pure (List.forall_mem_cons.2 ⟨⟨node, List.mem_cons_self, hnode⟩, ?_⟩)
      intro field hfield
      obtain ⟨other, hmem, hother⟩ := hcompiled field hfield
      exact ⟨other, List.mem_cons_of_mem _ hmem, hother⟩

end

/-- The tree of an object has a field for each that is specified, with its obligations. -/
theorem exists_field_of_compile {compiler : Compiler} (hfaithful : compiler.IsFaithful)
    {fields : List (String × Spec)} {schema : Node}
    (h : ((compile (.object fields)).run compiler).1 = .ok schema) {name : String} {spec : Spec}
    (hfield : (name, spec) ∈ fields) :
    ∃ nodes child, schema = .object {} nodes ∧ (name, child) ∈ nodes
      ∧ spec.Obliges compiler.YieldsNoBranch child := by
  obtain ⟨hsame, -⟩ := transparent_compile (.object fields) compiler _ (beside_uncached hfaithful)
  rw [hsame] at h
  have hserves : Serves (fun node => compiler.YieldsNoBranch → node.Branchless) compiler.uncached :=
    ⟨rfl, fun hattached node hyields hnone => hnone hattached node hyields⟩
  have hensures : Ensures (Serves fun node => compiler.YieldsNoBranch → node.Branchless)
      (compile (.object fields)) fun schema => ∃ nodes, schema = .object {} nodes
        ∧ ∀ field ∈ fields, ∃ node,
          (field.1, node) ∈ nodes ∧ field.2.Obliges compiler.YieldsNoBranch node := by
    unfold compile compileAt
    exact (ensures_eachField "" fields).bind fun nodes hnodes => .pure ⟨nodes, rfl, hnodes⟩
  obtain ⟨nodes, hschema, hnodes⟩ := (hensures _ hserves).2 schema h
  obtain ⟨child, hmem, hobliges⟩ := hnodes _ hfield
  exact ⟨nodes, child, hschema, hmem, hobliges⟩

end Compiler

/-! ## Obligations of records -/

namespace Rules

variable {rules : Rules}

/-- No check accepts the value, waiting or not. -/
def Denies (rules : Rules) (node : Node) (value : Json) : Prop :=
  holds (rules.validate node value).value = false
    ∧ holds (rules.validateWaiting node value).value = false

/-- What has errors is denied by every entry point. -/
theorem denies_of_hasErrors {node : Node} {value : Json}
    (h : hasErrors (rules.findings node (.root value)) = true) : rules.Denies node value := by
  have hkept : ∀ slots, hasErrors slots = true →
      (readyErrors (rules.keep slots)).isEmpty = false := by
    intro slots herrors
    rw [Bool.eq_false_iff, Ne, List.isEmpty_iff, readyErrors_eq_nil_iff, hasErrors_keep, herrors]
    exact Bool.true_eq_false.mp
  constructor
  · cases hs : node.firstSuspended? .root with
    | some place =>
        rw [value_validate_of_suspended _ value hs]
        rfl
    | none =>
        rw [value_validate_of_immediate _ value hs]
        exact hkept _ h
  · rw [validateWaiting_eq, outcomes_decided]
    exact hkept _ (hasErrors_settle_of_hasErrors h)

/-- Where the first error does not end the check, every error that is found is reported:
    by the check that waits, and by the one at once if no check has to be waited for. -/
theorem exists_reports_of_ready {node : Node} {value : Json} {error : FieldError}
    (hlast : rules.config.abortEarly = false)
    (h : .ready error ∈ rules.findings node (.root value)) :
    (∃ report, (rules.validateWaiting node value).value = .ok report ∧ error ∈ report.errors)
      ∧ (node.firstSuspended? .root = none →
          ∃ report, (rules.validate node value).value = .ok report ∧ error ∈ report.errors) := by
  have hnever : ¬rules.config.abortEarly = true := Bool.eq_false_iff.1 hlast
  constructor
  · rw [validateWaiting_eq, decided, if_neg hnever]
    exact ⟨_, rfl, List.mem_filterMap.2 ⟨_, h, rfl⟩⟩
  · intro himmediate
    rw [value_validate_of_immediate _ value himmediate, keep, if_neg hnever]
    exact ⟨_, rfl, List.mem_filterMap.2 ⟨_, h, rfl⟩⟩

/-- What a field finds in its member is found in the record. -/
theorem mem_findings_of_field {nodes : List (String × Node)} {record : Members Json} {name : String}
    {child : Node} (hmem : (name, child) ∈ nodes) {slot : Slot}
    (h : slot ∈ rules.findings child
      ⟨Members.valueOf? record name, some (.object record), Place.root.key name⟩) :
    slot ∈ rules.findings (.object {} nodes) (.root (.object record)) := by
  have hvalue : (Node.object {} nodes).present? (.root (.object record)) = some (.object record) :=
    Node.present?_of_isNull_eq_false rfl rfl
  exact mem_findings_of_part (.field hvalue rfl hmem) h

section

variable {node : Node} {site : Site} (hbranchless : node.Branchless)

include hbranchless

/-- A node that is no branch reports that its value is missing. -/
theorem missing_mem_findings (habsent : node.present? site = none)
    (hrequired : node.facets.required = true) :
    .ready (rules.missing node site.place) ∈ rules.findings node site := by
  have hmissing : ∀ inside,
      .ready (rules.missing node site.place) ∈ rules.siteFindings node inside site := by
    intro inside
    unfold siteFindings
    rw [habsent, hrequired]
    exact List.mem_singleton_self _
  rw [findings_eq, List.append_assoc]
  refine List.mem_append_left _ ?_
  cases node with
  | leaf | object | array | union => exact hmissing _
  | matching | switch | chain => exact hbranchless.elim

/-- A node that is no branch has errors where one of its custom checks objects. -/
theorem hasErrors_of_objection {value : Json} (hvalue : node.present? site = some value)
    (h : hasErrors (rules.allCustomFindings node site.place value) = true) :
    hasErrors (rules.findings node site) = true := by
  have hchecked : ∀ parts, hasErrors
      (rules.siteFindings node (rules.valueFindings node site.place parts) site) = true := by
    intro parts
    rw [siteFindings_of_present hvalue, ← Bool.not_eq_false, hasErrors_valueFindings_eq_false_iff]
    rintro ⟨-, -, hclean⟩
    exact absurd (hclean.symm.trans h) Bool.false_ne_true
  cases node with
  | leaf | object => exact hchecked _
  | array facets items => cases items <;> exact hchecked _
  | union facets members =>
      rw [findings_union_of_present hvalue, ← Bool.not_eq_false,
        hasErrors_trialFindings_eq_false_iff]
      rintro ⟨-, hclean⟩
      exact absurd (hclean.symm.trans h) Bool.false_ne_true
  | matching | switch | chain => exact hbranchless.elim

end

/-- A custom check that objects to every value objects to this one. -/
theorem hasErrors_of_objectsAlways {node : Node} {custom : Custom}
    (hmem : custom ∈ node.facets.customs) (h : custom.ObjectsAlways) (place : Place)
    (value : Json) :
    hasErrors (rules.allCustomFindings node place value) = true := by
  obtain ⟨check, hcheck, hobjects⟩ := h
  obtain ⟨text, htext⟩ := Option.ne_none_iff_exists'.1 (hobjects value)
  refine List.any_eq_true.2 ⟨.ready (rules.objection node place text), ?_, rfl⟩
  refine List.mem_flatMap.2 ⟨custom, hmem, ?_⟩
  unfold customFindings
  rw [hcheck]
  dsimp only
  rw [htext]
  exact List.mem_singleton_self _

end Rules

/-! ## Branches -/

/-- The node without its obligations. -/
def Node.unobliged (node : Node) : Node :=
  node.mapFacets fun facets => { facets with required := false, customs := [] }

/-- **A BRANCH FINDS WHAT IT WOULD FIND WITHOUT ITS OBLIGATIONS**: it hands its site over
    before it looks at them. -/
theorem Rules.findings_unobliged {rules : Rules} {node : Node} (h : ¬node.Branchless) (site : Site) :
    rules.findings node.unobliged site = rules.findings node site := by
  cases node with
  | leaf | object | array | union => exact absurd trivial h
  | matching facets reference cases => rfl
  | switch facets field yes no => cases no <;> rfl
  | chain facets body =>
      -- the message of a failing entry has the label of the chain, which stays
      rw [Node.unobliged, Node.mapFacets, findings_chain, findings_chain]
      cases (body.select site.context).value <;> rfl

/-! ## Fields of a compiled object -/

/-- The report has an error for a field that is required and missing. -/
def Report.NamesMissing (report : Report) (name : String) : Prop :=
  ∃ error ∈ report.errors, error.place = (Place.root.key name).text ∧ error.keyword = "required"

namespace Node

/-- Every record without the field is refused.  Where the first error does not end the
    check, the report names the field as missing: that of the check that waits, and that
    of the one at once if no check has to be waited for. -/
def DemandsField (schema : Node) (name : String) : Prop :=
  ∀ (rules : Rules) (record : Members Json), Members.valueOf? record name = none →
    rules.Denies schema (.object record)
      ∧ (rules.config.abortEarly = false →
        (∃ report, (rules.validateWaiting schema (.object record)).value = .ok report
            ∧ report.NamesMissing name)
          ∧ (schema.firstSuspended? .root = none →
            ∃ report, (rules.validate schema (.object record)).value = .ok report
              ∧ report.NamesMissing name))

/-- Every record in which the field is present and not null is refused. -/
def DeniesField (schema : Node) (name : String) : Prop :=
  ∀ (rules : Rules) (record : Members Json) (value : Json),
    Members.valueOf? record name = some value → value.isNull = false →
    rules.Denies schema (.object record)

variable {nodes : List (String × Node)} {name : String} {child : Node}
  (hmem : (name, child) ∈ nodes) (hbranchless : child.Branchless)

include hmem hbranchless

/-- An object demands a field whose node is required. -/
theorem demandsField_of_required (hrequired : child.facets.required = true) :
    (Node.object {} nodes).DemandsField name := by
  intro rules record habsent
  have hfound : .ready (rules.missing child (Place.root.key name))
      ∈ rules.findings (.object {} nodes) (.root (.object record)) := by
    refine Rules.mem_findings_of_field hmem ?_
    exact Rules.missing_mem_findings hbranchless (Node.present?_eq_none habsent) hrequired
  refine ⟨Rules.denies_of_hasErrors (List.any_eq_true.2 ⟨_, hfound, rfl⟩), ?_⟩
  intro hlast
  obtain ⟨⟨later, hlater, hinlater⟩, hnow⟩ := Rules.exists_reports_of_ready hlast hfound
  refine ⟨⟨later, hlater, _, hinlater, rfl, rfl⟩, fun himmediate => ?_⟩
  obtain ⟨now, hreport, hinnow⟩ := hnow himmediate
  exact ⟨now, hreport, _, hinnow, rfl, rfl⟩

/-- An object denies a field with a custom check that always objects. -/
theorem deniesField_of_objectsAlways
    (hobjects : ∃ custom ∈ child.facets.customs, custom.ObjectsAlways) :
    (Node.object {} nodes).DeniesField name := by
  intro rules record value hvalue hnull
  obtain ⟨custom, hcustom, hobjects⟩ := hobjects
  have hpresent : child.present?
      ⟨Members.valueOf? record name, some (.object record), Place.root.key name⟩ = some value :=
    Node.present?_of_isNull_eq_false hvalue hnull
  have herrors := Rules.hasErrors_of_objection hbranchless hpresent
    (rules.hasErrors_of_objectsAlways hcustom hobjects _ _)
  obtain ⟨slot, hslot, hready⟩ := List.any_eq_true.1 herrors
  have hfound := Rules.mem_findings_of_field hmem hslot
  exact Rules.denies_of_hasErrors (List.any_eq_true.2 ⟨slot, hfound, hready⟩)

end Node

namespace Compiler

/-- **OBLIGATIONS HOLD UNLESS THE TYPE IS A BRANCH**: whatever the registry holds, the
    object that is compiled demands the fields whose specification asks for a value, and
    refuses the values of those with a check that objects to everything, as long as the
    tree of the field is no branch.  If it is one, the obligations change nothing of what
    is found.  A tree is no branch where the registry yields none. -/
theorem obligations_hold_unless_branch {compiler : Compiler} (hfaithful : compiler.IsFaithful)
    {fields : List (String × Spec)} {schema : Node}
    (h : ((compile (.object fields)).run compiler).1 = .ok schema) {name : String} {spec : Spec}
    (hfield : (name, spec) ∈ fields) :
    ∃ nodes child, schema = .object {} nodes ∧ (name, child) ∈ nodes
      ∧ (child.Branchless →
          (spec.AsksForValue → schema.DemandsField name)
            ∧ (spec.ObjectsAlways → schema.DeniesField name))
      ∧ (¬child.Branchless → ∀ rules : Rules, ∀ site,
          rules.findings child.unobliged site = rules.findings child site)
      ∧ (spec.AsksForValue ∨ spec.ObjectsAlways → compiler.YieldsNoBranch → child.Branchless) := by
  obtain ⟨nodes, child, rfl, hmem, hobliges⟩ := exists_field_of_compile hfaithful h hfield
  refine ⟨nodes, child, rfl, hmem, fun hbranchless => ⟨fun hasks => ?_, fun hobjects => ?_⟩, ?_,
    hobliges.branchless⟩
  · exact Node.demandsField_of_required hmem hbranchless (hobliges.required hasks)
  · exact Node.deniesField_of_objectsAlways hmem hbranchless (hobliges.objects hobjects)
  · exact fun hbranch rules site => Rules.findings_unobliged hbranch site

/-- A compiler with one registered type. -/
def registering (name : String) (node : Node) : Compiler :=
  { registry := Registry.register {} name node, attached := true }

/-- A field on a type, with a custom check that objects to everything. -/
def barred (base : String) : FieldSpec :=
  { base := base, customs := [⟨1, .immediate fun _ => pure (some "BARRED")⟩] }

/-- One field with each of the obligations, both on a registered type. -/
def obligingFields : List (String × Spec) := [("f", .text "b!"), ("g", .field (barred "b"))]

/-- The tree of the two fields. -/
def obligingTree (node : Node) : Node :=
  .object {}
    [("f", node.withRequired true), ("g", (node.withRequired false).mapFacets (barred "b").extend)]

/-- A text that is a registered name makes the registered tree. -/
theorem compileText_registered (path : String) {source : String} {required : Bool} (node : Node)
    (h : Dsl.Outline.ofText source.toList = .named required ['b']) :
    (compileText path source).run (registering "b" node)
      = (.ok (node.withRequired required), registering "b" node) := by
  have hread : (Dsl.read path source).run
        ⟨(registering "b" node).registry, (registering "b" node).attached, false⟩
      = (.ok (node.withRequired required), ⟨(registering "b" node).registry, true, true⟩) := by
    unfold Dsl.read
    rw [h]
    rfl
  rw [compileText_run, cached?_run_none _ rfl]
  dsimp only
  unfold compileAnew
  rw [bind_run, readText_run, hread]
  rfl

/-- How the fields compile when a name is registered for a tree. -/
theorem compile_obligingFields (node : Node) :
    ((compile (.object obligingFields)).run (registering "b" node)).1 = .ok (obligingTree node) := by
  have hmarked : Dsl.Outline.ofText "b!".toList = .named true ['b'] := by
    rw [Dsl.Outline.ofText]
    rfl
  have hplain : Dsl.Outline.ofText (barred "b").base.toList = .named false ['b'] := by
    rw [Dsl.Outline.ofText]
    rfl
  have hfield : (compileAt "g" (.field (barred "b"))).run (registering "b" node)
      = (.ok ((node.withRequired false).mapFacets (barred "b").extend), registering "b" node) := by
    unfold compileAt
    rw [bind_run, compileText_registered _ _ hplain]
    rfl
  have hrest : (compileFields "" [("g", .field (barred "b"))]).run (registering "b" node)
      = (.ok [("g", (node.withRequired false).mapFacets (barred "b").extend)],
          registering "b" node) := by
    unfold compileFields
    rw [bind_run, show memberPath "" "g" = "g" from rfl, hfield]
    rfl
  have hall : (compileFields "" obligingFields).run (registering "b" node)
      = (.ok [("f", node.withRequired true),
          ("g", (node.withRequired false).mapFacets (barred "b").extend)], registering "b" node) := by
    unfold obligingFields compileFields compileAt
    rw [bind_run, compileText_registered _ _ hmarked]
    dsimp only
    rw [bind_run, hrest]
    rfl
  unfold compile compileAt
  rw [bind_run, hall]
  rfl

/-- A registered string keeps the obligations that are written on it. -/
theorem obligations_hold_on_registered_string :
    (registering "b" (.leaf .string {})).IsFaithful
      ∧ ((compile (.object obligingFields)).run (registering "b" (.leaf .string {}))).1
          = .ok (obligingTree (.leaf .string {}))
      ∧ (obligingTree (.leaf .string {})).DemandsField "f"
      ∧ (obligingTree (.leaf .string {})).DeniesField "g" := by
  have hfaithful : (registering "b" (.leaf .string {})).IsFaithful := fun _ hcache => nomatch hcache
  have hcompile := compile_obligingFields (.leaf .string {})
  have hnone : (registering "b" (.leaf .string {})).YieldsNoBranch := by
    rintro - node ⟨entry, hentry, hprovides⟩
    obtain rfl := List.mem_singleton.1 hentry
    obtain rfl : node = .leaf .string {} := hprovides
    trivial
  have hasks : (Spec.text "b!").AsksForValue := ⟨"b", rfl⟩
  have hobjects : (Spec.field (barred "b")).ObjectsAlways :=
    ⟨_, List.mem_singleton_self _, _, rfl, fun _ => Option.some_ne_none _⟩
  refine ⟨hfaithful, hcompile, ?_, ?_⟩
  · obtain ⟨_, child, -, -, hheld, -, hform⟩ :=
      obligations_hold_unless_branch hfaithful hcompile List.mem_cons_self
    exact (hheld (hform (.inl hasks) hnone)).1 hasks
  · obtain ⟨_, child, -, -, hheld, -, hform⟩ :=
      obligations_hold_unless_branch hfaithful hcompile (List.mem_cons_of_mem _ List.mem_cons_self)
    exact (hheld (hform (.inr hobjects) hnone)).2 hobjects

/-- A registered branch loses both: without a case for the record it selects nothing, and
    the record that lacks the one field and has the other is valid. -/
theorem obligations_lost_on_registered_branch :
    ((compile (.object obligingFields)).run
        (registering "b" (.matching {} "kind" [("a", .leaf .string {})]))).1
      = .ok (obligingTree (.matching {} "kind" [("a", .leaf .string {})]))
      ∧ ((Rules.ofConfig {}).validate (obligingTree (.matching {} "kind" [("a", .leaf .string {})]))
          (.object [("g", .string "x")])).value = .ok ⟨true, []⟩ :=
  ⟨compile_obligingFields _, rfl⟩

end Compiler

end Conform
