import Conform.Proofs.Clean
import Conform.Proofs.TreeSources
import Conform.Proofs.CompilingAlone
import Conform.Proofs.Reading

/-! # Exporting — a tree and its JSON Schema side by side

    The walk of a tree and the keywords of its JSON Schema are two readings of one
    tree.  Both go by the form of the node: a leaf by its own checks, an object and an
    array by these and by their parts, a union by one of its members.

    What the tree finds no error in, the schema accepts (`accepts_of_clean`).  What the
    schema accepts, the tree finds no error in, if there are no custom checks and every
    node is exported whole (`clean_of_accepts`). -/

namespace Conform

open Export

namespace Node

/-! ## Schemas of the forms -/

variable {value : Json}

/-- Fields are exported one by one, under their names. -/
theorem schemasByName_eq_map (nodes : List (String × Node)) :
    schemasByName nodes = nodes.map fun entry => (entry.1, entry.2.toJsonSchema) := by
  induction nodes with
  | nil => rfl
  | cons entry rest ih =>
      rw [List.map_cons, ← ih]
      rfl

/-- Members are exported one by one. -/
theorem schemas_eq_map (nodes : List Node) : schemas nodes = nodes.map toJsonSchema := by
  induction nodes with
  | nil => rfl
  | cons node rest ih =>
      rw [List.map_cons, ← ih]
      rfl

theorem accepts_toJsonSchema_leaf (type : Primitive) (facets : Facets) :
    (leaf type facets).toJsonSchema.accepts value = true
      ↔ Allow (own (.primitive type) facets) value :=
  accepts_finish facets _ value

/-- The members of the fields are accepted by the schemas of the fields. -/
theorem propertiesAccept_iff (fields : List (String × Node)) :
    Json.propertiesAccept (.object (schemasByName fields)) value = true
      ↔ ∀ field ∈ fields, ∀ inner, value.member? field.1 = some inner →
          field.2.toJsonSchema.accepts inner = true := by
  show Json.eachAccepts _ _ = true ↔ _
  rw [Json.eachAccepts_eq_all, schemasByName_eq_map, List.all_map, List.all_eq_true]
  refine forall₂_congr fun field _ => ?_
  show ((value.member? field.1).map field.2.toJsonSchema.accepts).getD true = true ↔ _
  cases value.member? field.1 with
  | none => exact ⟨fun _ _ h => (nomatch h), fun _ => rfl⟩
  | some inner => exact ⟨fun h _ heq => Option.some.inj heq ▸ h, fun h => h inner rfl⟩

/-- Objects have the fields that must be present. -/
theorem hasNames_requiredNames_iff (fields : List (String × Node)) (members : Members Json) :
    Json.hasNames (.array (requiredNames fields)) (.object members) = true
      ↔ ∀ field ∈ fields, field.2.facets.required = true →
          Members.hasName members field.1 = true := by
  show (requiredNames fields).all _ = true ↔ _
  unfold requiredNames
  rw [List.all_map, List.all_filter, List.all_eq_true]
  refine forall₂_congr fun field _ => ?_
  show (!field.2.facets.required || Members.hasName members field.1) = true ↔ _
  cases field.2.facets.required with
  | true => exact ⟨fun h _ => h, fun h => h rfl⟩
  | false => exact ⟨fun _ h => (nomatch h), fun _ => rfl⟩

/-- **THE FIELDS OF AN OBJECT ARE ALLOWED** exactly if every member under such a name is accepted
    and every required one is there. -/
theorem allow_fieldKeywords_iff (fields : List (String × Node)) (members : Members Json) :
    Allow (fieldKeywords fields (schemasByName fields)) (.object members)
      ↔ ∀ field ∈ fields,
          (∀ inner, Members.valueOf? members field.1 = some inner →
              field.2.toJsonSchema.accepts inner = true)
            ∧ (field.2.facets.required = true → Members.hasName members field.1 = true) := by
  have hrequired : Allow (if (requiredNames fields).isEmpty = true then []
        else [("required", .array (requiredNames fields))]) (.object members)
      ↔ Json.hasNames (.array (requiredNames fields)) (.object members) = true := by
    by_cases hnone : (requiredNames fields).isEmpty = true
    · rw [if_pos hnone, List.isEmpty_iff.1 hnone]
      exact ⟨fun _ => rfl, fun _ => allow_nil _⟩
    · rw [if_neg hnone, allow_cons, Json.keywordAccepts_required]
      exact ⟨And.left, fun h => ⟨h, allow_nil _⟩⟩
  unfold fieldKeywords
  by_cases hempty : fields.isEmpty = true
  · rw [if_pos hempty, List.isEmpty_iff.1 hempty]
    exact ⟨fun _ _ hmem => (nomatch hmem), fun _ => allow_nil _⟩
  · rw [if_neg hempty, allow_cons, hrequired, Json.keywordAccepts_properties, propertiesAccept_iff,
      hasNames_requiredNames_iff]
    exact ⟨fun h field hmem => ⟨h.1 field hmem, h.2 field hmem⟩,
      fun h => ⟨fun field hmem => (h field hmem).1, fun field hmem => (h field hmem).2⟩⟩

/-- The schema of an object has its own keywords and those of the fields. -/
theorem accepts_toJsonSchema_object (facets : Facets) (fields : List (String × Node)) :
    (object facets fields).toJsonSchema.accepts value = true
      ↔ Allow (own .object facets) value ∧ Allow (fieldKeywords fields (schemasByName fields)) value :=
  (accepts_finish facets _ value).trans allow_append

/-- The schema of an array has its own keywords and one for the items. -/
theorem accepts_toJsonSchema_array (facets : Facets) (items : Node) :
    (array facets (some items)).toJsonSchema.accepts value = true
      ↔ Allow (own .array facets) value
        ∧ Json.eachItem items.toJsonSchema.accepts value = true := by
  refine (accepts_finish facets _ value).trans (allow_append.trans ?_)
  rw [allow_cons, Json.keywordAccepts_items]
  exact ⟨fun h => ⟨h.1, h.2.1⟩, fun h => ⟨h.1, h.2, allow_nil value⟩⟩

/-- The schema of a union asks for some member that accepts the value. -/
theorem accepts_toJsonSchema_union (facets : Facets) (members : List Node) :
    (union facets members).toJsonSchema.accepts value = true
      ↔ ∃ member ∈ members, member.toJsonSchema.accepts value = true := by
  refine (accepts_finish facets _ value).trans ?_
  rw [allow_cons, Json.keywordAccepts_anyOf]
  show Json.someAccepts (schemas members) value = true ∧ _ ↔ _
  rw [Json.someAccepts_eq_any, schemas_eq_map, List.any_map, List.any_eq_true]
  exact ⟨And.left, fun h => ⟨h, allow_nil value⟩⟩

/-! ## What is clean is accepted -/

/-- Only an object has the type of objects. -/
theorem exists_members_of_fits (h : BaseType.object.fits value = true) :
    ∃ members, value = .object members := by
  cases value with
  | object members => exact ⟨members, rfl⟩
  | null => exact nomatch h
  | bool b => exact nomatch h
  | integer n => exact nomatch h
  | float x => exact nomatch h
  | string text => exact nomatch h
  | array items => exact nomatch h

/-- Only an array has the type of arrays. -/
theorem exists_items_of_fits (h : BaseType.array.fits value = true) :
    ∃ items, value = .array items := by
  cases value with
  | array items => exact ⟨items, rfl⟩
  | null => exact nomatch h
  | bool b => exact nomatch h
  | integer n => exact nomatch h
  | float x => exact nomatch h
  | string text => exact nomatch h
  | object members => exact nomatch h

variable {rules : Rules}

/-- A field that may be absent is clean where it is, and one that must be present is not. -/
theorem hasErrors_findings_of_absent {node : Node} (hnode : node.Branchless) {site : Site}
    (hvalue : site.value = none) : hasErrors (rules.findings node site) = node.facets.required := by
  have hsite : ∀ {node : Node} {inside : Json → List Slot},
      hasErrors (rules.siteFindings node inside site) = node.facets.required :=
    Rules.hasErrors_siteFindings_of_absent (present?_eq_none hvalue)
  cases node with
  | leaf type facets => exact hsite
  | object facets fields => exact hsite
  | array facets items => cases items <;> exact hsite
  | union facets members => exact hsite
  | matching facets reference cases => exact hnode.elim
  | switch facets field yes no => exact hnode.elim
  | chain facets body => exact hnode.elim

section

variable {site : Site} (hvalue : site.value = some value) (hdata : value.IsDatum)

include hvalue hdata

theorem findings_leaf_of_datum (type : Primitive) (facets : Facets) :
    rules.findings (.leaf type facets) site
      = rules.valueFindings (.leaf type facets) site.place (fun _ => []) value :=
  Rules.siteFindings_of_present (present?_of_isNull_eq_false hvalue hdata.isNull)

/-- At a datum an object looks at the value, the fields and unknown members. -/
theorem findings_object_of_datum (facets : Facets) (fields : List (String × Node)) :
    rules.findings (.object facets fields) site
      = rules.valueFindings (.object facets fields) site.place
          (fun value => rules.fieldFindings fields value site.place
            ++ rules.unknownFindings fields (Rules.membersOf value) site.place) value :=
  Rules.siteFindings_of_present (present?_of_isNull_eq_false hvalue hdata.isNull)

theorem findings_bareArray_of_datum (facets : Facets) :
    rules.findings (.array facets none) site
      = rules.valueFindings (.array facets none) site.place (fun _ => []) value :=
  Rules.siteFindings_of_present (present?_of_isNull_eq_false hvalue hdata.isNull)

theorem findings_array_of_datum (facets : Facets) (items : Node) :
    rules.findings (.array facets (some items)) site
      = rules.valueFindings (.array facets (some items)) site.place
          (fun value => Rules.itemFindings (rules.findings items) site.record site.place 0
            (Rules.itemsOf value)) value :=
  Rules.siteFindings_of_present (present?_of_isNull_eq_false hvalue hdata.isNull)

end

/-- A value in which a node finds no error keeps the node's own checks, and so is accepted
    by the node's own keywords. -/
theorem allow_own_of_clean {node : Node} (hnode : node.Exportable) {place : Place}
    {parts : Json → List Slot} (hdata : value.IsDatum)
    (h : hasErrors (rules.valueFindings node place parts value) = false) :
    Allow (own node.base node.facets) value := by
  obtain ⟨⟨hfits, hown⟩, -, -⟩ := Rules.hasErrors_valueFindings_eq_false_iff.1 h
  exact allow_own hnode.lawful hnode.read hdata hfits ((Node.ownFaults_eq_nil_iff node value).1 hown)

/-- **WHAT A TREE FINDS NO ERROR IN, ITS SCHEMA ACCEPTS.** -/
theorem accepts_of_clean (node : Node) :
    node.Every Exportable → ∀ (site : Site) (value : Json), site.value = some value →
      value.Every Json.IsDatum → hasErrors (rules.findings node site) = false →
      node.toJsonSchema.accepts value = true := by
  induction node using Node.induction with
  | leaf type facets =>
      intro hnode site value hvalue hdata hclean
      rw [findings_leaf_of_datum hvalue hdata.here] at hclean
      rw [accepts_toJsonSchema_leaf]
      exact allow_own_of_clean hnode.here hdata.here hclean
  | object facets fields ih =>
      intro hnode site value hvalue hdata hclean
      rw [findings_object_of_datum hvalue hdata.here] at hclean
      obtain ⟨⟨hfits, -⟩, hparts, -⟩ := Rules.hasErrors_valueFindings_eq_false_iff.1 hclean
      rw [hasErrors_append, Bool.or_eq_false_iff, Rules.hasErrors_fieldFindings_eq_false_iff] at hparts
      obtain ⟨members, rfl⟩ := exists_members_of_fits hfits
      rw [accepts_toJsonSchema_object, allow_fieldKeywords_iff]
      refine ⟨allow_own_of_clean hnode.here hdata.here hclean, ?_⟩
      intro field hmem
      have hfield : field.2.Every Exportable := hnode.inside (List.mem_map_of_mem hmem)
      refine ⟨?_, ?_⟩
      · intro inner hinner
        have hmember : (Json.object members).member? field.1 = some inner := hinner
        have hchild := hdata.inside (Json.mem_children_of_member? hmember)
        exact ih field hmem hfield _ inner hinner hchild (hparts.1 field hmem)
      · intro hrequired
        -- an absent field would be an error
        unfold Members.hasName
        cases hinner : Members.valueOf? members field.1 with
        | some inner => rfl
        | none =>
            have hclean := hparts.1 field hmem
            rw [hasErrors_findings_of_absent hfield.here.branchless hinner, hrequired] at hclean
            exact nomatch hclean
  | array facets items ih =>
      intro hnode site value hvalue hdata hclean
      cases items with
      | none =>
          rw [findings_bareArray_of_datum hvalue hdata.here] at hclean
          exact (accepts_finish facets _ value).2 (allow_own_of_clean hnode.here hdata.here hclean)
      | some items =>
          rw [findings_array_of_datum hvalue hdata.here] at hclean
          obtain ⟨⟨hfits, -⟩, hparts, -⟩ := Rules.hasErrors_valueFindings_eq_false_iff.1 hclean
          rw [Rules.hasErrors_itemFindings_eq_false_iff] at hparts
          obtain ⟨elements, rfl⟩ := exists_items_of_fits hfits
          rw [accepts_toJsonSchema_array]
          refine ⟨allow_own_of_clean hnode.here hdata.here hclean, ?_⟩
          refine List.all_eq_true.2 ?_
          intro element hmem
          obtain ⟨position, hposition⟩ := List.mem_iff_getElem?.1 hmem
          exact ih items rfl (hnode.inside List.mem_cons_self) _ element rfl (hdata.inside hmem)
            (hparts (element, position) (List.mk_mem_zipIdx_iff_getElem?.2 hposition))
  | union facets members ih =>
      intro hnode site value hvalue hdata hclean
      have hpresent : (Node.union facets members).present? site = some value :=
        present?_of_isNull_eq_false hvalue hdata.here.isNull
      rw [Rules.findings_union_of_present hpresent, Rules.hasErrors_trialFindings_eq_false_iff]
        at hclean
      -- the member that finds no error is enough, and custom checks only refuse more
      obtain ⟨⟨member, hmem, hmember⟩, -⟩ := hclean
      rw [accepts_toJsonSchema_union]
      exact ⟨member, hmem, ih member hmem (hnode.inside hmem) site value hvalue hdata hmember⟩
  | matching facets reference cases ih => exact fun hnode => hnode.here.branchless.elim
  | switch facets field yes no ihyes ihno => exact fun hnode => hnode.here.branchless.elim
  | chain facets body ih => exact fun hnode => hnode.here.branchless.elim

/-! ## What is accepted is clean -/

/-- The node has no custom checks, and none of its own checks is lost among the
    keywords. -/
structure ExportedWhole (node : Node) : Prop where
  customs : node.facets.customs = []
  facets : node.facets.ExportedWhole node.base

/-- A value that is accepted by a node's own keywords is clean, if its parts are. -/
theorem clean_of_allow_own {node : Node} (hnode : node.Exportable) (hwhole : node.ExportedWhole)
    {place : Place} {parts : Json → List Slot} (hdata : value.IsDatum) (hmodest : value.IsModest)
    (h : Allow (own node.base node.facets) value)
    (hparts : node.base.fits value = true → hasErrors (parts value) = false) :
    hasErrors (rules.valueFindings node place parts value) = false := by
  obtain ⟨hfits, hkept⟩ :=
    kept_of_allow_own hnode.lawful hnode.read hwhole.facets hdata hmodest h
  exact Rules.hasErrors_valueFindings_eq_false_iff.2
    ⟨⟨hfits, (Node.ownFaults_eq_nil_iff node value).2 hkept⟩, hparts hfits,
      Rules.hasErrors_allCustomFindings_of_nil hwhole.customs place value⟩

/-- **WHAT THE SCHEMA OF A TREE ACCEPTS, THE TREE FINDS NO ERROR IN**, if it is exported
    whole. -/
theorem clean_of_accepts (hallow : rules.config.allowUnknownFields = true) (node : Node) :
    node.Every Exportable → node.Every ExportedWhole →
      ∀ (site : Site) (value : Json), site.value = some value →
        value.Every Json.IsDatum → value.Every Json.IsModest →
        node.toJsonSchema.accepts value = true → hasErrors (rules.findings node site) = false := by
  induction node using Node.induction with
  | leaf type facets =>
      intro hnode hwhole site value hvalue hdata hmodest haccepts
      rw [accepts_toJsonSchema_leaf] at haccepts
      rw [findings_leaf_of_datum hvalue hdata.here]
      exact clean_of_allow_own hnode.here hwhole.here hdata.here hmodest.here haccepts fun _ => rfl
  | object facets fields ih =>
      intro hnode hwhole site value hvalue hdata hmodest haccepts
      rw [accepts_toJsonSchema_object] at haccepts
      obtain ⟨hown, hfields⟩ := haccepts
      rw [findings_object_of_datum hvalue hdata.here]
      refine clean_of_allow_own hnode.here hwhole.here hdata.here hmodest.here hown ?_
      intro hfits
      obtain ⟨members, rfl⟩ := exists_members_of_fits hfits
      rw [allow_fieldKeywords_iff] at hfields
      rw [hasErrors_append, Rules.hasErrors_unknownFindings_eq_false_iff.2 (.inl hallow),
        Bool.or_false, Rules.hasErrors_fieldFindings_eq_false_iff]
      intro field hmem
      have hfield : field.2.Every Exportable := hnode.inside (List.mem_map_of_mem hmem)
      obtain ⟨hpresent, hrequired⟩ := hfields field hmem
      cases hinner : (Json.object members).member? field.1 with
      | some inner =>
          have hchild := Json.mem_children_of_member? hinner
          exact ih field hmem hfield (hwhole.inside (List.mem_map_of_mem hmem)) _ inner rfl
            (hdata.inside hchild) (hmodest.inside hchild) (hpresent inner hinner)
      | none =>
          -- the keyword would not accept an object without a field that must be there
          rw [hasErrors_findings_of_absent hfield.here.branchless rfl]
          refine Bool.eq_false_iff.2 ?_
          intro hmust
          have hname := hrequired hmust
          unfold Members.hasName at hname
          change Members.valueOf? members field.1 = none at hinner
          rw [hinner] at hname
          exact nomatch hname
  | array facets items ih =>
      intro hnode hwhole site value hvalue hdata hmodest haccepts
      cases items with
      | none =>
          have hown := (accepts_finish facets _ value).1 haccepts
          rw [findings_bareArray_of_datum hvalue hdata.here]
          exact clean_of_allow_own hnode.here hwhole.here hdata.here hmodest.here hown fun _ => rfl
      | some items =>
          rw [accepts_toJsonSchema_array] at haccepts
          obtain ⟨hown, hitems⟩ := haccepts
          rw [findings_array_of_datum hvalue hdata.here]
          refine clean_of_allow_own hnode.here hwhole.here hdata.here hmodest.here hown ?_
          intro hfits
          obtain ⟨elements, rfl⟩ := exists_items_of_fits hfits
          rw [Rules.hasErrors_itemFindings_eq_false_iff]
          rintro ⟨element, position⟩ hposition
          have hmem := List.fst_mem_of_mem_zipIdx hposition
          exact ih items rfl (hnode.inside List.mem_cons_self) (hwhole.inside List.mem_cons_self) _
            element rfl (hdata.inside hmem) (hmodest.inside hmem)
            (List.all_eq_true.1 hitems element hmem)
  | union facets members ih =>
      intro hnode hwhole site value hvalue hdata hmodest haccepts
      rw [accepts_toJsonSchema_union] at haccepts
      obtain ⟨member, hmem, hmember⟩ := haccepts
      have hpresent : (Node.union facets members).present? site = some value :=
        present?_of_isNull_eq_false hvalue hdata.here.isNull
      rw [Rules.findings_union_of_present hpresent, Rules.hasErrors_trialFindings_eq_false_iff]
      exact ⟨⟨member, hmem, ih member hmem (hnode.inside hmem) (hwhole.inside hmem) site value
        hvalue hdata hmodest hmember⟩,
        Rules.hasErrors_allCustomFindings_of_nil hwhole.here.customs site.place value⟩
  | matching facets reference cases ih => exact fun hnode => hnode.here.branchless.elim
  | switch facets field yes no ihyes ihno => exact fun hnode => hnode.here.branchless.elim
  | chain facets body ih => exact fun hnode => hnode.here.branchless.elim

end Node

/-! ## Checking against the tree and against its schema -/

namespace Node

theorem isSuspended_of_whole {node : Node} (h : node.ExportedWhole) : node.isSuspended = false := by
  unfold isSuspended
  rw [h.customs]
  rfl

/-- A tree without custom checks has no suspended ones. -/
theorem firstSuspended?_eq_none {node : Node} (h : node.Every ExportedWhole) (place : Place) :
    node.firstSuspended? place = none :=
  (firstSuspended?_eq_none_iff place node).2 (h.mono fun _ => isSuspended_of_whole)

end Node

/-- **THE SCHEMA OF A TREE REJECTS NOTHING THAT THE TREE ACCEPTS**: a value without null
    that is valid for a tree which has grown is accepted by its JSON Schema. -/
theorem Schema.accepts_of_check {node : Node} (hgrown : node.Grown) {value : Json}
    (hdata : value.Every Json.IsDatum)
    (h : (Schema.check ⟨node, {}, none⟩ value).value = true) :
    node.toJsonSchema.accepts value = true := by
  obtain ⟨-, hclean⟩ := (Schema.value_check_eq_true_iff _ value).1 h
  exact node.accepts_of_clean (Node.exportable_of_grown hgrown) (.root value) value rfl hdata hclean

/-- What is written as a phrase denotes the tree of the phrase. -/
theorem Dsl.Phrase.denotesAlone_of_text (phrase : Dsl.Phrase) (h : phrase.WellFormed)
    {source : String} (hsource : source.toList = phrase.text) :
    Dsl.DenotesAlone source phrase.node := by
  rw [← String.ofList_toList (s := source), hsource]
  exact phrase.denotesAlone h

/-- A record with a field that has a pattern of its own, and an array. -/
def recordSpec : Spec :=
  .object [("code", .field { base := "string!", pattern := some "^a" }), ("counts", .array (.text "integer"))]

/-- The pattern of the record's first field. -/
def initialPattern : Pattern := ⟨"^a", .seq (.anchor .textStart) (.chars (.single 'a'))⟩

theorem isRead_initialPattern : initialPattern.IsRead := by
  unfold Pattern.IsRead initialPattern
  rfl

/-- The tree of the record. -/
def recordTree : Node :=
  .object {}
    [("code", .leaf .string { required := true, pattern := some initialPattern }),
      ("counts", .array {} (some (.leaf .integer {})))]

theorem compiled_recordSpec : Compiler.compiled recordSpec = .ok recordTree := by
  have hcode : Dsl.DenotesAlone "string!" (.leaf .string { required := true }) :=
    Dsl.Phrase.denotesAlone_of_text
      (.named true ⟨"string", .primitive .string, by decide⟩) nofun rfl
  have hcount : Dsl.DenotesAlone "integer" (.leaf .integer {}) :=
    Dsl.Phrase.denotesAlone_of_text
      (.named false ⟨"integer", .primitive .integer, by decide⟩) nofun rfl
  have hread : Regex.ofText? "^a" = some initialPattern.regex := isRead_initialPattern
  have hpattern : FieldSpec.withPattern "code" (some "^a") (.leaf .string { required := true })
      = .ok (.leaf .string { required := true, pattern := some initialPattern }) :=
    FieldSpec.withPattern_eq_ok rfl hread
  have hfield : Compiler.Makes
      (Compiler.compileAt "code" (.field { base := "string!", pattern := some "^a" }))
      (.leaf .string { required := true, pattern := some initialPattern }) := by
    refine Compiler.makes_field hcode ?_
    rw [FieldSpec.dress_eq_ok hpattern]
    rfl
  refine Compiler.Makes.compiled_eq (Compiler.Makes.bind ?_ (Compiler.makes_pure _))
  refine hfield.bind (Compiler.Makes.bind ?_ (Compiler.makes_pure _))
  refine Compiler.Makes.bind ?_ (Compiler.makes_pure _)
  exact (Compiler.makes_compileText "counts[]" hcount).bind (Compiler.makes_pure _)

theorem grown_recordTree : recordTree.Grown := by
  refine Node.grown_of_compiled (.object ?_) compiled_recordSpec
  intro field hmem
  rcases List.mem_cons.1 hmem with rfl | hmem
  · exact .field _
  · obtain rfl := List.mem_singleton.1 hmem
    exact .array (.text "integer")

/-- A record of the kind. -/
def recordValue : Json := .object [("code", .string "ab"), ("counts", .array [.integer 3])]

theorem isDatum_recordValue : recordValue.Every Json.IsDatum := by
  have hcode : (Json.string "ab").Every Json.IsDatum := .of_parts_eq_nil trivial rfl
  have hcount : (Json.integer 3).Every Json.IsDatum := .of_parts_eq_nil ⟨by decide, by decide⟩ rfl
  have hcounts : (Json.array [.integer 3]).Every Json.IsDatum :=
    .intro trivial (List.forall_mem_singleton.2 hcount)
  exact .intro trivial (List.forall_mem_cons.2 ⟨hcode, List.forall_mem_singleton.2 hcounts⟩)

theorem accepts_recordValue :
    recordTree.Grown ∧ recordValue.Every Json.IsDatum
      ∧ (Schema.check ⟨recordTree, {}, none⟩ recordValue).value = true
      ∧ recordTree.toJsonSchema.accepts recordValue = true := by
  have hcheck : (Schema.check ⟨recordTree, {}, none⟩ recordValue).value = true := by decide +kernel
  exact ⟨grown_recordTree, isDatum_recordValue, hcheck,
    Schema.accepts_of_check grown_recordTree isDatum_recordValue hcheck⟩

/-- **THE SCHEMA OF A TREE LOSES NO CONSTRAINT** if the tree is exported whole: without
    custom checks, with ends of clauses that are no infinities, and with patterns only
    where the type is exported without one.  Then modest data without null is valid as
    soon as the JSON Schema accepts it. -/
theorem Schema.check_of_accepts {node : Node} (hgrown : node.Grown)
    (hwhole : node.Every Node.ExportedWhole) {value : Json} (hdata : value.Every Json.IsDatum)
    (hmodest : value.Every Json.IsModest) (h : node.toJsonSchema.accepts value = true) :
    (Schema.check ⟨node, {}, none⟩ value).value = true := by
  have hnode := Node.exportable_of_grown hgrown
  rw [Schema.value_check_eq_true_iff]
  exact ⟨Node.firstSuspended?_eq_none hwhole .root,
    node.clean_of_accepts rfl hnode hwhole (.root value) value rfl hdata hmodest h⟩

theorem exportedWhole_recordTree : recordTree.Every Node.ExportedWhole := by
  have hcode : (Node.leaf .string { required := true, pattern := some initialPattern }).Every
      Node.ExportedWhole :=
    .of_parts_eq_nil ⟨rfl, nofun, Or.inr rfl⟩ rfl
  have hcount : (Node.leaf .integer {}).Every Node.ExportedWhole :=
    .of_parts_eq_nil ⟨rfl, nofun, Or.inl rfl⟩ rfl
  have hcounts : (Node.array {} (some (.leaf .integer {}))).Every Node.ExportedWhole :=
    .intro ⟨rfl, nofun, Or.inl rfl⟩ (List.forall_mem_singleton.2 hcount)
  exact .intro ⟨rfl, nofun, Or.inl rfl⟩
    (List.forall_mem_cons.2 ⟨hcode, List.forall_mem_singleton.2 hcounts⟩)

theorem isModest_recordValue : recordValue.Every Json.IsModest := by
  have hcode : (Json.string "ab").Every Json.IsModest := .of_parts_eq_nil (by decide) rfl
  have hcount : (Json.integer 3).Every Json.IsModest := .of_parts_eq_nil trivial rfl
  have hcounts : (Json.array [.integer 3]).Every Json.IsModest :=
    .intro (by decide) (List.forall_mem_singleton.2 hcount)
  exact .intro (by decide) (List.forall_mem_cons.2 ⟨hcode, List.forall_mem_singleton.2 hcounts⟩)

theorem check_recordValue :
    recordTree.Grown ∧ recordTree.Every Node.ExportedWhole ∧ recordValue.Every Json.IsDatum
      ∧ recordValue.Every Json.IsModest ∧ recordTree.toJsonSchema.accepts recordValue = true
      ∧ (Schema.check ⟨recordTree, {}, none⟩ recordValue).value = true := by
  have haccepts : recordTree.toJsonSchema.accepts recordValue = true := by decide +kernel
  exact ⟨grown_recordTree, exportedWhole_recordTree, isDatum_recordValue, isModest_recordValue,
    haccepts, Schema.check_of_accepts grown_recordTree exportedWhole_recordTree isDatum_recordValue
      isModest_recordValue haccepts⟩

/-- A pattern on a format that is exported as a pattern takes its place: the format is
    lost. -/
theorem format_lost_to_pattern :
    let tree : Node := .leaf (.format .slug) { pattern := some initialPattern }
    Compiler.compiled (.field { base := "slug", pattern := some "^a" }) = .ok tree ∧ tree.Grown
      ∧ tree.facets.customs = [] ∧ (Json.string "a B").Every Json.IsDatum
      ∧ (Json.string "a B").Every Json.IsModest ∧ tree.toJsonSchema.accepts (.string "a B") = true
      ∧ (Schema.check ⟨tree, {}, none⟩ (.string "a B")).value = false := by
  intro tree
  have hslug : Dsl.DenotesAlone "slug" (.leaf (.format .slug) {}) :=
    Dsl.Phrase.denotesAlone_of_text
      (.named false ⟨"slug", .primitive (.format .slug), by decide⟩) nofun rfl
  have hread : Regex.ofText? "^a" = some initialPattern.regex := isRead_initialPattern
  have hpattern : FieldSpec.withPattern "" (some "^a") (.leaf (.format .slug) {}) = .ok tree :=
    FieldSpec.withPattern_eq_ok rfl hread
  have hcompiled : Compiler.compiled (.field { base := "slug", pattern := some "^a" }) = .ok tree := by
    refine Compiler.Makes.compiled_eq (Compiler.makes_field hslug ?_)
    rw [FieldSpec.dress_eq_ok hpattern]
    rfl
  exact ⟨hcompiled, Node.grown_of_compiled (.field _) hcompiled, rfl, .of_parts_eq_nil trivial rfl,
    .of_parts_eq_nil (by decide) rfl, by decide +kernel, by decide +kernel⟩

end Conform
