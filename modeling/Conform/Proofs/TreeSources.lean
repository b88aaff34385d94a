import Conform.Proofs.Exported
import Conform.Proofs.MadeTrees

/-! # Sources of trees — texts, literals, fields and registered types

    A specification is PLAIN when it is put together from texts, object and array
    literals and fields.  A tree has GROWN when a compiler made it of a plain
    specification, with registered types that have grown themselves.

    Every node of a grown tree can be exported: its checks are lawful, its pattern is
    what its text reads as, and it is no branch (`exportable_of_grown`). -/

namespace Conform

/-! ## Plain specifications, grown trees -/

/-- The specification is made of texts, literals and fields. -/
inductive Spec.IsPlain : Spec → Prop
  | text (source : String) : IsPlain (.text source)
  | object {fields : List (String × Spec)} (hfields : ∀ field ∈ fields, IsPlain field.2) :
      IsPlain (.object fields)
  | array {items : Spec} (hitems : IsPlain items) : IsPlain (.array items)
  | field (field : FieldSpec) : IsPlain (.field field)

/-- The tree was made of a plain specification by a compiler whose registered types
    are such trees.  The compiler may have a cache, in which every text has the tree
    that it denotes. -/
inductive Node.Grown : Node → Prop
  | intro {compiler : Compiler} {spec : Spec} {node : Node} (hfaithful : compiler.IsFaithful)
      (hregistered : compiler.attached = true → ∀ other, compiler.registry.Yields other →
        Grown other)
      (hplain : spec.IsPlain) (h : ((Compiler.compile spec).run compiler).1 = .ok node) :
      Grown node

namespace Node

/-- The node is a leaf, an object, an array or a union. -/
def Branchless : Node → Prop
  | .matching _ _ _ => False
  | .switch _ _ _ _ => False
  | .chain _ _ => False
  | _ => True

/-- The checks of the node have counterparts among the keywords. -/
structure Exportable (node : Node) : Prop where
  lawful : node.facets.Lawful node.base
  read : ∀ pattern ∈ node.facets.pattern, pattern.IsRead
  branchless : node.Branchless

theorem Branchless.mapFacets {node : Node} (f : Facets → Facets) (h : node.Branchless) :
    (node.mapFacets f).Branchless := by
  cases node <;> exact h

theorem exportable_ofType (base : BaseType) : (ofType base).Exportable := by
  cases base <;> exact ⟨Facets.lawful_of_bare rfl rfl, nofun, trivial⟩

/-- A change of other facets than the checks. -/
theorem Exportable.mapFacets {node : Node} (h : node.Exportable) {f : Facets → Facets}
    (hclause : (f node.facets).clause = node.facets.clause)
    (hchoices : (f node.facets).choices = node.facets.choices)
    (hpattern : ∀ pattern ∈ (f node.facets).pattern, pattern.IsRead) :
    (node.mapFacets f).Exportable where
  lawful := by
    rw [facets_mapFacets, base_mapFacets]
    refine ⟨?_, ?_, ?_⟩
    · rw [hclause]
      exact h.lawful.clause
    · rw [hchoices]
      exact h.lawful.choices
    · rw [hchoices]
      exact h.lawful.several
  read := by
    rw [facets_mapFacets]
    exact hpattern
  branchless := h.branchless.mapFacets f

theorem Exportable.withRequired {node : Node} (required : Bool) (h : node.Exportable) :
    (node.withRequired required).Exportable :=
  h.mapFacets rfl rfl h.read

/-- Clauses and choices that a text adds keep a node exportable. -/
theorem Exportable.of_constrain {name body rest : Text.Chars} {node constrained : Node}
    (hnode : node.Exportable) (h : Dsl.constrain name body rest node = .ok constrained) :
    constrained.Exportable where
  lawful := Dsl.lawful_of_constrain hnode.lawful h
  read := by
    rcases Dsl.constrain_eq_ok h with ⟨type, choices, -, -, rfl⟩ | ⟨measure, clause, -, -, rfl⟩
    · rw [facets_mapFacets]
      exact hnode.read
    · rw [facets_mapFacets]
      exact hnode.read
  branchless := by
    rcases Dsl.constrain_eq_ok h with ⟨type, choices, -, -, rfl⟩ | ⟨measure, clause, -, -, rfl⟩
    · exact hnode.branchless.mapFacets _
    · exact hnode.branchless.mapFacets _

end Node

/-! ## What grows can be exported -/

/-- **BEING EXPORTABLE IS INHERITED** through every step of a reading. -/
theorem Dsl.inherited_exportable :
    Dsl.Inherited (Node.Every Node.Exportable) (Node.Every Node.Exportable) where
  builtin base := .of_parts_eq_nil (Node.exportable_ofType base) (Node.children_ofType base)
  named required node h :=
    h.of_children (h.here.withRequired required) (Node.children_withRequired required node)
  bounded required name body rest node constrained hnode h :=
    hnode.of_children ((hnode.here.of_constrain h).withRequired required)
      ((Node.children_withRequired required constrained).trans (Dsl.children_of_constrain h))
  choice required hint body type choices h := by
    obtain ⟨hlength, hall⟩ := Dsl.suits_of_choicesOf (Dsl.ofBase?_primitive type) h
    exact .of_parts_eq_nil ⟨⟨nofun, hall, Or.inr hlength⟩, nofun, trivial⟩ rfl
  array required text clause items h hitems := by
    refine .intro ⟨⟨?_, nofun, Or.inl rfl⟩, nofun, trivial⟩ ?_
    · exact fun _ hmem => ⟨.items, rfl, Dsl.suits_of_arrayClause h _ hmem⟩
    · exact fun node hmem => hitems node (Option.mem_toList.1 hmem)
  union required members _ hmembers :=
    .intro ⟨Facets.lawful_of_bare rfl rfl, nofun, trivial⟩ hmembers

namespace FieldSpec

/-- A pattern is put on a node only after it was read. -/
theorem exportable_of_withPattern {path : String} {pattern : Option String} {node patterned : Node}
    (hnode : node.Every Node.Exportable) (h : withPattern path pattern node = .ok patterned) :
    patterned.Every Node.Exportable := by
  unfold withPattern at h
  split at h
  · obtain rfl := Except.ok.inj h
    exact hnode
  · split at h
    · exact nomatch h
    · split at h
      · exact nomatch h
      · rename_i regex hregex
        obtain rfl := Except.ok.inj h
        refine hnode.of_children (hnode.here.mapFacets rfl rfl ?_) (Node.children_mapFacets _ node)
        rintro _ ⟨⟩
        exact hregex

/-- A pattern that can be read is attached to a node that can have one. -/
theorem withPattern_eq_ok {path source : String} {regex : Regex} {node : Node}
    (hfault : patternFault? node = none) (hread : Regex.ofText? source = some regex) :
    withPattern path (some source) node
      = .ok (node.mapFacets fun facets => { facets with pattern := some ⟨source, regex⟩ }) := by
  simp only [withPattern, hfault, hread]

/-- A field is dressed after its pattern was put on it. -/
theorem dress_eq_ok {path : String} {field : FieldSpec} {node patterned : Node}
    (h : withPattern path field.pattern node = .ok patterned) :
    dress path field node = .ok (patterned.mapFacets field.extend) := by
  unfold dress
  rw [h]
  rfl

/-- Wording and custom checks are no matter of export. -/
theorem exportable_of_dress {path : String} {field : FieldSpec} {node dressed : Node}
    (hnode : node.Every Node.Exportable) (h : dress path field node = .ok dressed) :
    dressed.Every Node.Exportable := by
  cases hw : withPattern path field.pattern node with
  | error error =>
      unfold dress at h
      rw [hw] at h
      exact nomatch h
  | ok patterned =>
      rw [dress_eq_ok hw] at h
      obtain rfl := Except.ok.inj h
      have hall := exportable_of_withPattern hnode hw
      exact hall.of_children (hall.here.mapFacets rfl rfl hall.here.read)
        (Node.children_mapFacets _ _)

end FieldSpec

namespace Compiler

theorem ensures_mk {Q : Node → Prop} {I : Compiler → Prop} {outcome : Except Error Node}
    (h : ∀ node, outcome = .ok node → Q node) :
    Ensures I (ExceptT.mk (pure outcome) : Compiling Node) Q :=
  fun _ hstate => ⟨hstate, h⟩

/-- Fields are compiled one by one. -/
theorem ensures_compileFields {I : Compiler → Prop} {Q : Node → Prop} {path : String}
    {fields : List (String × Spec)}
    (h : ∀ field ∈ fields, ∀ path, Ensures I (compileAt path field.2) Q) :
    Ensures I (compileFields path fields) fun compiled => ∀ field ∈ compiled, Q field.2 := by
  induction fields with
  | nil =>
      unfold compileFields
      exact .pure fun _ hmem => nomatch hmem
  | cons field rest ih =>
      obtain ⟨name, spec⟩ := field
      unfold compileFields
      refine (h _ List.mem_cons_self (memberPath path name)).bind ?_
      intro node hnode
      refine (ih fun other hother => h other (List.mem_cons_of_mem _ hother)).bind ?_
      intro compiled hcompiled
      exact .pure (List.forall_mem_cons.2 ⟨hnode, hcompiled⟩)

/-- **A PLAIN SPECIFICATION MAKES A TREE THAT CAN BE EXPORTED**, if the registered types
    are such trees. -/
theorem ensures_exportable {spec : Spec} (h : spec.IsPlain) :
    ∀ path, Ensures (Serves (Node.Every Node.Exportable)) (compileAt path spec)
      (Node.Every Node.Exportable) := by
  -- by induction on the specification: texts and fields come from the grammar, the rest is put
  -- together here
  induction h with
  | text source =>
      intro path
      unfold compileAt
      exact ensures_compileText Dsl.inherited_exportable path source
  | object hfields ih =>
      intro path
      unfold compileAt
      refine (ensures_compileFields ih).bind ?_
      intro fields hall
      refine .pure (.intro ⟨Facets.lawful_of_bare rfl rfl, nofun, trivial⟩ ?_)
      intro child hmem
      obtain ⟨field, hfield, rfl⟩ := List.mem_map.1 hmem
      exact hall field hfield
  | array hitems ih =>
      intro path
      unfold compileAt
      refine (ih _).bind ?_
      intro items hall
      refine .pure (.intro ⟨Facets.lawful_of_bare rfl rfl, nofun, trivial⟩ ?_)
      intro child hmem
      obtain rfl := List.mem_singleton.1 hmem
      exact hall
  | field field =>
      intro path
      unfold compileAt
      refine (ensures_compileText Dsl.inherited_exportable path field.base).bind ?_
      intro node hnode
      exact ensures_mk fun dressed hdressed => FieldSpec.exportable_of_dress hnode hdressed

end Compiler

/-- **EVERY NODE OF A GROWN TREE CAN BE EXPORTED.** -/
theorem Node.exportable_of_grown {node : Node} (h : node.Grown) : node.Every Node.Exportable := by
  -- what the registry yields has grown before the tree, and can be exported
  induction h with
  | @intro compiler spec node hfaithful hregistered hplain h ih =>
      have hbeside := Compiler.beside_uncached hfaithful
      obtain ⟨hsame, -⟩ := Compiler.transparent_compile spec compiler _ hbeside
      rw [hsame] at h
      have hserves : Compiler.Serves (Node.Every Node.Exportable) compiler.uncached := ⟨rfl, ih⟩
      exact (Compiler.ensures_exportable hplain "" _ hserves).2 node h

/-- What a plain specification compiles to by itself has grown. -/
theorem Node.grown_of_compiled {spec : Spec} {node : Node} (hplain : spec.IsPlain)
    (h : Compiler.compiled spec = .ok node) : node.Grown := by
  have hfaithful : Compiler.IsFaithful {} := fun _ hcache => nomatch hcache
  exact .intro hfaithful (fun hattached => nomatch hattached) hplain h

end Conform
