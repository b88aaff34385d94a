import Conform.Proofs.Overriding

/-! # Unworded trees — trees that have no messages of their own

    A specification is UNWORDED when no field of it has messages of its own and there is no
    ready tree in it.  A tree is STOCK when a compiler made it of an unworded specification,
    with registered types that are stock themselves.

    What holds of every node without facets, and of the trees of texts and fields, holds of
    every compiled tree (`ensures_throughout`).  So no node of a stock tree has messages of
    its own, and its checks are lawful (`unworded_of_stock`). -/

namespace Conform

/-! ## Compiling, node by node -/

namespace Compiler

section

variable {I : Compiler → Prop} {Q : Node → Prop}

/-- Cases are compiled one by one, while their keys are not taken. -/
theorem ensures_compileCases {path : String} {cases : List (String × Spec)}
    (h : ∀ spec ∈ cases.map Prod.snd, ∀ path, Ensures I (compileAt path spec) Q) :
    ∀ seen, Ensures I (compileCases path seen cases) fun compiled =>
      ∀ node ∈ compiled.map Prod.snd, Q node := by
  induction cases with
  | nil =>
      intro seen
      rw [compileCases]
      exact .pure (List.forall_mem_nil _)
  | cons case rest ih =>
      intro seen
      obtain ⟨key, spec⟩ := case
      rw [List.map_cons, List.forall_mem_cons] at h
      rw [compileCases]
      refine (h.1 _).bind fun node hnode => ?_
      have hrest : Ensures I
          (compileCases path (key :: seen) rest >>= fun nodes => pure ((key, node) :: nodes))
          fun compiled => ∀ node ∈ compiled.map Prod.snd, Q node :=
        (ih h.2 (key :: seen)).bind fun nodes hnodes => .pure (List.forall_mem_cons.2 ⟨hnode, hnodes⟩)
      by_cases htaken : seen.contains key = true
      · rw [if_pos htaken]
        exact (Ensures.throw (Q := fun _ => False) _).bind fun _ h => h.elim
      · rw [if_neg htaken]
        exact hrest

/-- An optional target has the property if it is there. -/
theorem ensures_compileTarget {path : String} {target : Option Spec}
    (h : ∀ spec ∈ target, ∀ path, Ensures I (compileAt path spec) Q) :
    Ensures I (compileTarget path target) fun compiled => ∀ node ∈ compiled, Q node := by
  cases target with
  | none =>
      rw [compileTarget]
      exact .pure fun node hnode => absurd hnode (Option.not_mem_none node)
  | some spec =>
      rw [compileTarget]
      refine (h spec rfl path).bind fun node hnode => .pure ?_
      rintro _ ⟨rfl⟩
      exact hnode

/-- Entries are compiled one by one. -/
theorem ensures_compileEntries {path : String} {entries : List (Chain.Entry Spec)}
    (h : ∀ entry ∈ entries, ∀ spec ∈ entry.target, ∀ path, Ensures I (compileAt path spec) Q) :
    Ensures I (compileEntries path entries) fun compiled =>
      ∀ entry ∈ compiled, ∀ node ∈ entry.target, Q node := by
  induction entries with
  | nil =>
      rw [compileEntries]
      exact .pure (List.forall_mem_nil _)
  | cons entry rest ih =>
      obtain ⟨kind, conditions, target, message, throws⟩ := entry
      rw [List.forall_mem_cons] at h
      rw [compileEntries]
      refine (ensures_compileTarget h.1).bind fun node hnode => ?_
      exact (ih h.2).bind fun compiled hcompiled => .pure (List.forall_mem_cons.2 ⟨hnode, hcompiled⟩)

/-- A fallback has the property in its target. -/
theorem ensures_compileFallback {path : String} {fallback : Chain.Fallback Spec}
    (h : ∀ spec, fallback = .target spec → ∀ path, Ensures I (compileAt path spec) Q) :
    Ensures I (compileFallback path fallback) fun compiled =>
      ∀ node, compiled = .target node → Q node := by
  cases fallback with
  | undefined =>
      rw [compileFallback]
      exact .pure fun _ h => by cases h
  | nothing =>
      rw [compileFallback]
      exact .pure fun _ h => by cases h
  | target spec =>
      rw [compileFallback]
      refine (h spec rfl path).bind fun node hnode => .pure ?_
      rintro _ ⟨rfl⟩
      exact hnode

/-- The targets of a compiled chain. -/
theorem forall_mem_targets {chain : Chain Node}
    (hentries : ∀ entry ∈ chain.entries, ∀ node ∈ entry.target, Q node)
    (hfallback : ∀ node, chain.fallback = .target node → Q node) : ∀ node ∈ chain.targets, Q node := by
  obtain ⟨entries, fallback⟩ := chain
  refine List.forall_mem_append.2 ⟨fun node hmem => ?_, fun node hmem => ?_⟩
  · obtain ⟨entry, hentry, htarget⟩ := List.mem_filterMap.1 hmem
    exact hentries entry hentry node htarget
  · cases fallback with
    | undefined => exact nomatch hmem
    | nothing => exact nomatch hmem
    | target only =>
        obtain rfl := List.mem_singleton.1 hmem
        exact hfallback node rfl

end

/-- What is asked of the parts of a specification whose nodes do not come from other parts:
    texts and fields make trees with the property, and ready trees have it. -/
def Leaf (I : Compiler → Prop) (P : Node → Prop) : Spec → Prop
  | .text source => ∀ path, Ensures I (compileAt path (.text source)) (Node.Every P)
  | .field field => ∀ path, Ensures I (compileAt path (.field field)) (Node.Every P)
  | .node node => node.Every P
  | _ => True

/-- **WHAT HOLDS OF BARE NODES AND OF TEXTS** holds of every compiled tree. -/
theorem ensures_throughout {I : Compiler → Prop} {P : Node → Prop}
    (hbare : ∀ node : Node, node.facets = {} → P node)
    (hreference : ∀ path reference, Ensures I (checkReference path reference) fun _ => True)
    {spec : Spec} (h : Throughout Spec.parts (Leaf I P) spec) :
    ∀ path, Ensures I (compileAt path spec) (Node.Every P) := by
  -- a node that is made here has no facets, so only its children are left to show
  have hmade {node : Node} (hfacets : node.facets = {})
      (hchildren : ∀ child ∈ node.children, child.Every P) : node.Every P :=
    .intro (hbare node hfacets) hchildren
  induction h with
  | @intro spec hleaf hparts ih =>
      intro path
      cases spec with
      | text source => exact hleaf path
      | field field => exact hleaf path
      | node node =>
          rw [compileAt]
          exact .pure hleaf
      | object fields =>
          rw [compileAt]
          have hfields : ∀ field ∈ fields, ∀ path, Ensures I (compileAt path field.2) (Node.Every P) :=
            fun field hmem => ih field.2 (List.mem_map_of_mem hmem)
          refine (ensures_compileFields hfields).bind fun compiled hall => .pure (hmade rfl ?_)
          exact List.forall_mem_map.2 hall
      | array items =>
          rw [compileAt]
          refine (ih items List.mem_cons_self _).bind fun node hnode => .pure (hmade rfl ?_)
          exact List.forall_mem_singleton.2 hnode
      | matching reference cases =>
          rw [compileAt]
          refine (hreference path reference).bind fun _ _ => ?_
          exact (ensures_compileCases ih []).bind fun compiled hall => .pure (hmade rfl hall)
      | switch field yes no =>
          cases no with
          | none =>
              rw [compileAt]
              refine (hreference path field).bind fun _ _ => ?_
              refine (ih yes List.mem_cons_self path).bind fun node hnode => .pure (hmade rfl ?_)
              exact List.forall_mem_singleton.2 hnode
          | some no =>
              rw [compileAt]
              refine (hreference path field).bind fun _ _ => ?_
              refine (ih yes List.mem_cons_self path).bind fun first hfirst => ?_
              refine (ih no (List.mem_cons_of_mem yes List.mem_cons_self) path).bind
                fun second hsecond => .pure (hmade rfl ?_)
              exact List.forall_mem_cons.2 ⟨hfirst, List.forall_mem_singleton.2 hsecond⟩
      | chain body =>
          cases body with
          | error fault =>
              rw [compileAt]
              exact .throw _
          | ok body =>
              obtain ⟨entries, fallback⟩ := body
              rw [compileAt]
              have hentries : ∀ entry ∈ entries, ∀ spec ∈ entry.target, ∀ path,
                  Ensures I (compileAt path spec) (Node.Every P) :=
                fun entry hentry spec hspec =>
                  ih spec (List.mem_append_left _ (List.mem_filterMap.2 ⟨entry, hentry, hspec⟩))
              have hfallback : ∀ spec, fallback = .target spec → ∀ path,
                  Ensures I (compileAt path spec) (Node.Every P) := by
                rintro spec rfl
                exact ih spec (List.mem_append_right _ (List.mem_singleton_self spec))
              refine (ensures_compileEntries hentries).bind fun compiled hall => ?_
              refine (ensures_compileFallback hfallback).bind fun last hlast => .pure (hmade rfl ?_)
              exact forall_mem_targets hall hlast
      | unsupported value =>
          rw [compileAt]
          exact .throw _

end Compiler

/-! ## Nodes without messages -/

/-- No field in the specification has messages, and there is no ready tree in it. -/
def Spec.IsUnworded (spec : Spec) : Prop :=
  Throughout Spec.parts (fun part =>
    (∀ node, part ≠ .node node) ∧ ∀ field, part = .field field → field.messages = []) spec

/-- The node has no messages of its own, and its checks are lawful. -/
structure Node.Unworded (node : Node) : Prop where
  messages : node.facets.messages = []
  lawful : node.facets.Lawful node.base

namespace Node

/-- A node without facets words nothing. -/
theorem unworded_of_bare {node : Node} (h : node.facets = {}) : node.Unworded where
  messages := by rw [h]
  lawful := by
    rw [h]
    exact Facets.lawful_of_bare rfl rfl

/-- A change of other facets than these. -/
theorem Unworded.mapFacets {node : Node} (h : node.Unworded) {f : Facets → Facets}
    (hclause : (f node.facets).clause = node.facets.clause)
    (hchoices : (f node.facets).choices = node.facets.choices)
    (hmessages : (f node.facets).messages = []) : (node.mapFacets f).Unworded where
  messages := by rw [facets_mapFacets, hmessages]
  lawful := by
    rw [facets_mapFacets, base_mapFacets]
    refine ⟨?_, ?_, ?_⟩
    · rw [hclause]
      exact h.lawful.clause
    · rw [hchoices]
      exact h.lawful.choices
    · rw [hchoices]
      exact h.lawful.several

theorem Unworded.withRequired {node : Node} (required : Bool) (h : node.Unworded) :
    (node.withRequired required).Unworded :=
  h.mapFacets rfl rfl h.messages

/-- A clause or choices word nothing. -/
theorem Unworded.of_constrain {name body rest : Text.Chars} {node constrained : Node}
    (hnode : node.Unworded) (h : Dsl.constrain name body rest node = .ok constrained) :
    constrained.Unworded where
  lawful := Dsl.lawful_of_constrain hnode.lawful h
  messages := by
    rcases Dsl.constrain_eq_ok h with ⟨type, choices, -, -, rfl⟩ | ⟨measure, clause, -, -, rfl⟩
    · rw [facets_mapFacets]
      exact hnode.messages
    · rw [facets_mapFacets]
      exact hnode.messages

end Node

/-- **BEING UNWORDED IS INHERITED** through every step of a reading. -/
theorem Dsl.inherited_unworded :
    Dsl.Inherited (Node.Every Node.Unworded) (Node.Every Node.Unworded) where
  builtin base :=
    .of_parts_eq_nil (Node.unworded_of_bare (Node.facets_ofType base)) (Node.children_ofType base)
  named required node h :=
    h.of_children (h.here.withRequired required) (Node.children_withRequired required node)
  bounded required name body rest node constrained hnode h :=
    hnode.of_children ((hnode.here.of_constrain h).withRequired required)
      ((Node.children_withRequired required constrained).trans (Dsl.children_of_constrain h))
  choice required hint body type choices h := by
    obtain ⟨hlength, hall⟩ := Dsl.suits_of_choicesOf (Dsl.ofBase?_primitive type) h
    exact .of_parts_eq_nil ⟨rfl, nofun, hall, Or.inr hlength⟩ rfl
  array required text clause items h hitems := by
    refine .intro ⟨rfl, ?_, nofun, Or.inl rfl⟩ fun node hmem => hitems node (Option.mem_toList.1 hmem)
    exact fun _ hmem => ⟨.items, rfl, Dsl.suits_of_arrayClause h _ hmem⟩
  union required members _ hmembers := .intro ⟨rfl, Facets.lawful_of_bare rfl rfl⟩ hmembers

/-- A field without messages adds none. -/
theorem FieldSpec.unworded_of_dress {path : String} {field : FieldSpec} {node dressed : Node}
    (hfield : field.messages = []) (hnode : node.Every Node.Unworded)
    (h : field.dress path node = .ok dressed) : dressed.Every Node.Unworded := by
  obtain ⟨-, -, hchildren⟩ := dress_checks h
  cases hpattern : withPattern path field.pattern node with
  | error error =>
      rw [dress, hpattern] at h
      cases h
  | ok patterned =>
      rw [dress_eq_ok hpattern] at h
      obtain rfl := Except.ok.inj h
      have hpatterned : patterned.Unworded := by
        rw [withPattern.eq_def] at hpattern
        split at hpattern
        · obtain rfl := Except.ok.inj hpattern
          exact hnode.here
        · split at hpattern
          · cases hpattern
          · split at hpattern
            · cases hpattern
            · obtain rfl := Except.ok.inj hpattern
              exact hnode.here.mapFacets rfl rfl hnode.here.messages
      refine hnode.of_children (hpatterned.mapFacets rfl rfl ?_) hchildren
      show Members.merge patterned.facets.messages field.messages = []
      rw [hfield, hpatterned.messages]
      rfl

namespace Compiler

/-- **AN UNWORDED SPECIFICATION MAKES AN UNWORDED TREE**, if the registered types are such
    trees. -/
theorem ensures_unworded {spec : Spec} (h : spec.IsUnworded) :
    ∀ path, Ensures (Serves (Node.Every Node.Unworded)) (compileAt path spec)
      (Node.Every Node.Unworded) := by
  refine ensures_throughout (fun _ => Node.unworded_of_bare) (fun path reference => ?_)
    (h.mono fun part hpart => ?_)
  · rw [checkReference]
    split
    · exact .throw _
    · exact .pure trivial
  · have htext (source : String) (path : String) :
        Ensures (Serves (Node.Every Node.Unworded)) (compileText path source)
          (Node.Every Node.Unworded) :=
      ensures_compileText Dsl.inherited_unworded path source
    -- only texts, fields and trees that are handed over can bring messages along
    cases part with
    | text source =>
        intro path
        rw [compileAt]
        exact htext source path
    | field field =>
        intro path
        rw [compileAt]
        refine (htext field.base path).bind fun node hnode => ?_
        exact ensures_mk fun dressed hdressed =>
          FieldSpec.unworded_of_dress (hpart.2 field rfl) hnode hdressed
    | node node => exact absurd rfl (hpart.1 node)
    | object | array | matching | switch | chain | unsupported => trivial

end Compiler

/-! ## Stock trees -/

/-- The tree was made of an unworded specification by a compiler whose registered types are
    such trees.  The compiler may have a cache, in which every text has the tree that it
    denotes. -/
inductive Node.Stock : Node → Prop
  | intro {compiler : Compiler} {spec : Spec} {node : Node} (hfaithful : compiler.IsFaithful)
      (hregistered : compiler.attached = true → ∀ other, compiler.registry.Yields other →
        Stock other)
      (hspec : spec.IsUnworded) (h : ((Compiler.compile spec).run compiler).1 = .ok node) :
      Stock node

/-- **NO NODE OF A STOCK TREE IS WORDED.** -/
theorem Node.unworded_of_stock {node : Node} (h : node.Stock) : node.Every Node.Unworded := by
  -- what the registry yields is stock made before the tree
  induction h with
  | @intro compiler spec node hfaithful hregistered hspec h ih =>
      have hbeside := Compiler.beside_uncached hfaithful
      obtain ⟨hsame, -⟩ := Compiler.transparent_compile spec compiler _ hbeside
      rw [hsame] at h
      have hserves : Compiler.Serves (Node.Every Node.Unworded) compiler.uncached := ⟨rfl, ih⟩
      exact (Compiler.ensures_unworded hspec "" _ hserves).2 node h

end Conform
