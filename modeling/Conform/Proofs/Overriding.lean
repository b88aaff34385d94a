import Conform.Proofs.ClauseAndChoices

/-! # Overriding — where a specification makes a node with both

    Everything but the texts in a specification leaves the clauses and the choices alone,
    so a tree has both on some node exactly because of a text for which what its name
    stands for has no room.

    What a name stands for is fixed, but for factories, which may answer differently each
    time.  So there is one statement for the trees that are safe whatever is answered, and
    one for those that can be safe at all; they meet where there are no factories
    (`exclusive_of_compile`). -/

namespace Conform

open Conform.Text (Chars)

/-! ## Specifications -/

namespace Spec

/-- The specifications in a specification. -/
def parts : Spec → List Spec
  | .object fields => fields.map Prod.snd
  | .array items => [items]
  | .matching _ cases => cases.map Prod.snd
  | .switch _ yes no => yes :: no.toList
  | .chain (.ok body) => body.targets
  | _ => []

/-- If the specification is a text, or a field on one, this holds of the text. -/
def Reads (P : String → Prop) : Spec → Prop
  | .text source => P source
  | .field given => P given.base
  | _ => True

/-- In every text of the specification, this holds of each name and of what follows it. -/
def EachFollows (P : String → Chars → Prop) (spec : Spec) : Prop :=
  Throughout parts (Reads fun source => (Dsl.Outline.ofText source.toList).EachFollows P) spec

/-- There is no ready tree in the specification. -/
def IsWritten (spec : Spec) : Prop := Throughout parts (fun part => ∀ node, part ≠ .node node) spec

end Spec

namespace FieldSpec

/-- Dressing a node leaves its clause, its choices, and the nodes in it. -/
theorem dress_checks {path : String} {field : FieldSpec} {node dressed : Node}
    (h : field.dress path node = .ok dressed) :
    dressed.facets.clause = node.facets.clause ∧ dressed.facets.choices = node.facets.choices
      ∧ dressed.children = node.children := by
  cases hpattern : withPattern path field.pattern node with
  | error error =>
      rw [dress, hpattern] at h
      cases h
  | ok patterned =>
      rw [dress_eq_ok hpattern] at h
      obtain rfl := Except.ok.inj h
      rw [Node.facets_mapFacets, Node.children_mapFacets]
      rw [withPattern.eq_def] at hpattern
      split at hpattern
      · obtain rfl := Except.ok.inj hpattern
        exact ⟨rfl, rfl, rfl⟩
      · split at hpattern
        · cases hpattern
        · split at hpattern
          · cases hpattern
          · obtain rfl := Except.ok.inj hpattern
            rw [Node.facets_mapFacets, Node.children_mapFacets]
            exact ⟨rfl, rfl, rfl⟩

theorem isExclusive_dress_iff {path : String} {field : FieldSpec} {node dressed : Node}
    (h : field.dress path node = .ok dressed) : dressed.IsExclusive ↔ node.IsExclusive := by
  obtain ⟨hclause, hchoices, hchildren⟩ := dress_checks h
  rw [Node.IsExclusive, Node.IsExclusive, Node.Every, Node.Every, Throughout.intro_iff, hchildren,
    Throughout.intro_iff, Facets.Exclusive, Facets.Exclusive, hclause, hchoices]

end FieldSpec

namespace Compiler

/-- There is no cache, and names stand for no more than they did. -/
structure Narrows (original : Registry) (compiler : Compiler) : Prop where
  cacheless : compiler.cache = none
  within : compiler.registry.Within original

/-- What is asked of specifications so that the tree is safe, and what is needed. -/
abbrev Decided (original : Registry) (specs : List Spec) (nodes : List Node) : Prop :=
  Decides (Spec.EachFollows original.AlwaysHasRoom) (Spec.EachFollows original.SometimesHasRoom)
    specs nodes

section

variable {original : Registry} (hyields : ∀ node, original.Yields node → node.IsExclusive)
include hyields

/-- The outline of a text decides whether its tree is exclusive. -/
theorem ensures_decided_text (path source : String) :
    Ensures (Narrows original) (compileText path source) fun node =>
      Dsl.Outline.Decided original [.ofText source.toList] [node] := by
  intro compiler hnarrows
  obtain ⟨hvalue, hcache, hregistry, -⟩ := compileText_run_of_cacheless path source hnarrows.cacheless
  obtain ⟨hafter, hdecided⟩ := Dsl.Outline.ensures_decided hyields (.ofText source.toList) path
    ⟨compiler.registry, compiler.attached, false⟩ hnarrows.within
  refine ⟨⟨hcache, ?_⟩, ?_⟩
  · rw [hregistry]
    exact hafter
  · intro node hnode
    exact hdecided node (hvalue.symm.trans hnode)

omit hyields in
/-- What stands for nothing itself is decided by what is in it. -/
theorem decided_of_parts {spec : Spec} {node : Node}
    (hparts : Decided original spec.parts node.children) (hreads : ∀ P, spec.Reads P)
    (hfacets : node.facets = {}) : Decided original [spec] [node] := by
  refine .of_parts hparts (fun _ => ?_) fun _ => hreads _
  rw [hfacets]
  exact .inl rfl

omit hyields in
/-- What is written in a text is what its outline writes. -/
theorem eachFollows_iff {P : String → Chars → Prop} {spec : Spec} {source : String}
    (hparts : spec.parts = []) (hreads : ∀ Q, spec.Reads Q ↔ Q source) :
    spec.EachFollows P ↔ (Dsl.Outline.ofText source.toList).EachFollows P := by
  rw [Spec.EachFollows, Throughout.intro_iff, hparts, hreads]
  exact and_iff_left fun _ hmem => nomatch hmem

/-- A field is decided by the text that it is declared with. -/
theorem ensures_decided_field (path : String) (field : FieldSpec) :
    Ensures (Narrows original) (compileAt path (.field field)) fun node =>
      Decided original [.field field] [node] := by
  rw [compileAt]
  refine (ensures_decided_text hyields path field.base).bind ?_
  intro node hnode
  refine ensures_mk fun dressed hdressed => ?_
  exact hnode.congr (eachFollows_iff rfl fun _ => Iff.rfl) (eachFollows_iff rfl fun _ => Iff.rfl)
    (FieldSpec.isExclusive_dress_iff hdressed)

end

section

variable {original : Registry}

/-- Fields are compiled one by one. -/
theorem ensures_decided_fields {fields : List (String × Spec)}
    (h : ∀ spec ∈ fields.map Prod.snd, ∀ path, Ensures (Narrows original) (compileAt path spec)
      fun node => Decided original [spec] [node]) (path : String) :
    Ensures (Narrows original) (compileFields path fields) fun nodes =>
      Decided original (fields.map Prod.snd) (nodes.map Prod.snd) := by
  induction fields with
  | nil =>
      rw [compileFields]
      exact .pure (.of_isExclusive (List.forall_mem_nil _))
  | cons field rest ih =>
      obtain ⟨name, spec⟩ := field
      rw [List.map_cons, List.forall_mem_cons] at h
      rw [compileFields]
      refine (h.1 (memberPath path name)).bind ?_
      intro node hnode
      refine (ih h.2).bind ?_
      intro nodes hnodes
      exact .pure (.cons hnode hnodes)

/-- So are cases, while their keys are not taken. -/
theorem ensures_decided_cases {cases : List (String × Spec)}
    (h : ∀ spec ∈ cases.map Prod.snd, ∀ path, Ensures (Narrows original) (compileAt path spec)
      fun node => Decided original [spec] [node]) (path : String) :
    ∀ seen, Ensures (Narrows original) (compileCases path seen cases) fun nodes =>
      Decided original (cases.map Prod.snd) (nodes.map Prod.snd) := by
  induction cases with
  | nil =>
      intro seen
      rw [compileCases]
      exact .pure (.of_isExclusive (List.forall_mem_nil _))
  | cons case rest ih =>
      intro seen
      obtain ⟨key, spec⟩ := case
      rw [List.map_cons, List.forall_mem_cons] at h
      rw [compileCases]
      refine (h.1 (casePath path key)).bind ?_
      intro node hnode
      have hrest : Ensures (Narrows original)
          (compileCases path (key :: seen) rest >>= fun nodes => pure ((key, node) :: nodes))
          fun nodes => Decided original (spec :: rest.map Prod.snd) (nodes.map Prod.snd) := by
        refine (ih h.2 (key :: seen)).bind ?_
        intro nodes hnodes
        exact .pure (.cons hnode hnodes)
      by_cases htaken : seen.contains key = true
      · rw [if_pos htaken]
        exact (Ensures.throw (Q := fun _ => False) _).bind fun _ h => h.elim
      · rw [if_neg htaken]
        exact hrest

/-- An optional target is decided if it is there. -/
theorem ensures_decided_target {target : Option Spec}
    (h : ∀ spec ∈ target, ∀ path, Ensures (Narrows original) (compileAt path spec)
      fun node => Decided original [spec] [node]) (path : String) :
    Ensures (Narrows original) (compileTarget path target) fun node =>
      Decided original target.toList node.toList := by
  cases target with
  | none =>
      rw [compileTarget]
      exact .pure (.of_isExclusive (List.forall_mem_nil _))
  | some spec =>
      rw [compileTarget]
      exact (h spec rfl path).bind fun node hnode => .pure hnode

/-- The targets of a chain are those of its entries and that of its fallback. -/
theorem ensures_decided_entries {entries : List (Chain.Entry Spec)}
    (h : ∀ spec ∈ entries.filterMap Chain.Entry.target, ∀ path,
      Ensures (Narrows original) (compileAt path spec) fun node => Decided original [spec] [node])
    (path : String) :
    Ensures (Narrows original) (compileEntries path entries) fun compiled =>
      Decided original (entries.filterMap Chain.Entry.target) (compiled.filterMap Chain.Entry.target) := by
  -- an entry has a target or not, and the list of targets follows the entries in this
  have hsplit : ∀ {α : Type} (entry : Chain.Entry α) rest,
      (entry :: rest).filterMap Chain.Entry.target
        = entry.target.toList ++ rest.filterMap Chain.Entry.target := by
    intro α entry rest
    rw [List.filterMap_cons]
    cases entry.target <;> rfl
  induction entries with
  | nil =>
      rw [compileEntries]
      exact .pure (.of_isExclusive (List.forall_mem_nil _))
  | cons entry rest ih =>
      obtain ⟨kind, conditions, target, message, throws⟩ := entry
      rw [hsplit, List.forall_mem_append] at h
      rw [compileEntries]
      have htarget : ∀ spec ∈ target, ∀ path,
          Ensures (Narrows original) (compileAt path spec) fun node => Decided original [spec] [node] :=
        fun spec hmem => h.1 spec (Option.mem_toList.2 hmem)
      refine (ensures_decided_target htarget path).bind ?_
      intro node hnode
      refine (ih h.2).bind ?_
      intro compiled hcompiled
      refine .pure ?_
      rw [hsplit, hsplit]
      exact hnode.append hcompiled

/-- A fallback is decided by its target. -/
theorem ensures_decided_fallback {fallback : Chain.Fallback Spec}
    (h : ∀ spec ∈ Chain.targets ⟨[], fallback⟩, ∀ path,
      Ensures (Narrows original) (compileAt path spec) fun node => Decided original [spec] [node])
    (path : String) :
    Ensures (Narrows original) (compileFallback path fallback) fun compiled =>
      Decided original (Chain.targets ⟨[], fallback⟩) (Chain.targets ⟨[], compiled⟩) := by
  cases fallback with
  | undefined =>
      rw [compileFallback]
      exact .pure (.of_isExclusive (List.forall_mem_nil _))
  | nothing =>
      rw [compileFallback]
      exact .pure (.of_isExclusive (List.forall_mem_nil _))
  | target spec =>
      rw [compileFallback]
      exact (h spec (List.mem_singleton_self spec) path).bind fun node hnode => .pure hnode

/-- Checking a reference decides nothing. -/
theorem ensures_checkReference (path reference : String) :
    Ensures (Narrows original) (checkReference path reference) fun _ => True := by
  rw [checkReference]
  split
  · exact .throw _
  · exact .pure trivial

/-- **WHETHER A SPECIFICATION MAKES AN EXCLUSIVE TREE** is decided by its texts. -/
theorem ensures_decided (hyields : ∀ node, original.Yields node → node.IsExclusive) {spec : Spec}
    (hwritten : spec.IsWritten) :
    ∀ path, Ensures (Narrows original) (compileAt path spec) fun node =>
      Decided original [spec] [node] := by
  induction hwritten with
  | @intro spec hnode hparts ih =>
      intro path
      cases spec with
      | text source =>
          rw [compileAt]
          refine (ensures_decided_text hyields path source).mono fun node hnode => ?_
          exact hnode.congr (eachFollows_iff rfl fun _ => Iff.rfl)
            (eachFollows_iff rfl fun _ => Iff.rfl) Iff.rfl
      | field field => exact ensures_decided_field hyields path field
      -- a tree that is handed over is not written at all
      | node node => exact absurd rfl (hnode node)
      | object fields =>
          rw [compileAt]
          refine (ensures_decided_fields ih path).bind fun nodes hnodes => .pure ?_
          exact decided_of_parts hnodes (fun _ => trivial) rfl
      | array items =>
          rw [compileAt]
          refine (ih items List.mem_cons_self _).bind fun node hnode => .pure ?_
          exact decided_of_parts hnode (fun _ => trivial) rfl
      | matching reference cases =>
          rw [compileAt]
          refine (ensures_checkReference path reference).bind fun _ _ => ?_
          refine (ensures_decided_cases ih path []).bind fun nodes hnodes => .pure ?_
          exact decided_of_parts hnodes (fun _ => trivial) rfl
      | switch field yes no =>
          cases no with
          | none =>
              rw [compileAt]
              refine (ensures_checkReference path field).bind fun _ _ => ?_
              refine (ih yes List.mem_cons_self path).bind fun node hnode => .pure ?_
              exact decided_of_parts hnode (fun _ => trivial) rfl
          | some no =>
              rw [compileAt]
              refine (ensures_checkReference path field).bind fun _ _ => ?_
              refine (ih yes List.mem_cons_self path).bind fun first hfirst => ?_
              refine (ih no (List.mem_cons_of_mem yes List.mem_cons_self) path).bind
                fun second hsecond => .pure ?_
              exact decided_of_parts (hfirst.cons hsecond) (fun _ => trivial) rfl
      | chain body =>
          cases body with
          | error fault =>
              rw [compileAt]
              exact .throw _
          | ok body =>
              obtain ⟨entries, fallback⟩ := body
              have ih := List.forall_mem_append.1 ih
              rw [compileAt]
              refine (ensures_decided_entries ih.1 path).bind fun compiled hcompiled => ?_
              refine (ensures_decided_fallback ih.2 path).bind fun last hlast => .pure ?_
              exact decided_of_parts (hcompiled.append hlast) (fun _ => trivial) rfl
      | unsupported value =>
          rw [compileAt]
          exact .throw _

end

/-- Where a name stands for one thing only, sometimes is always. -/
theorem eachFollows_always_of_sometimes {registry : Registry}
    (hone : ∀ name node other, registry.Answers name node → registry.Answers name other → node = other)
    {spec : Spec} (h : spec.EachFollows registry.SometimesHasRoom) :
    spec.EachFollows registry.AlwaysHasRoom := by
  have hroom : ∀ name rest, registry.SometimesHasRoom name rest → registry.AlwaysHasRoom name rest := by
    rintro name rest ⟨node, hanswers, hnode⟩ other hother
    rw [← hone name node other hanswers hother]
    exact hnode
  have houtline : ∀ outline : Dsl.Outline, outline.EachFollows registry.SometimesHasRoom →
      outline.EachFollows registry.AlwaysHasRoom := by
    intro outline houtline
    refine houtline.mono fun part hpart => ?_
    cases part with
    | bounded required name body rest => exact hroom _ _ hpart
    | fault | named | choice | array | union => trivial
  refine h.mono fun part hpart => ?_
  cases part with
  | text source => exact houtline _ hpart
  | field given => exact houtline _ hpart
  | object | array | node | matching | switch | chain | unsupported => trivial

/-- **NO NODE HAS BOTH A CLAUSE AND CHOICES UNLESS A TEXT PUTS THEM TOGETHER.**  Let a
    specification without ready trees compile, with a registry that yields exclusive trees
    only.  The tree is exclusive if everything that a text writes after a name finds room in
    whatever the name may stand for; and it is exclusive only if all of it finds room in
    something that the name may stand for.  Where each name stands for one thing only, as
    where there are no factories, the one is the other. -/
theorem exclusive_of_compile {compiler : Compiler} (hfaithful : compiler.IsFaithful)
    (hyields : ∀ node, compiler.registry.Yields node → node.IsExclusive) {spec : Spec}
    (hwritten : spec.IsWritten) {node : Node} (h : ((compile spec).run compiler).1 = .ok node) :
    (spec.EachFollows compiler.registry.AlwaysHasRoom → node.IsExclusive)
      ∧ (node.IsExclusive → spec.EachFollows compiler.registry.SometimesHasRoom)
      ∧ ((∀ name one other, compiler.registry.Answers name one →
            compiler.registry.Answers name other → one = other) →
          (node.IsExclusive ↔ spec.EachFollows compiler.registry.AlwaysHasRoom)) := by
  obtain ⟨hsame, -⟩ := transparent_compile spec compiler _ (beside_uncached hfaithful)
  rw [hsame] at h
  have hnarrows : Narrows compiler.registry compiler.uncached := ⟨rfl, fun _ _ hanswers => hanswers⟩
  have hdecided : Decided compiler.registry [spec] [node] :=
    (ensures_decided hyields hwritten "" _ hnarrows).2 node h
  have hsafe : spec.EachFollows compiler.registry.AlwaysHasRoom → node.IsExclusive := fun hroom =>
    hdecided.safe (List.forall_mem_singleton.2 hroom) node List.mem_cons_self
  have honly : node.IsExclusive → spec.EachFollows compiler.registry.SometimesHasRoom := fun hnode =>
    hdecided.only (List.forall_mem_singleton.2 hnode) spec List.mem_cons_self
  exact ⟨hsafe, honly, fun hone =>
    ⟨fun hnode => eachFollows_always_of_sometimes hone (honly hnode), hsafe⟩⟩

/-- A compiler whose only registered type is a string, under the name `code`. -/
def codes (facets : Facets) : Compiler :=
  { registry := Registry.register {} "code" (.leaf .string facets), attached := true }

/-- A registered type that is exclusive yields exclusive trees. -/
theorem isExclusive_of_yields_codes {facets : Facets} (hfacets : facets.Exclusive) {node : Node}
    (h : (codes facets).registry.Yields node) : node.IsExclusive := by
  obtain ⟨entry, hentry, hprovides⟩ := h
  obtain rfl := List.mem_singleton.1 hentry
  obtain rfl : node = .leaf .string facets := hprovides
  exact .of_parts_eq_nil hfacets rfl

theorem outline_codes :
    Dsl.Outline.ofText "code:a|b".toList
      = .bounded false "code".toList "code:a|b".toList "a|b".toList := by
  rw [Dsl.Outline.ofText]
  rfl

/-- Choices that are written after the name take the place of the choices there are. -/
theorem compile_codes (facets : Facets) :
    ((compile (.text "code:a|b")).run (codes facets)).1
      = .ok (.leaf .string { facets with required := false, choices := [.string "a", .string "b"] }) := by
  have hcacheless : (codes facets).cache = none := rfl
  rw [compile, compileAt, (compileText_run_of_cacheless "" "code:a|b" hcacheless).1, Dsl.read,
    outline_codes]
  rfl

/-- A string with other choices has room for them. -/
theorem exclusive_of_compile_codes :
    let compiler := codes { choices := [.string "c", .string "d"] }
    let node := Node.leaf .string { choices := [.string "a", .string "b"] }
    compiler.IsFaithful ∧ (∀ other, compiler.registry.Yields other → other.IsExclusive)
      ∧ (Spec.text "code:a|b").IsWritten
      ∧ ((compile (.text "code:a|b")).run compiler).1 = .ok node
      ∧ node.IsExclusive := by
  intro compiler node
  have hfaithful : compiler.IsFaithful := fun _ hcache => nomatch hcache
  have hyields : ∀ other, compiler.registry.Yields other → other.IsExclusive :=
    fun other => isExclusive_of_yields_codes (.inl rfl)
  have hwritten : (Spec.text "code:a|b").IsWritten := .of_parts_eq_nil (fun _ => nofun) rfl
  have hcompile : ((compile (.text "code:a|b")).run compiler).1 = .ok node := compile_codes _
  have hroom : compiler.registry.AlwaysHasRoom "code" "a|b".toList := by
    intro other hanswers
    rw [Registry.Answers, show BaseType.ofName? "code" = none from rfl] at hanswers
    obtain ⟨registration, hvalue, hprovides⟩ := hanswers
    obtain rfl := Option.some.inj hvalue
    obtain rfl : other = .leaf .string { choices := [.string "c", .string "d"] } := hprovides
    rfl
  -- the text names the registered type once, and that type has room for choices
  have heach : (Spec.text "code:a|b").EachFollows compiler.registry.AlwaysHasRoom := by
    refine .of_parts_eq_nil ?_ rfl
    show (Dsl.Outline.ofText "code:a|b".toList).EachFollows _
    rw [outline_codes]
    exact .of_parts_eq_nil hroom rfl
  exact ⟨hfaithful, hyields, hwritten, hcompile,
    (exclusive_of_compile hfaithful hyields hwritten hcompile).1 heach⟩

/-- A string with a clause has no room for choices: it gets them all the same. -/
theorem both_beside_registered_clause :
    ¬ ∀ (compiler : Compiler) (spec : Spec) (node : Node), compiler.IsFaithful →
      (∀ other, compiler.registry.Yields other → other.IsExclusive) → spec.IsWritten →
      ((compile spec).run compiler).1 = .ok node → node.IsExclusive := by
  intro h
  have hboth := h (codes { clause := some (.range (some (.ofNat 2)) (some (.ofNat 4))) })
    (.text "code:a|b") _ (fun _ hcache => nomatch hcache)
    (fun other => isExclusive_of_yields_codes (.inr rfl)) (.of_parts_eq_nil (fun _ => nofun) rfl)
    (compile_codes _)
  rcases hboth.here with hclause | hchoices
  · cases hclause
  · cases hchoices

end Compiler

end Conform
