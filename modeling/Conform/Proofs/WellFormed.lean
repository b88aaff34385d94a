import Conform.Proofs.CompilingAlone

/-! # Well-formed trees — what comes out of a text

    Messages, exports and validations take for granted what no type says: a clause
    stands only where there is a measure, choices are of the type they are choices of,
    no node has both.  Every node of every tree that a text makes is like that
    (`wellFormed_of_compile`), whatever the text, as long as no registry has a part
    in it. -/

namespace Conform

/-! ## Nodes as texts make them -/

/-- There is no pattern, no wording and no custom check. -/
structure Facets.Unadorned (facets : Facets) : Prop where
  pattern : facets.pattern = none
  label : facets.label = none
  description : facets.description = none
  messages : facets.messages = []
  customs : facets.customs = []

namespace Node

/-- The node has the form of its base type, or is a union of two members at least. -/
def HasPlainForm : Node → Prop
  | .leaf _ _ => True
  | .object _ fields => fields = []
  | .array _ _ => True
  | .union _ members => 2 ≤ members.length
  | _ => False

/-- The node is as a text makes it: its checks are lawful and not of both kinds, its
    form is plain, and there is nothing more to it. -/
structure WellFormed (node : Node) : Prop where
  lawful : node.facets.Lawful node.base
  single : node.facets.clause = none ∨ node.facets.choices = []
  form : node.HasPlainForm
  unadorned : node.facets.Unadorned

theorem facets_ofType (base : BaseType) : (ofType base).facets = {} := by
  cases base <;> rfl

/-- A plain type has a plain form. -/
theorem hasPlainForm_ofType (base : BaseType) : (ofType base).HasPlainForm := by
  cases base with
  | primitive p => trivial
  | object => rfl
  | array => trivial

theorem HasPlainForm.mapFacets {node : Node} (f : Facets → Facets) (h : node.HasPlainForm) :
    (node.mapFacets f).HasPlainForm := by
  cases node <;> exact h

/-- A plain type is well formed. -/
theorem wellFormed_ofType (base : BaseType) : (ofType base).WellFormed where
  lawful := by
    rw [facets_ofType]
    exact Facets.lawful_of_bare rfl rfl
  single := by
    rw [facets_ofType]
    exact Or.inl rfl
  form := hasPlainForm_ofType base
  unadorned := by
    rw [facets_ofType]
    exact ⟨rfl, rfl, rfl, rfl, rfl⟩

/-- Whether a value must be present is no matter of form. -/
theorem WellFormed.withRequired {node : Node} (required : Bool) (h : node.WellFormed) :
    (node.withRequired required).WellFormed where
  lawful := by
    rw [Node.withRequired, facets_mapFacets, base_mapFacets]
    exact ⟨h.lawful.clause, h.lawful.choices, h.lawful.several⟩
  single := by
    rw [Node.withRequired, facets_mapFacets]
    exact h.single
  form := h.form.mapFacets _
  unadorned := by
    rw [Node.withRequired, facets_mapFacets]
    obtain ⟨hpattern, hlabel, hdescription, hmessages, hcustoms⟩ := h.unadorned
    exact ⟨hpattern, hlabel, hdescription, hmessages, hcustoms⟩

/-- A leaf with choices that were read is well formed: they have its type. -/
theorem wellFormed_choice (required : Bool) {hint : Option Dsl.ChoiceType} {body : Text.Chars}
    {type : Dsl.ChoiceType} {choices : List Literal}
    (h : Dsl.choicesOf hint body = .ok (type, choices)) :
    (Node.leaf type.primitive { required := required, choices := choices }).WellFormed where
  lawful := by
    obtain ⟨hlength, hall⟩ := Dsl.suits_of_choicesOf (Dsl.ofBase?_primitive type) h
    exact ⟨nofun, hall, Or.inr hlength⟩
  single := Or.inl rfl
  form := trivial
  unadorned := ⟨rfl, rfl, rfl, rfl, rfl⟩

/-- An array with a clause that was read is well formed: the clause counts items. -/
theorem wellFormed_array (required : Bool) {text : Option Text.Chars} {clause : Option Clause}
    (items : Option Node) (h : Dsl.arrayClause text = .ok clause) :
    (Node.array { required := required, clause := clause } items).WellFormed where
  lawful :=
    ⟨fun _ hmem => ⟨.items, rfl, Dsl.suits_of_arrayClause h _ hmem⟩, nofun, Or.inl rfl⟩
  single := Or.inr rfl
  form := trivial
  unadorned := ⟨rfl, rfl, rfl, rfl, rfl⟩

/-- A union of two members or more is well formed. -/
theorem wellFormed_union (required : Bool) {members : List Node} (h : 2 ≤ members.length) :
    (Node.union { required := required } members).WellFormed where
  lawful := Facets.lawful_of_bare rfl rfl
  single := Or.inl rfl
  form := h
  unadorned := ⟨rfl, rfl, rfl, rfl, rfl⟩

/-- A built-in type takes a clause or choices, and is well formed with them. -/
theorem wellFormed_of_constrain {name body rest : Text.Chars} {base : BaseType} {node : Node}
    (h : Dsl.constrain name body rest (ofType base) = .ok node) : node.WellFormed := by
  have hbare := wellFormed_ofType base
  have hlawful := Dsl.lawful_of_constrain hbare.lawful h
  rcases Dsl.constrain_eq_ok h with ⟨type, choices, -, -, rfl⟩ | ⟨measure, clause, -, -, rfl⟩
  · refine ⟨hlawful, ?_, hbare.form.mapFacets _, ?_⟩
    · rw [facets_mapFacets, facets_ofType]
      exact Or.inl rfl
    · rw [facets_mapFacets, facets_ofType]
      exact ⟨rfl, rfl, rfl, rfl, rfl⟩
  · refine ⟨hlawful, ?_, hbare.form.mapFacets _, ?_⟩
    · rw [facets_mapFacets, facets_ofType]
      exact Or.inr rfl
    · rw [facets_mapFacets, facets_ofType]
      exact ⟨rfl, rfl, rfl, rfl, rfl⟩

end Node

/-! ## Trees as texts make them -/

/-- **WELL-FORMEDNESS IS INHERITED** through every step, when names stand for built-in
    types. -/
theorem Dsl.inherited_wellFormed :
    Dsl.Inherited (fun node => ∃ base, node = .ofType base) (Node.Every Node.WellFormed) where
  builtin base := ⟨base, rfl⟩
  named := by
    rintro required _ ⟨base, rfl⟩
    refine .of_parts_eq_nil ((Node.wellFormed_ofType base).withRequired required) ?_
    rw [Node.children_withRequired, Node.children_ofType]
  bounded := by
    rintro required name body rest _ constrained ⟨base, rfl⟩ h
    refine .of_parts_eq_nil ((Node.wellFormed_of_constrain h).withRequired required) ?_
    rw [Node.children_withRequired, Dsl.children_of_constrain h, Node.children_ofType]
  choice required hint body type choices h :=
    .of_parts_eq_nil (Node.wellFormed_choice required h) rfl
  array required text clause items h hitems :=
    .intro (Node.wellFormed_array required items h) fun node hmem =>
      hitems node (Option.mem_toList.1 hmem)
  union required members h hmembers := .intro (Node.wellFormed_union required h) hmembers

namespace Compiler

/-- **EVERY TREE THAT A TEXT MAKES IS WELL FORMED**, in each of its nodes.  The compiler
    has no registry; it may have a cache, in which every text has the tree that it
    denotes. -/
theorem wellFormed_of_compile {compiler : Compiler} (hfaithful : compiler.IsFaithful)
    (hdetached : compiler.attached = false) {source : String} {node : Node}
    (h : ((compile (.text source)).run compiler).1 = .ok node) : node.Every Node.WellFormed := by
  have hbeside := beside_uncached hfaithful
  obtain ⟨hsame, -⟩ := transparent_compile (.text source) compiler _ hbeside
  rw [hsame] at h
  have hserves : Serves (fun node => ∃ base, node = .ofType base) compiler.uncached := by
    refine ⟨rfl, ?_⟩
    intro hattached
    exact absurd (hdetached.symm.trans hattached) Bool.false_ne_true
  exact (ensures_compileText Dsl.inherited_wellFormed "" source _ hserves).2 node h

/-- A text with blanks around its parts, a bracket that opens after a colon and a bar
    inside of brackets. -/
def spacedSource : String := " types: array:1-3<string:a|b> | null ! "

/-- The tree of the text. -/
def spacedTree : Node :=
  .union { required := true }
    [.array { clause := some (.range (some (.ofNat 1)) (some (.ofNat 3))) }
        (some (.leaf .string { choices := [.string "a", .string "b"] })),
      .leaf .null {}]

theorem outline_spacedSource :
    Dsl.Outline.ofText spacedSource.toList
      = .union true
        [.array false (some ['1', '-', '3']) (some (.bounded false ['s', 't', 'r', 'i', 'n', 'g']
            ['s', 't', 'r', 'i', 'n', 'g', ':', 'a', '|', 'b'] ['a', '|', 'b'])),
          .named false ['n', 'u', 'l', 'l']] := by
  -- one level at a time, as outlines are made of texts that are shorter
  have hunion : Dsl.Outline.ofText spacedSource.toList
      = .union true [.ofText "array:1-3<string:a|b>".toList, .ofText "null".toList] := by
    rw [Dsl.Outline.ofText]
    rfl
  have harray : Dsl.Outline.ofText "array:1-3<string:a|b>".toList
      = .array false (some ['1', '-', '3']) (some (.ofText "string:a|b".toList)) := by
    rw [Dsl.Outline.ofText]
    rfl
  have hitems : Dsl.Outline.ofText "string:a|b".toList
      = .bounded false ['s', 't', 'r', 'i', 'n', 'g']
          ['s', 't', 'r', 'i', 'n', 'g', ':', 'a', '|', 'b'] ['a', '|', 'b'] := by
    rw [Dsl.Outline.ofText]
    rfl
  have hnull : Dsl.Outline.ofText "null".toList = .named false ['n', 'u', 'l', 'l'] := by
    rw [Dsl.Outline.ofText]
    rfl
  rw [hunion, harray, hitems, hnull]

theorem arrayClause_spacedSource :
    Dsl.arrayClause (some ['1', '-', '3'])
      = .ok (some (.range (some (.ofNat 1)) (some (.ofNat 3)))) := by
  have hread : (Dsl.arrayClause (some ['1', '-', '3'])).toOption
      = some (some (.range (some (.ofNat 1)) (some (.ofNat 3)))) := by
    decide +kernel
  cases h : Dsl.arrayClause (some ['1', '-', '3']) with
  | error fault =>
      rw [h] at hread
      exact nomatch hread
  | ok clause =>
      rw [h] at hread
      rw [Option.some.inj hread]

theorem denotesAlone_spacedSource : Dsl.DenotesAlone spacedSource spacedTree := by
  intro path names
  unfold Dsl.read
  rw [outline_spacedSource]
  simp only [Dsl.Outline.node, Dsl.Outline.nodes, arrayClause_spacedSource]
  rfl

theorem wellFormed_spacedTree :
    IsFaithful {} ∧ ({} : Compiler).attached = false
      ∧ ((compile (.text spacedSource)).run {}).1 = .ok spacedTree
      ∧ spacedTree.Every Node.WellFormed := by
  have hfaithful : IsFaithful {} := fun _ hcache => nomatch hcache
  have hcompile := (makes_text denotesAlone_spacedSource {} isLone_default).1
  exact ⟨hfaithful, rfl, hcompile, wellFormed_of_compile hfaithful rfl hcompile⟩

end Compiler

end Conform
