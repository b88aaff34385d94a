import Conform.Proofs.Lawful
import Conform.Proofs.Throughout
import Conform.Proofs.Transparency

/-! # Made trees — what holds of every tree that a text makes

    A text makes a tree from built-in types, from what the registry yields, and from
    trees that its parts make.  A property that is INHERITED through each of these
    steps holds of every tree that is read, at whatever depth the steps are taken and
    whatever the text (`Dsl.ensures_read`), and of every tree that a compiler without
    a cache makes of a text (`ensures_compileText`).

    That a union has two members at least is seen before any name is resolved, in
    the outline of the text (`Outline.plural_ofText`). -/

namespace Conform

/-! ## What a registry yields -/

namespace Registry

/-- The node is the tree of a registration, or one that its factory makes. -/
def Provides : Registration → Node → Prop
  | .fixed found, node => node = found
  | .factory make _, node => ∃ call, node = make call

/-- The registry may answer with the node, now or at a later call. -/
def Yields (registry : Registry) (node : Node) : Prop :=
  ∃ entry ∈ registry.types, Provides entry.2 node

/-- An answer is one of the nodes that the registry yields, and it yields no more
    nodes afterwards. -/
theorem yields_of_resolve? {registry after : Registry} {name : String} {node : Node}
    (h : registry.resolve? name = (some node, after)) :
    registry.Yields node ∧ ∀ other, after.Yields other → registry.Yields other := by
  unfold resolve? at h
  cases hv : Members.valueOf? registry.types name with
  | none =>
      rw [hv] at h
      exact nomatch congrArg Prod.fst h
  | some registration =>
      have hmem := Members.mem_of_valueOf?_eq_some hv
      rw [hv] at h
      cases registration with
      | fixed found =>
          obtain rfl : found = node := Option.some.inj (congrArg Prod.fst h)
          obtain rfl : registry = after := congrArg Prod.snd h
          exact ⟨⟨_, hmem, rfl⟩, fun _ hother => hother⟩
      | factory make calls =>
          obtain rfl : make calls = node := Option.some.inj (congrArg Prod.fst h)
          obtain rfl : _ = after := congrArg Prod.snd h
          refine ⟨⟨_, hmem, calls, rfl⟩, ?_⟩
          rintro other ⟨entry, hentry, hprovides⟩
          rcases Members.mem_of_mem_put hentry with rfl | hold
          · exact ⟨_, hmem, hprovides⟩
          · exact ⟨entry, hold, hprovides⟩

end Registry

namespace Dsl

open Conform.Text (Chars)

/-! ## Unions of two members at least -/

/-- Every union in the outline has two members at least. -/
inductive Outline.Plural : Outline → Prop
  | fault (flaw : Fault) : Plural (.fault flaw)
  | named (required : Bool) (name : Chars) : Plural (.named required name)
  | choice (required : Bool) (hint : Option ChoiceType) (body : Chars) :
      Plural (.choice required hint body)
  | bounded (required : Bool) (name body rest : Chars) : Plural (.bounded required name body rest)
  | array (required : Bool) (clause : Option Chars) {items : Option Outline}
      (hitems : ∀ outline ∈ items, Plural outline) : Plural (.array required clause items)
  | union (required : Bool) {members : List Outline} (hseveral : 2 ≤ members.length)
      (hmembers : ∀ outline ∈ members, Plural outline) : Plural (.union required members)

/-- If the form is that of a union, it has two members at least. -/
def Form.Plural {size : Nat} : Form size → Prop
  | .union members => 2 ≤ members.length
  | _ => True

/-- The room of a form has nothing to do with the number of its members. -/
theorem Form.plural_widen {small large : Nat} (h : small ≤ large) {form : Form small}
    (hform : form.Plural) : (form.widen h).Plural := by
  cases form with
  | union members =>
      show 2 ≤ (members.map _).length
      rw [List.length_map]
      exact hform
  | fault flaw => trivial
  | named name => trivial
  | choice hint body => trivial
  | bounded name rest => trivial
  | array clause items => trivial

/-- An array has no members to count. -/
theorem plural_arrayForm? {rest : Chars} {form : Form (rest.length + 1)}
    (h : arrayForm? rest = some form) : form.Plural := by
  unfold arrayForm? at h
  split at h
  · obtain rfl := Option.some.inj h
    trivial
  · split at h
    · obtain rfl := Option.some.inj h
      trivial
    · split at h
      · obtain rfl := Option.some.inj h
        trivial
      · obtain rfl := Option.some.inj h
        trivial
  · split at h
    · obtain rfl := Option.some.inj h
      trivial
    · obtain rfl := Option.some.inj h
      trivial
  · exact nomatch h

/-- A union is read with two members or not at all. -/
theorem plural_unionForm (rest : Chars) : (unionForm rest).Plural := by
  unfold unionForm
  split
  · trivial
  · rename_i pieces hm
    by_cases hfew : pieces.length < 2
    · rw [if_pos hfew]
      trivial
    · rw [if_neg hfew]
      show 2 ≤ (pieces.attach.map _).length
      rw [List.length_map, List.length_attach]
      exact Nat.le_of_not_lt hfew

/-- An enumeration has no members to count. -/
theorem plural_enumForm (size : Nat) (rest : Chars) : (enumForm size rest).Plural := by
  unfold enumForm
  split
  · split <;> trivial
  · trivial

/-- What stands before a colon does not matter for the number of members. -/
theorem plural_colonForm {body name rest : Chars} (h : rest.length < body.length) :
    (colonForm body name rest h).Plural := by
  unfold colonForm
  by_cases hempty : rest.isEmpty = true
  · rw [if_pos hempty]
    trivial
  rw [if_neg hempty]
  by_cases htypes : String.ofList name = "types"
  · rw [if_pos htypes]
    exact Form.plural_widen h (plural_unionForm rest)
  rw [if_neg htypes]
  by_cases henum : String.ofList name = "enum"
  · rw [if_pos henum]
    exact plural_enumForm _ rest
  · rw [if_neg henum]
    trivial

theorem plural_generalForm (body : Chars) : (generalForm body).Plural := by
  unfold generalForm
  split
  · unfold plainForm
    split <;> trivial
  · exact plural_colonForm _

/-- **EVERY UNION THAT IS READ HAS TWO MEMBERS OR MORE.** -/
theorem plural_formOf (body : Chars) : (formOf body).Plural := by
  unfold formOf
  split
  · exact plural_generalForm body
  · split
    · exact plural_generalForm body
    · rename_i form hform
      exact Form.plural_widen _ (plural_arrayForm? hform)

/-- **A UNION IN A TEXT HAS SEVERAL MEMBERS**, however deep it stands. -/
theorem Outline.plural_ofText (text : Chars) : (Outline.ofText text).Plural := by
  -- outlines are made of shorter texts, so the induction is on the length
  induction hlength : text.length using Nat.strongRecOn generalizing text with
  | ind length ih =>
      unfold Outline.ofText
      split
      · exact .fault _
      · rename_i required body hbody heq
        have hform := plural_formOf body
        split
        · exact .fault _
        · exact .named _ _
        · exact .choice _ _ _
        · exact .bounded _ _ _ _
        · refine .array _ _ ?_
          rintro _ ⟨⟩
        · rename_i clause part hpart
          refine .array _ _ ?_
          rintro _ ⟨⟩
          exact ih part.1.length (by have := part.2; omega) part.1 rfl
        · rename_i parts hparts
          rw [hparts] at hform
          refine .union _ ?_ ?_
          · rw [List.length_map]
            exact hform
          · intro outline hmem
            obtain ⟨part, -, rfl⟩ := List.mem_map.1 hmem
            exact ih part.1.length (by have := part.2; omega) part.1 rfl

/-! ## Reading -/

/-- Constraining a node leaves the nodes in it as they are. -/
theorem children_of_constrain {name body rest : Chars} {node constrained : Node}
    (h : constrain name body rest node = .ok constrained) : constrained.children = node.children := by
  rcases constrain_eq_ok h with ⟨type, choices, -, -, rfl⟩ | ⟨measure, clause, -, -, rfl⟩
  · exact Node.children_mapFacets _ node
  · exact Node.children_mapFacets _ node

/-- The trees of specifications inherit `Q` through the steps of a reading from trees
    of names, which have `N`. -/
structure Inherited (N Q : Node → Prop) : Prop where
  builtin : ∀ base, N (.ofType base)
  named : ∀ required node, N node → Q (node.withRequired required)
  bounded : ∀ required name body rest node constrained, N node →
    constrain name body rest node = .ok constrained → Q (constrained.withRequired required)
  choice : ∀ required hint body type choices, choicesOf hint body = .ok (type, choices) →
    Q (.leaf type.primitive { required := required, choices := choices })
  array : ∀ required text clause items, arrayClause text = .ok clause → (∀ node ∈ items, Q node) →
    Q (.array { required := required, clause := clause } items)
  union : ∀ required members, 2 ≤ members.length → (∀ node ∈ members, Q node) →
    Q (.union { required := required } members)

/-- Names are resolved with a registry or without; of one that may be asked, all that
    it yields has the property. -/
structure Names.Serve (N : Node → Prop) (attached : Bool) (names : Names) : Prop where
  attached_eq : names.attached = attached
  yields : attached = true → ∀ node, names.registry.Yields node → N node

/-- A name that is not built in is an unknown one, where the registry is not asked. -/
theorem registered?_run_of_detached (name : String) {names : Names} (h : names.attached = false) :
    (registered? name).run names = (.ok none, names) := by
  show (if names.attached = true then _ else _ : Naming (Option Node)).run names = _
  rw [if_neg (by rw [h]; exact Bool.false_ne_true)]
  rfl

/-- A compiler with registrations asks them for a name. -/
theorem registered?_run_of_attached (name : String) {names : Names} (h : names.attached = true) :
    (registered? name).run names
      = match names.registry.resolve? name with
        | (some node, registry) =>
            (.ok (some node), { names with registry := registry, consulted := true })
        | (none, _) => (.ok none, names) := by
  show (if names.attached = true then _ else _ : Naming (Option Node)).run names = _
  rw [if_pos h]
  rcases names.registry.resolve? name with ⟨_ | node, registry⟩
  · rfl
  · rfl

variable {N Q : Node → Prop} {attached : Bool}

/-- What is registered has the property that all registered trees have. -/
theorem ensures_registered? (name : String) :
    Ensures (Names.Serve N attached) (registered? name) fun found => ∀ node ∈ found, N node := by
  intro names hserve
  by_cases ha : names.attached = true
  · rw [registered?_run_of_attached name ha]
    rcases hr : names.registry.resolve? name with ⟨_ | node, registry⟩
    · refine ⟨hserve, ?_⟩
      rintro found ⟨⟩ _ ⟨⟩
    · obtain ⟨hyields, hmore⟩ := Registry.yields_of_resolve? hr
      have hattached : attached = true := hserve.attached_eq.symm.trans ha
      refine ⟨⟨hserve.attached_eq, ?_⟩, ?_⟩
      · intro _ other hother
        exact hserve.yields hattached other (hmore other hother)
      · rintro found ⟨⟩ _ ⟨⟩
        exact hserve.yields hattached node hyields
  · rw [registered?_run_of_detached name (Bool.eq_false_iff.2 ha)]
    refine ⟨hserve, ?_⟩
    rintro found ⟨⟩ _ ⟨⟩

theorem ensures_settle {α : Type} {I : Names → Prop} (path : String) (outcome : Except Fault α) :
    Ensures I (settle path outcome) fun a => outcome = .ok a := by
  cases outcome with
  | ok value => exact .pure rfl
  | error fault => exact .throw _

section

-- the invariant is one that asking for a registered type keeps
variable {I : Names → Prop}
  (hregistered : ∀ name, Ensures I (registered? name) fun found => ∀ node ∈ found, N node)

include hregistered

/-- A name is resolved to a registered tree or to a built-in type. -/
theorem ensures_resolve (hbuiltin : ∀ base, N (.ofType base)) (path : String) (name : Chars) :
    Ensures I (resolve path name) N := by
  unfold resolve
  split
  · exact .pure (hbuiltin _)
  · refine (hregistered _).bind ?_
    intro found hfound
    cases found with
    | none => exact .throw _
    | some node => exact .pure (hfound node rfl)

omit hregistered in
/-- The members of a union are read one by one. -/
theorem Outline.ensures_nodes {path : String} {members : List Outline}
    (h : ∀ outline ∈ members, Ensures I (outline.node path) Q) :
    Ensures I (Outline.nodes path members) fun nodes =>
      nodes.length = members.length ∧ ∀ node ∈ nodes, Q node := by
  induction members with
  | nil =>
      unfold Outline.nodes
      exact .pure ⟨rfl, fun _ hmem => nomatch hmem⟩
  | cons outline rest ih =>
      unfold Outline.nodes
      refine (h outline List.mem_cons_self).bind ?_
      intro node hnode
      refine (ih fun other hother => h other (List.mem_cons_of_mem _ hother)).bind ?_
      rintro nodes ⟨hlength, hall⟩
      refine .pure ⟨congrArg (· + 1) hlength, ?_⟩
      intro other hmem
      rcases List.mem_cons.1 hmem with rfl | hmem
      · exact hnode
      · exact hall other hmem

/-- What is inherited holds of what an outline denotes. -/
theorem Outline.ensures_node (inherited : Inherited N Q) {outline : Outline} (h : outline.Plural) :
    ∀ path, Ensures I (outline.node path) Q := by
  -- on why the unions are plural, as a union asks for the number of its members
  induction h with
  | fault flaw =>
      intro path
      unfold Outline.node
      exact .throw _
  | named required name =>
      intro path
      unfold Outline.node
      exact (ensures_resolve hregistered inherited.builtin path name).bind fun node hnode =>
        .pure (inherited.named required node hnode)
  | choice required hint body =>
      intro path
      unfold Outline.node
      refine (ensures_settle path _).bind ?_
      rintro ⟨type, choices⟩ hchoices
      exact .pure (inherited.choice required hint body type choices hchoices)
  | bounded required name body rest =>
      intro path
      unfold Outline.node
      refine (ensures_resolve hregistered inherited.builtin path name).bind ?_
      intro node hnode
      refine (ensures_settle path _).bind ?_
      intro constrained hconstrained
      exact .pure (inherited.bounded required name body rest node constrained hnode hconstrained)
  | @array required clause items hitems ih =>
      intro path
      cases items with
      | none =>
          unfold Outline.node
          refine (ensures_settle path _).bind ?_
          intro bound hbound
          exact .pure (inherited.array required clause bound none hbound fun _ hmem => nomatch hmem)
      | some outline =>
          unfold Outline.node
          refine (ih outline rfl (itemsPath path)).bind ?_
          intro node hnode
          refine (ensures_settle path _).bind ?_
          intro bound hbound
          refine .pure (inherited.array required clause bound (some node) hbound ?_)
          rintro _ ⟨⟩
          exact hnode
  | @union required members hseveral hmembers ih =>
      intro path
      unfold Outline.node
      refine (Outline.ensures_nodes fun outline hmem => ih outline hmem path).bind ?_
      rintro nodes ⟨hlength, hall⟩
      exact .pure (inherited.union required nodes (hlength ▸ hseveral) hall)

/-- **WHAT IS INHERITED HOLDS OF EVERY TREE THAT IS READ.** -/
theorem ensures_read (inherited : Inherited N Q) (path source : String) :
    Ensures I (read path source) Q :=
  Outline.ensures_node hregistered inherited (Outline.plural_ofText source.toList) path

end

/-- Where the registry is not asked, reading changes nothing. -/
theorem read_run_of_detached (path source : String) {names : Names} (h : names.attached = false) :
    ((read path source).run names).2 = names := by
  have inherited : Inherited (fun _ => True) (fun _ => True) := by
    constructor <;> intros <;> trivial
  have hregistered : ∀ name, Ensures (· = names) (registered? name)
      fun found => ∀ node ∈ found, True := by
    rintro name _ rfl
    rw [registered?_run_of_detached name h]
    exact ⟨rfl, fun _ _ _ _ => trivial⟩
  exact (ensures_read hregistered inherited path source names rfl).1

end Dsl

/-! ## Compiling texts -/

namespace Compiler

open Conform.Dsl (Inherited)

variable {N Q : Node → Prop}

/-- There is no cache, and if the registry may be asked, all that it yields has the
    property. -/
structure Serves (N : Node → Prop) (compiler : Compiler) : Prop where
  cacheless : compiler.cache = none
  yields : compiler.attached = true → ∀ node, compiler.registry.Yields node → N node

/-- Nothing is taken from a cache that has nothing. -/
theorem ensures_cached? (key : String) :
    Ensures (Serves N) (cached? key) fun found => found = none := by
  intro compiler hserves
  rw [cached?_run_none key hserves.cacheless]
  refine ⟨hserves, ?_⟩
  rintro found ⟨⟩
  rfl

theorem ensures_issue (node : Node) : Ensures (Serves N) (issue node) fun _ => True := by
  intro compiler hserves
  exact ⟨⟨hserves.cacheless, hserves.yields⟩, fun _ _ => trivial⟩

/-- Remembering a tree leaves what is served, for there is no cache to keep it. -/
theorem ensures_remember (key : String) (tree : Tree) :
    Ensures (Serves N) (remember key tree) fun _ => True := by
  intro compiler hserves
  refine ⟨⟨?_, hserves.yields⟩, fun _ _ => trivial⟩
  show compiler.cache.map _ = none
  rw [hserves.cacheless]
  rfl

section

variable {path source : String}
  (hread : ∀ attached, Ensures (Dsl.Names.Serve N attached) (Dsl.read path source) Q)

include hread

/-- A text is read to what its outline makes. -/
theorem ensures_readText : Ensures (Serves N) (readText path source) fun read => Q read.1 := by
  intro compiler hserves
  obtain ⟨hafter, hvalue⟩ := hread compiler.attached
    ⟨compiler.registry, compiler.attached, false⟩ ⟨rfl, hserves.yields⟩
  rw [readText_run]
  rcases hr : (Dsl.read path source).run ⟨compiler.registry, compiler.attached, false⟩
    with ⟨_ | node, names⟩
  · rw [hr] at hafter
    refine ⟨⟨hserves.cacheless, hafter.yields⟩, ?_⟩
    rintro found ⟨⟩
  · rw [hr] at hafter hvalue
    refine ⟨⟨hserves.cacheless, hafter.yields⟩, ?_⟩
    rintro found ⟨⟩
    exact hvalue node rfl

/-- **COMPILING A TEXT ENSURES WHAT READING IT ENSURES.** -/
theorem ensures_compileText_of_read : Ensures (Serves N) (compileText path source) Q := by
  unfold compileText
  refine (ensures_cached? _).bind ?_
  rintro _ rfl
  refine (ensures_readText hread).bind ?_
  rintro ⟨node, consulted⟩ hnode
  cases consulted with
  | true => exact .pure hnode
  | false =>
      exact (ensures_issue node).bind fun tree _ =>
        (ensures_remember _ tree).bind fun _ _ => .pure hnode

end

/-- **WHAT IS INHERITED HOLDS OF EVERY TREE THAT A TEXT MAKES.** -/
theorem ensures_compileText (inherited : Inherited N Q) (path source : String) :
    Ensures (Serves N) (compileText path source) Q :=
  ensures_compileText_of_read fun _ =>
    Dsl.ensures_read Dsl.ensures_registered? inherited path source

end Compiler

end Conform
