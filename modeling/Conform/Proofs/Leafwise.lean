import Conform.Proofs.Relocating
import Conform.Proofs.Constancy
import Conform.Proofs.Declared
import Conform.Proofs.Places
import Conform.Validation

/-! # Literals — compiled leaf by leaf

    A literal is nested objects and one-element arrays with texts as its leaves.  Its
    containers add nothing of their own: compiling one is compiling its leaves, in the
    order in which they are declared, each by the compiler that the one before it left.
    All of them come to a tree or the first that does not is the error of the whole
    (`CompilesLeaves`, `compilesLeaves_literal`).

    A leaf is compiled at the place of its declaration, as it is put together on the way
    down.  That is the written place but for one thing: an empty text is taken for the
    root, so members without a name are lost where the literal begins with them
    (`collapsed_text_eq_iff`).  The search for suspended checks writes the whole place. -/

namespace Conform

/-! ## Members without a name -/

namespace Place

/-- The place after the members without a name that it begins with. -/
def collapsed (place : Place) : Place := ⟨place.steps.dropWhile (· == .key "")⟩

/-- The place begins with a member without a name and goes on to another member. -/
def BeginsNameless (place : Place) : Prop :=
  ∃ name more, place.steps = .key "" :: .key name :: more

theorem collapsed_nameless (more : List Step) :
    collapsed ⟨.key "" :: more⟩ = collapsed ⟨more⟩ := rfl

theorem collapsed_of_ne {first : Step} (h : first ≠ .key "") (more : List Step) :
    collapsed ⟨first :: more⟩ = ⟨first :: more⟩ := by
  rw [collapsed, List.dropWhile_cons_of_neg]
  simpa using h

theorem text_items (place : Place) : place.items.text = place.text ++ "[]" := by
  obtain ⟨_ | ⟨first, more⟩⟩ := place
  · rfl
  · exact List.foldl_append

/-- Only a member without a name is written as nothing. -/
theorem text_ne_empty {first : Step} (h : first ≠ .key "") (more : List Step) :
    (Place.mk (first :: more)).text ≠ "" := by
  intro hempty
  have hchars := congrArg String.toList hempty
  rw [toList_text_cons] at hchars
  have hfirst : (firstText first).toList = [] := (List.append_eq_nil_iff.1 hchars).1
  cases first with
  | key name => exact h (congrArg Step.key (String.toList_eq_nil_iff.1 hfirst))
  | index position =>
      have hfirst : ("[" ++ toString position ++ "]").toList = [] := hfirst
      rw [String.toList_append, String.toList_append] at hfirst
      exact nomatch hfirst
  | items => exact nomatch hfirst

/-- What is left of a place is the root, or it begins with a step that is written. -/
theorem collapsed_cases (place : Place) :
    place.steps.dropWhile (· == .key "") = []
      ∨ ∃ first more, place.steps.dropWhile (· == .key "") = first :: more ∧ first ≠ .key "" := by
  cases hrest : place.steps.dropWhile (· == .key "") with
  | nil => exact .inl rfl
  | cons first more =>
      refine .inr ⟨first, more, rfl, ?_⟩
      have hfirst := List.head?_dropWhile_not (· == Step.key "") place.steps
      rw [hrest] at hfirst
      simpa using hfirst

/-- A member's place is put together from the place of its object. -/
theorem memberPath_collapsed (place : Place) (name : String) :
    Compiler.memberPath place.collapsed.text name = (place.key name).collapsed.text := by
  rw [collapsed, collapsed, key, List.dropWhile_append]
  rcases place.collapsed_cases with hroot | ⟨first, more, hmore, hfirst⟩
  · rw [hroot]
    show name = (Place.mk ([Step.key name].dropWhile (· == Step.key ""))).text
    by_cases hname : name = ""
    · rw [hname]
      rfl
    · rw [List.dropWhile_cons_of_neg (by simpa using hname)]
      rfl
  · rw [hmore, Compiler.memberPath, if_neg (text_ne_empty hfirst more)]
    exact (text_key ⟨first :: more⟩ name).symm

/-- The place of the items is put together from the place of their array. -/
theorem itemsPath_collapsed (place : Place) :
    Dsl.itemsPath place.collapsed.text = place.items.collapsed.text := by
  rw [collapsed, collapsed, items, List.dropWhile_append]
  rcases place.collapsed_cases with hroot | ⟨first, more, hmore, hfirst⟩
  · rw [hroot]
    rfl
  · rw [hmore]
    exact (text_items ⟨first :: more⟩).symm

/-! ### What is lost -/

/-- A step is not shorter where it is not the first one. -/
theorem length_firstText_le (step : Step) :
    (firstText step).toList.length ≤ (stepText step).toList.length := by
  cases step with
  | key name =>
      rw [firstText, stepText, String.toList_append, List.length_append]
      exact Nat.le_add_left ..
  | index position => exact Nat.le_refl _
  | items => exact Nat.le_refl _

/-- A path is no longer than its steps as they are written. -/
theorem length_text_le (steps : List Step) :
    (Place.mk steps).text.toList.length ≤ (written steps).length := by
  cases steps with
  | nil => exact Nat.le_refl _
  | cons first more =>
      rw [toList_text_cons, show written (first :: more) = (stepText first).toList ++ written more from rfl,
        List.length_append, List.length_append]
      exact Nat.add_le_add_right (length_firstText_le first) _

/-- After a member without a name every step is written as one that is not the first. -/
theorem toList_text_nameless (more : List Step) :
    (Place.mk (.key "" :: more)).text.toList = written more := toList_text_cons (.key "") more

/-- Collapsing makes no path longer. -/
theorem length_collapsed_le (steps : List Step) :
    (collapsed ⟨steps⟩).text.toList.length ≤ (Place.mk steps).text.toList.length := by
  induction steps with
  | nil => exact Nat.le_refl _
  | cons first more ih =>
      by_cases hfirst : first = .key ""
      · rw [hfirst, collapsed_nameless, toList_text_nameless]
        exact Nat.le_trans ih (length_text_le more)
      · have hsame : collapsed ⟨first :: more⟩ = ⟨first :: more⟩ := collapsed_of_ne hfirst more
        exact Nat.le_of_eq (congrArg (fun place => place.text.toList.length) hsame)

/-- **THE POINT AFTER A MEMBER WITHOUT A NAME IS LOST**, and nothing else is. -/
theorem collapsed_text_eq_iff (place : Place) :
    place.collapsed.text = place.text ↔ ¬ place.BeginsNameless := by
  constructor
  · rintro hsame ⟨name, more, hsteps⟩
    obtain ⟨steps⟩ := place
    obtain rfl : steps = .key "" :: .key name :: more := hsteps
    have hlength := length_collapsed_le (.key name :: more)
    rw [← collapsed_nameless, hsame, toList_text_nameless, written_key, toList_text_cons] at hlength
    exact absurd hlength (Nat.not_succ_le_self _)
  · intro hnamed
    obtain ⟨_ | ⟨first, more⟩⟩ := place
    · rfl
    · by_cases hfirst : first = .key ""
      · rw [hfirst, collapsed_nameless]
        refine String.toList_injective ?_
        rw [toList_text_nameless]
        -- what follows is no member, and so it is written in one way only
        cases more with
        | nil => rfl
        | cons second rest =>
            cases second with
            | key name => exact absurd ⟨name, rest, congrArg (· :: _) hfirst⟩ hnamed
            | index position => exact toList_text_cons (.index position) rest
            | items => exact toList_text_cons .items rest
      · rw [collapsed_of_ne hfirst]

end Place

/-! ## Literals -/

/-- A literal: texts in nested objects and one-element arrays. -/
inductive LiteralSpec where
  | text (source : String)
  | object (fields : List (String × LiteralSpec))
  | array (items : LiteralSpec)

namespace LiteralSpec

mutual

/-- The JSON value that writes the literal. -/
def json : LiteralSpec → Json
  | .text source => .string source
  | .object fields => .object (membersJson fields)
  | .array items => .array [json items]
termination_by structural literal => literal

/-- The JSON values of the members of an object. -/
def membersJson : List (String × LiteralSpec) → List (String × Json)
  | [] => []
  | (name, literal) :: rest => (name, json literal) :: membersJson rest
termination_by structural members => members

end

mutual

/-- The texts of the literal in the order of their declarations, with their places. -/
def sites (place : Place) : LiteralSpec → List (Place × String)
  | .text source => [(place, source)]
  | .object fields => memberSites place fields
  | .array items => sites place.items items
termination_by structural literal => literal

/-- The texts in the members of an object. -/
def memberSites (place : Place) : List (String × LiteralSpec) → List (Place × String)
  | [] => []
  | (name, literal) :: rest => sites (place.key name) literal ++ memberSites place rest
termination_by structural members => members

end

/-- The texts of the leaves, in order. -/
def sources (literal : LiteralSpec) : List String := (literal.sites .root).map Prod.snd

mutual

/-- **MIRRORING**: the tree has the containers of the literal, which ask for nothing and
    are optional, and in them the nodes of its leaves, in order. -/
inductive Mirrors : LiteralSpec → List Node → Node → Prop
  | text (source : String) (node : Node) : Mirrors (.text source) [node] node
  | object {fields : List (String × LiteralSpec)} {nodes : List Node}
      {parts : List (String × Node)} :
      MirrorsMembers fields nodes parts → Mirrors (.object fields) nodes (.object {} parts)
  | array {items : LiteralSpec} {nodes : List Node} {part : Node} :
      Mirrors items nodes part → Mirrors (.array items) nodes (.array {} (some part))

/-- The members of an object under the same names in the same order. -/
inductive MirrorsMembers :
    List (String × LiteralSpec) → List Node → List (String × Node) → Prop
  | nil : MirrorsMembers [] [] []
  | cons {name : String} {literal : LiteralSpec} {rest : List (String × LiteralSpec)}
      {nodes more : List Node} {part : Node} {parts : List (String × Node)} :
      Mirrors literal nodes part → MirrorsMembers rest more parts →
      MirrorsMembers ((name, literal) :: rest) (nodes ++ more) ((name, part) :: parts)

end

end LiteralSpec

/-! ## Leaf by leaf -/

namespace Compiler

variable {α β : Type}

/-- Compiles a text by itself. -/
def alone (compiler : Compiler) (source : String) : Except Error Node × Compiler :=
  (compile (.text source)).run compiler

/-- The compiler after texts were compiled by themselves, one after the other. -/
def afterEach (compiler : Compiler) (sources : List String) : Compiler :=
  sources.foldl (fun compiler source => (compiler.alone source).2) compiler

/-- What texts come to by themselves, one after the other. -/
def outcomes : Compiler → List String → List (Except Error Node)
  | _, [] => []
  | compiler, source :: rest => (compiler.alone source).1 :: outcomes (compiler.alone source).2 rest

/-- Further sources are compiled by the compiler that the first ones leave. -/
theorem outcomes_append (sources more : List String) :
    ∀ compiler, outcomes compiler (sources ++ more)
      = outcomes compiler sources ++ outcomes (compiler.afterEach sources) more := by
  induction sources with
  | nil => exact fun _ => rfl
  | cons source rest ih => exact fun compiler => congrArg (_ :: ·) (ih (compiler.alone source).2)

/-- The first of the leaves that does not come to a tree by itself, and what its error
    is where it stands: the same one, with the place in front of the place that it
    names. -/
inductive FirstRefusal : List (Place × String) → List (Except Error Node) → Error → Prop
  | here {place : Place} {source inner : String} {error : Error} {sites : List (Place × String)}
      {outcomes : List (Except Error Node)} (names : error.site? = some inner) :
      FirstRefusal ((place, source) :: sites) (.error error :: outcomes)
        (error.under place.collapsed.text)
  | later {site : Place × String} {node : Node} {error : Error} {sites : List (Place × String)}
      {outcomes : List (Except Error Node)} :
      FirstRefusal sites outcomes error → FirstRefusal (site :: sites) (.ok node :: outcomes) error

namespace FirstRefusal

variable {sites : List (Place × String)} {outcomes : List (Except Error Node)} {error : Error}

theorem append (h : FirstRefusal sites outcomes error) (more : List (Place × String))
    (others : List (Except Error Node)) :
    FirstRefusal (sites ++ more) (outcomes ++ others) error := by
  induction h with
  | here names => exact .here names
  | later _ ih => exact .later ih

/-- The leaves before may be more, if they come to trees. -/
theorem after (h : FirstRefusal sites outcomes error) (before : List (Place × String))
    (nodes : List Node) (hlength : nodes.length = before.length) :
    FirstRefusal (before ++ sites) (nodes.map .ok ++ outcomes) error := by
  induction before generalizing nodes with
  | nil =>
      obtain rfl : nodes = [] := List.eq_nil_of_length_eq_zero hlength
      exact h
  | cons site rest ih =>
      obtain ⟨node, others, rfl⟩ := List.exists_cons_of_length_eq_add_one hlength
      exact .later (ih others (Nat.succ.inj hlength))

theorem exists_mem (h : FirstRefusal sites outcomes error) : ∃ inner, .error inner ∈ outcomes := by
  induction h with
  | here names => exact ⟨_, List.mem_cons_self⟩
  | later _ ih => exact ih.imp fun _ hmem => List.mem_cons_of_mem _ hmem

end FirstRefusal

/-- The answer that the leaves give: a value that fits their nodes if all of them come to
    one, and otherwise the error of the first that does not. -/
inductive Answers (sites : List (Place × String)) (outcomes : List (Except Error Node))
    (Fits : List Node → α → Prop) : Except Error α → Prop
  | compiles {nodes : List Node} {a : α} :
      outcomes = nodes.map .ok → Fits nodes a → Answers sites outcomes Fits (.ok a)
  | refused {error : Error} :
      FirstRefusal sites outcomes error → Answers sites outcomes Fits (.error error)

theorem Answers.mono {sites : List (Place × String)} {outcomes : List (Except Error Node)}
    {Fits Others : List Node → α → Prop} {answer : Except Error α}
    (h : Answers sites outcomes Fits answer) (hfits : ∀ nodes a, Fits nodes a → Others nodes a) :
    Answers sites outcomes Others answer := by
  cases h with
  | compiles houtcomes ha => exact .compiles houtcomes (hfits _ _ ha)
  | refused hrefused => exact .refused hrefused

/-- There is an answer exactly if every leaf has one by itself. -/
theorem Answers.exists_ok_iff {sites : List (Place × String)} {outcomes : List (Except Error Node)}
    {Fits : List Node → α → Prop} {answer : Except Error α} (h : Answers sites outcomes Fits answer) :
    (∃ a, answer = .ok a) ↔ ∀ outcome ∈ outcomes, ∃ node, outcome = .ok node := by
  cases h with
  | @compiles nodes a houtcomes _ =>
      refine ⟨fun _ outcome hmem => ?_, fun _ => ⟨a, rfl⟩⟩
      rw [houtcomes] at hmem
      obtain ⟨node, -, rfl⟩ := List.mem_map.1 hmem
      exact ⟨node, rfl⟩
  | refused hrefused =>
      refine ⟨fun ⟨_, hok⟩ => (nomatch hok), fun hall => ?_⟩
      obtain ⟨inner, hmem⟩ := hrefused.exists_mem
      obtain ⟨node, hok⟩ := hall _ hmem
      exact nomatch hok

section Binding

variable {x : Compiling α} {f : α → Compiling β} {compiler : Compiler}

/-- A step that is refused is the last one. -/
theorem bind_run_fst_of_error {error : Error} (h : (x.run compiler).1 = .error error) :
    ((x >>= f).run compiler).1 = .error error := by
  rw [bind_run]
  rcases hr : x.run compiler with ⟨outcome, after⟩
  rw [hr] at h
  obtain rfl : outcome = .error error := h
  rfl

/-- What comes next starts from the compiler that the first computation leaves. -/
theorem bind_run_of_ok {a : α} (h : (x.run compiler).1 = .ok a) :
    (x >>= f).run compiler = (f a).run (x.run compiler).2 := by
  rw [bind_run]
  rcases hr : x.run compiler with ⟨outcome, after⟩
  rw [hr] at h
  obtain rfl : outcome = .ok a := h
  rfl

end Binding

/-- A computation that compiles the leaves at `sites`, in order, and puts something
    together from their nodes. -/
structure CompilesLeaves (sites : List (Place × String)) (Fits : List Node → α → Prop)
    (x : Compiling α) : Prop where
  answers : ∀ compiler,
    Answers sites (outcomes compiler (sites.map Prod.snd)) Fits (x.run compiler).1
  leaves : ∀ compiler a, (x.run compiler).1 = .ok a →
    (x.run compiler).2 = compiler.afterEach (sites.map Prod.snd)

theorem length_outcomes (sources : List String) :
    ∀ compiler, (outcomes compiler sources).length = sources.length := by
  induction sources with
  | nil => exact fun _ => rfl
  | cons source rest ih => exact fun compiler => congrArg Nat.succ (ih (compiler.alone source).2)

namespace CompilesLeaves

variable {sites more : List (Place × String)} {Fits : List Node → α → Prop}

theorem pure (a : α) : CompilesLeaves [] (fun nodes b => nodes = [] ∧ b = a) (Pure.pure a) where
  answers _ := .compiles (List.map_nil).symm ⟨rfl, rfl⟩
  leaves _ _ _ := rfl

theorem mono {Others : List Node → α → Prop} {x : Compiling α} (hx : CompilesLeaves sites Fits x)
    (h : ∀ nodes a, Fits nodes a → Others nodes a) : CompilesLeaves sites Others x where
  leaves := hx.leaves
  answers compiler := (hx.answers compiler).mono h

/-- A text is a leaf: it comes to what it comes to by itself, but for the place. -/
theorem text (place : Place) (source : String) :
    CompilesLeaves [(place, source)] (fun nodes node => nodes = [node])
      (compileText place.collapsed.text source) := by
  have hfollows : ∀ compiler, (compileText place.collapsed.text source).run compiler
      = relocated place.collapsed.text (compiler.alone source) := by
    intro compiler
    have h := (followsPlace_compileText source).follows place.collapsed.text "" compiler
    rwa [String.append_empty] at h
  constructor
  · intro compiler
    rw [hfollows]
    show Answers _ [(compiler.alone source).1] _ ((compiler.alone source).1.mapError _)
    cases halone : (compiler.alone source).1 with
    | ok node => exact .compiles List.map_singleton.symm rfl
    | error error =>
        obtain ⟨inner, hinner⟩ := Option.isSome_iff_exists.1
          ((followsPlace_compileText source).names "" compiler error halone)
        exact .refused (.here hinner)
  · intro compiler node _
    rw [hfollows]
    rfl

/-- One computation after another compiles the leaves of both. -/
theorem bind {x : Compiling α} {f : α → Compiling β} {Others : α → List Node → β → Prop}
    (hx : CompilesLeaves sites Fits x) (hf : ∀ a, CompilesLeaves more (Others a) (f a)) :
    CompilesLeaves (sites ++ more)
      (fun nodes b => ∃ first second a, nodes = first ++ second ∧ Fits first a ∧ Others a second b)
      (x >>= f) := by
  have hrun : ∀ compiler a, (x.run compiler).1 = .ok a → (x >>= f).run compiler
      = (f a).run (compiler.afterEach (sites.map Prod.snd)) := by
    intro compiler a ha
    rw [bind_run_of_ok ha, hx.leaves compiler a ha]
  constructor
  · intro compiler
    have hanswers := hx.answers compiler
    rw [List.map_append, outcomes_append]
    cases hfirst : (x.run compiler).1 with
    | error error =>
        rw [hfirst] at hanswers
        rw [bind_run_fst_of_error hfirst]
        cases hanswers with
        | refused hrefused => exact .refused (hrefused.append _ _)
    | ok a =>
        rw [hfirst] at hanswers
        rw [hrun compiler a hfirst]
        cases hanswers with
        | @compiles nodes _ houtcomes hfits =>
            -- all leaves before came to trees, so a refusal is one of those after them
            have hlength : nodes.length = sites.length := by
              have h := congrArg List.length houtcomes
              rw [length_outcomes, List.length_map, List.length_map] at h
              exact h.symm
            rw [houtcomes]
            have hsecond := (hf a).answers (compiler.afterEach (sites.map Prod.snd))
            generalize ((f a).run (compiler.afterEach (sites.map Prod.snd))).1 = answer at hsecond ⊢
            cases hsecond with
            | @compiles others b hothers hb =>
                rw [hothers]
                exact .compiles (List.map_append ..).symm ⟨nodes, others, a, rfl, hfits, hb⟩
            | refused hrefused => exact .refused (hrefused.after sites nodes hlength)
  · intro compiler b hb
    cases hfirst : (x.run compiler).1 with
    | error error => exact nomatch (bind_run_fst_of_error hfirst).symm.trans hb
    | ok a =>
        rw [hrun compiler a hfirst] at hb ⊢
        rw [(hf a).leaves _ b hb, List.map_append, afterEach, afterEach, afterEach, List.foldl_append]

/-- What is made of the value needs no further leaf. -/
theorem map {x : Compiling α} (hx : CompilesLeaves sites Fits x) (f : α → β) :
    CompilesLeaves sites (fun nodes b => ∃ a, Fits nodes a ∧ b = f a)
      (x >>= fun a => Pure.pure (f a)) := by
  have h := hx.bind fun a => CompilesLeaves.pure (f a)
  rw [List.append_nil] at h
  refine h.mono ?_
  rintro _ _ ⟨nodes, _, a, rfl, hfits, rfl, rfl⟩
  rw [List.append_nil]
  exact ⟨a, hfits, rfl⟩

end CompilesLeaves

open LiteralSpec

mutual

/-- **A LITERAL IS COMPILED LEAF BY LEAF**, at every place: its tree mirrors it. -/
theorem compilesLeaves_literal : ∀ (literal : LiteralSpec) (place : Place),
    CompilesLeaves (literal.sites place) (Mirrors literal)
      (compileAt place.collapsed.text (.ofJson literal.json))
  | .text source, place => by
      refine (CompilesLeaves.text place source).mono ?_
      rintro _ node rfl
      exact .text source node
  | .object fields, place => by
      refine ((compilesLeaves_members fields place).map (Node.object {})).mono ?_
      rintro nodes _ ⟨parts, hparts, rfl⟩
      exact .object hparts
  | .array items, place => by
      have hitems := compilesLeaves_literal items place.items
      rw [← Place.itemsPath_collapsed] at hitems
      refine (hitems.map fun part => Node.array {} (some part)).mono ?_
      rintro nodes _ ⟨part, hpart, rfl⟩
      exact .array hpart
termination_by structural literal => literal

/-- The leaves of members are compiled member by member. -/
theorem compilesLeaves_members : ∀ (fields : List (String × LiteralSpec)) (place : Place),
    CompilesLeaves (memberSites place fields) (MirrorsMembers fields)
      (compileFields place.collapsed.text (Spec.ofMembers (membersJson fields)))
  | [], place => by
      refine (CompilesLeaves.pure []).mono ?_
      rintro _ _ ⟨rfl, rfl⟩
      exact .nil
  | (name, literal) :: rest, place => by
      have hliteral := compilesLeaves_literal literal (place.key name)
      rw [← Place.memberPath_collapsed] at hliteral
      refine (hliteral.bind fun part =>
        (compilesLeaves_members rest place).map fun parts => (name, part) :: parts).mono ?_
      rintro _ _ ⟨nodes, more, part, rfl, hpart, parts, hparts, rfl⟩
      exact .cons hpart hparts
termination_by structural fields => fields

end

/-- Where every name stands for one tree, no leaf makes a difference to another: each comes
    to what it comes to by the compiler as it is. -/
theorem outcomes_of_isConstant {start compiler : Compiler} (h : start.Alike compiler)
    (hstart : start.IsFaithful) (hfaithful : compiler.IsFaithful) (sources : List String) :
    outcomes compiler sources = sources.map fun source => (start.alone source).1 := by
  induction sources generalizing compiler with
  | nil => rfl
  | cons source rest ih =>
      obtain ⟨hsame, -⟩ := compile_of_alike h hstart hfaithful (.text source)
      obtain ⟨-, hafter⟩ := compile_of_alike h.symm hfaithful hstart (.text source)
      have hrest := @ih (compiler.alone source).2 (h.trans hafter)
        (isFaithful_run (transparent_compile (.text source)) hfaithful)
      rw [outcomes, List.map_cons, hrest]
      exact congrArg (· :: _) hsame.symm

end Compiler

/-! ## Suspended checks of the leaves -/

namespace LiteralSpec

mutual

theorem Mirrors.length : ∀ {literal : LiteralSpec} {nodes : List Node} {tree : Node},
    Mirrors literal nodes tree → ∀ place, (literal.sites place).length = nodes.length
  | _, _, _, .text _ _ => fun _ => rfl
  | _, _, _, .object hparts => hparts.length
  | _, _, _, .array hpart => fun place => hpart.length place.items

theorem MirrorsMembers.length : ∀ {fields : List (String × LiteralSpec)} {nodes : List Node}
    {parts : List (String × Node)}, MirrorsMembers fields nodes parts →
    ∀ place, (memberSites place fields).length = nodes.length
  | _, _, _, .nil => fun _ => rfl
  | _, _, _, .cons hpart hparts => by
      intro place
      rw [memberSites, List.length_append, hpart.length, hparts.length, List.length_append]

end

/-- The first suspended check of the leaves, at the place where its leaf is declared. -/
def firstSuspendedLeaf? (leaves : List ((Place × String) × Node)) : Option Place :=
  leaves.findSome? fun leaf => leaf.2.firstSuspended? leaf.1.1

mutual

/-- The search for suspended checks goes through the leaves in order. -/
theorem Mirrors.firstSuspended? : ∀ {literal : LiteralSpec} {nodes : List Node} {tree : Node},
    Mirrors literal nodes tree → ∀ place,
      tree.firstSuspended? place = firstSuspendedLeaf? ((literal.sites place).zip nodes)
  | _, _, _, .text _ _ => by
      intro place
      exact List.findSome?_singleton.symm
  | _, _, _, .object hparts => hparts.firstSuspended?
  | _, _, _, .array hpart => fun place => hpart.firstSuspended? place.items

/-- The first suspended check of mirrored members is that of the first suspended leaf. -/
theorem MirrorsMembers.firstSuspended? : ∀ {fields : List (String × LiteralSpec)} {nodes : List Node}
    {parts : List (String × Node)}, MirrorsMembers fields nodes parts → ∀ place,
      Node.firstSuspendedField? place parts
        = firstSuspendedLeaf? ((memberSites place fields).zip nodes)
  | _, _, _, .nil => fun _ => rfl
  | _, _, _, .cons hpart hparts => by
      intro place
      rw [memberSites, firstSuspendedLeaf?, List.zip_append (hpart.length _), List.findSome?_append,
        ← Node.orElse_eq_or, Node.firstSuspendedField?, hpart.firstSuspended?,
        hparts.firstSuspended?]
      rfl

end

/-- A leaf with a suspended check of its own, after leaves without any, is the one that a
    validation names. -/
theorem Mirrors.validate_suspended {literal : LiteralSpec} {nodes : List Node} {tree : Node}
    (h : Mirrors literal nodes tree) {position : Nat} {site : Place} {source : String} {node : Node}
    (hsite : (literal.sites .root)[position]? = some (site, source))
    (hnode : nodes[position]? = some node) (hsuspended : node.isSuspended = true)
    (hbefore : ∀ earlier ∈ nodes.take position, earlier.IsImmediate) (rules : Rules) (value : Json) :
    rules.validate tree value = pure (.error (.suspendedCheck site.text)) := by
  have hfirst : tree.firstSuspended? .root = some site := by
    rw [h.firstSuspended? .root, firstSuspendedLeaf?, List.findSome?_eq_some_iff]
    have hleaf : ((literal.sites .root).zip nodes)[position]? = some ((site, source), node) :=
      List.getElem?_zip_eq_some.2 ⟨hsite, hnode⟩
    obtain ⟨hlt, hget⟩ := List.getElem?_eq_some_iff.1 hleaf
    have hsplit := (List.take_append_drop position ((literal.sites .root).zip nodes)).symm
    rw [List.drop_eq_getElem_cons hlt, hget] at hsplit
    refine ⟨_, _, _, hsplit, ?_, ?_⟩
    · rw [Node.firstSuspended?_eq_ite, if_pos hsuspended]
    · intro leaf hmem
      rw [List.zip, List.take_zipWith] at hmem
      exact (Node.firstSuspended?_eq_none_iff _ _).2 (hbefore leaf.2 (List.of_mem_zip hmem).2)
  rw [Rules.validate, hfirst]
  rfl

end LiteralSpec

/-! ## Compiling a literal -/

namespace Compiler

open LiteralSpec

/-- What compiling a literal comes to, as its leaves have it. -/
structure Leafwise (literal : LiteralSpec) (compiler : Compiler) : Prop where
  /-- It compiles exactly if every leaf does by itself, each after the one before. -/
  compiles_iff : (∃ tree, ((compile (.ofJson literal.json)).run compiler).1 = .ok tree)
    ↔ ∀ outcome ∈ compiler.outcomes literal.sources, ∃ node, outcome = .ok node
  /-- The tree mirrors the literal; an error is that of the first leaf that is refused. -/
  answers : Answers (literal.sites .root) (compiler.outcomes literal.sources) (Mirrors literal)
    ((compile (.ofJson literal.json)).run compiler).1
  /-- With names that stand for one tree each, a leaf does not depend on those before. -/
  by_themselves : compiler.IsFaithful → compiler.registry.IsConstant →
    compiler.outcomes literal.sources = literal.sources.map fun source => (compiler.alone source).1
  /-- The place in front of an error is the written one, unless its point is lost. -/
  writes_place : ∀ leaf ∈ literal.sites .root,
    leaf.1.collapsed.text = leaf.1.text ↔ ¬ leaf.1.BeginsNameless
  /-- A suspended check of a leaf, after leaves without any, is refused at the written place. -/
  refuses_suspended : ∀ nodes tree, Mirrors literal nodes tree →
    ∀ position site source node, (literal.sites .root)[position]? = some (site, source) →
      nodes[position]? = some node → node.isSuspended = true →
      (∀ earlier ∈ nodes.take position, earlier.IsImmediate) →
      ∀ rules value, Rules.validate rules tree value = pure (.error (.suspendedCheck site.text))

/-- **LITERALS ARE COMPILED LEAF BY LEAF**, by every compiler. -/
theorem literals_compile_leafwise (literal : LiteralSpec) (compiler : Compiler) :
    Leafwise literal compiler := by
  have hanswers := (compilesLeaves_literal literal .root).answers compiler
  exact {
    compiles_iff := hanswers.exists_ok_iff
    answers := hanswers
    by_themselves := fun hfaithful hconstant =>
      outcomes_of_isConstant ⟨.refl hconstant, rfl⟩ hfaithful hfaithful literal.sources
    writes_place := fun leaf _ => leaf.1.collapsed_text_eq_iff
    refuses_suspended := fun _ _ hmirrors _ _ _ _ hsite hnode hsuspended hbefore rules value =>
      hmirrors.validate_suspended hsite hnode hsuspended hbefore rules value }

/-- A text in a member of a member without a name. -/
def namelessLiteral : LiteralSpec := .object [("", .object [("a", .text "nope")])]

/-- **A MEMBER WITHOUT A NAME LOSES ITS POINT**: the error of the leaf is not the one that
    it has by itself under the place where it is declared, and a suspended check in its
    stead is named at that place. -/
theorem nameless_member_loses_point :
    ∃ site error, namelessLiteral.sites .root = [(site, "nope")] ∧ site.text = ".a"
      ∧ compiled (.text "nope") = .error error
      ∧ compiled (.ofJson namelessLiteral.json) = .error (.unknownType "a" "nope")
      ∧ error.under site.text = .unknownType ".a" "nope"
      ∧ ∀ tree node, Mirrors namelessLiteral [node] tree → node.isSuspended = true →
        ∀ rules value, Rules.validate rules tree value = pure (.error (.suspendedCheck ".a")) := by
  have hname : Dsl.Outline.ofText "nope".toList = .named false "nope".toList := by
    rw [Dsl.Outline.ofText]
    rfl
  have halone : compiled (.text "nope") = .error (.unknownType "" "nope") := by
    unfold compiled compile compileAt compileText readText Dsl.read
    rw [hname]
    rfl
  have hmember : compiled (.ofJson namelessLiteral.json) = .error (.unknownType "a" "nope") := by
    simp only [compiled, compile, namelessLiteral, json, membersJson, Spec.ofJson, Spec.ofMembers,
      compileAt, compileFields]
    unfold compileText readText Dsl.read
    rw [hname]
    rfl
  refine ⟨⟨[.key "", .key "a"]⟩, _, rfl, rfl, halone, hmember, rfl, ?_⟩
  intro tree node hmirrors hsuspended rules value
  have hsite : (namelessLiteral.sites .root)[0]? = some (⟨[.key "", .key "a"]⟩, "nope") := rfl
  exact hmirrors.validate_suspended hsite rfl hsuspended (fun _ h => absurd h List.not_mem_nil) rules value

end Compiler

end Conform
