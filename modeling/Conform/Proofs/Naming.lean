import Conform.Dsl.Tree

/-! # Naming — when a text denotes a tree by itself

    A text is read with a registry at hand, and the registry may change what is
    read.  A reading that ended well and did not consult the registry has asked
    the built-in types only.  So it depends on nothing but the text: with any
    registry, attached or not, and at any place, the same tree is read and the
    registry stays as it was.

    A reading is a family of computations, one for each place.  Such a family is
    STEADY when consulting is never forgotten and an unconsulted success is
    repeated everywhere; steadiness passes through every step of a reading. -/

namespace Conform.Dsl

open Conform.Text (Chars)

namespace Naming

variable {α β : Type}

theorem pure_run (a : α) (names : Names) :
    (pure a : Naming α).run names = (.ok a, names) := rfl

/-- A step that fails is the last one. -/
theorem bind_run_error {x : Naming α} {f : α → Naming β} {names after : Names} {error : Error}
    (h : x.run names = (.error error, after)) :
    (x >>= f).run names = (.error error, after) := by
  show (x.run >>= fun result => ExceptT.bindCont f result) names = _
  show ExceptT.bindCont f (x.run names).1 (x.run names).2 = _
  rw [h]
  rfl

/-- A step that succeeds hands over its value and the names. -/
theorem bind_run_ok {x : Naming α} {f : α → Naming β} {names after : Names} {a : α}
    (h : x.run names = (.ok a, after)) :
    (x >>= f).run names = (f a).run after := by
  show ExceptT.bindCont f (x.run names).1 (x.run names).2 = _
  rw [h]
  rfl

/-- **STEADINESS**: consulting is remembered, and a success without it is the
    same success at every place and with all names. -/
structure Steady (x : String → Naming α) : Prop where
  remembers : ∀ path names, names.consulted = true →
    ((x path).run names).2.consulted = true
  repeats : ∀ path names a after, (x path).run names = (.ok a, after) →
    after.consulted = false → ∀ place other, (x place).run other = (.ok a, other)

/-- A result at hand is steady: it looks at no name. -/
theorem steady_pure (a : α) : Steady fun _ => (pure a : Naming α) where
  remembers := fun _ _ h => h
  repeats := by
    intro path names b after h _ place other
    rw [pure_run] at h
    have hb : a = b := Except.ok.inj (congrArg Prod.fst h)
    rw [pure_run, hb]

/-- A failure is steady, though it may name the path. -/
theorem steady_throw (error : String → Error) :
    Steady fun path => (throw (error path) : Naming α) where
  remembers := fun _ _ h => h
  repeats := by
    intro path names b after h
    exact nomatch congrArg Prod.fst h

/-- One steady step after another is steady. -/
theorem Steady.bind {x : String → Naming α} {f : α → String → Naming β}
    (hx : Steady x) (hf : ∀ a, Steady (f a)) :
    Steady fun path => x path >>= fun a => f a path where
  remembers := by
    intro path names hc
    have h1 := hx.remembers path names hc
    rcases hr : (x path).run names with ⟨outcome, after⟩
    rw [hr] at h1
    cases outcome with
    | error error =>
        rw [bind_run_error hr]
        exact h1
    | ok a =>
        rw [bind_run_ok hr]
        exact (hf a).remembers path after h1
  repeats := by
    intro path names b after h hc place other
    rcases hr : (x path).run names with ⟨outcome, between⟩
    cases outcome with
    | error error =>
        rw [bind_run_error hr] at h
        exact nomatch congrArg Prod.fst h
    | ok a =>
        rw [bind_run_ok hr] at h
        -- had the first step consulted the registry, the second would still know
        have hb : between.consulted = false := by
          cases hb : between.consulted with
          | false => rfl
          | true =>
              have h2 := (hf a).remembers path between hb
              rw [h, hc] at h2
              exact nomatch h2
        have h3 := hx.repeats path names a between hr hb place other
        rw [bind_run_ok h3]
        exact (hf a).repeats path between b after h hc place other

/-- What is steady at every place is steady at places derived from them. -/
theorem Steady.at {x : String → Naming α} (hx : Steady x) (place : String → String) :
    Steady fun path => x (place path) where
  remembers := fun path => hx.remembers (place path)
  repeats := fun path names a after h hc other =>
    hx.repeats (place path) names a after h hc (place other)

end Naming

open Naming

/-! ## The steps of a reading -/

/-- The registry gives an answer, and that is remembered, or nothing happens. -/
theorem registered?_run (name : String) (names : Names) :
    (∃ node registry, (registered? name).run names
        = (.ok (some node), { names with registry := registry, consulted := true }))
      ∨ (registered? name).run names = (.ok none, names) := by
  by_cases ha : names.attached = true
  · rcases hr : names.registry.resolve? name with ⟨_ | node, registry⟩
    · refine Or.inr ?_
      show (if names.attached = true then _ else _ : Naming (Option Node)).run names = _
      rw [if_pos ha, hr]
      rfl
    · refine Or.inl ⟨node, registry, ?_⟩
      show (if names.attached = true then _ else _ : Naming (Option Node)).run names = _
      rw [if_pos ha, hr]
      rfl
  · refine Or.inr ?_
    show (if names.attached = true then _ else _ : Naming (Option Node)).run names = _
    rw [if_neg ha]
    rfl

/-- Resolving a name is steady: an answer of the registry is remembered, and
    without an answer there is no success. -/
theorem steady_resolve (name : Chars) : Steady fun path => resolve path name := by
  unfold resolve
  cases BaseType.ofName? (String.ofList name) with
  | some base => exact steady_pure _
  | none =>
      refine ⟨?_, ?_⟩
      · intro path names hc
        rcases registered?_run (String.ofList name) names with ⟨node, registry, hr⟩ | hr
        · rw [bind_run_ok hr]
          rfl
        · rw [bind_run_ok hr]
          exact hc
      · intro path names a after h hc
        -- without an answer the name is unresolved, so there was one
        rcases registered?_run (String.ofList name) names with ⟨node, registry, hr⟩ | hr
        · rw [bind_run_ok hr] at h
          have hafter : _ = after := congrArg Prod.snd h
          rw [← hafter] at hc
          exact nomatch hc
        · rw [bind_run_ok hr] at h
          exact nomatch congrArg Prod.fst h

/-- An outcome at hand is steady, though its fault may name the path. -/
theorem steady_settle {α : Type} (value : Except Fault α) :
    Steady fun path => settle path value := by
  cases value with
  | ok value => exact steady_pure value
  | error fault => exact steady_throw fun path => fault.at path

/-! ## Whole readings -/

mutual

/-- The tree of an outline is read steadily. -/
theorem Outline.steady_node : ∀ outline : Outline, Steady fun path => outline.node path
  | .fault flaw => steady_throw fun path => flaw.at path
  | .named required name => by
      unfold Outline.node
      exact (steady_resolve name).bind fun node => steady_pure _
  | .choice required hint body => by
      unfold Outline.node
      exact (steady_settle _).bind fun _ => steady_pure _
  | .bounded required name body rest => by
      unfold Outline.node
      exact (steady_resolve name).bind fun node =>
        (steady_settle _).bind fun _ => steady_pure _
  | .array required clause none => by
      unfold Outline.node
      exact (steady_settle _).bind fun _ => steady_pure _
  | .array required clause (some items) => by
      unfold Outline.node
      exact ((Outline.steady_node items).at itemsPath).bind fun _ =>
        (steady_settle _).bind fun _ => steady_pure _
  | .union required members => by
      unfold Outline.node
      exact (Outline.steady_nodes members).bind fun _ => steady_pure _
termination_by structural outline => outline

/-- The trees of the members of a union are read steadily. -/
theorem Outline.steady_nodes :
    ∀ outlines : List Outline, Steady fun path => Outline.nodes path outlines
  | [] => by
      unfold Outline.nodes
      exact steady_pure _
  | outline :: rest => by
      unfold Outline.nodes
      exact (Outline.steady_node outline).bind fun _ =>
        (Outline.steady_nodes rest).bind fun _ => steady_pure _
termination_by structural outlines => outlines

end

/-- A text denotes a tree BY ITSELF when the tree is what reading it gives, at
    every place and whatever the registry, which is left as it is. -/
def DenotesAlone (source : String) (node : Node) : Prop :=
  ∀ path names, (read path source).run names = (.ok node, names)

/-- **WHAT THE REGISTRY DID NOT ANSWER IS IN THE TEXT**: a success for which the
    registry was not consulted is what the text denotes by itself. -/
theorem denotesAlone_of_not_consulted {path source : String} {names after : Names} {node : Node}
    (h : (read path source).run names = (.ok node, after)) (hc : after.consulted = false) :
    DenotesAlone source node :=
  (Outline.steady_node (Outline.ofText source.toList)).repeats path names node after h hc

end Conform.Dsl
