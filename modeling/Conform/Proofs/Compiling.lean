import Conform.Compiler

/-! # Compiling — what passes through every step

    A specification is compiled step by step: its texts are compiled, and everything
    else is put together from what its parts give, or refused.  A property of
    computations that texts have and that passes through these steps is a property of
    compiling whatever the specification (`Stepwise.compileAt`). -/

namespace Conform.Compiler

/-- The property holds of the computations that compile texts, and of what is put
    together from computations that have it. -/
structure Stepwise (P : (α : Type) → Compiling α → Prop) : Prop where
  pure : ∀ {α : Type} (a : α), P α (pure a)
  throw : ∀ {α : Type} (error : Error), P α (throw error)
  bind : ∀ {α β : Type} {x : Compiling α} {f : α → Compiling β},
    P α x → (∀ a, P β (f a)) → P β (x >>= f)
  text : ∀ path source, P Node (compileText path source)

namespace Stepwise

variable {P : (α : Type) → Compiling α → Prop} (h : Stepwise P)

include h

/-- Changing a result afterwards keeps the property, as it adds a step that does nothing else. -/
theorem map {α β : Type} {x : Compiling α} (f : α → β) (hx : P α x) : P β (f <$> x) :=
  h.bind hx fun a => h.pure (f a)

/-- A computation that only returns or only fails has the property. -/
theorem outcome {α : Type} (outcome : Except Error α) :
    P α (ExceptT.mk (Pure.pure outcome) : Compiling α) := by
  cases outcome with
  | error error => exact h.throw error
  | ok a => exact h.pure a

theorem checkReference (path reference : String) : P Unit (checkReference path reference) := by
  unfold Compiler.checkReference
  by_cases hmalformed : isMalformedReference reference = true
  · rw [if_pos hmalformed]
    exact h.throw _
  · rw [if_neg hmalformed]
    exact h.pure _

mutual

/-- **WHAT PASSES THROUGH EVERY STEP HOLDS OF COMPILING A SPECIFICATION.** -/
theorem compileAt : ∀ (path : String) (spec : Spec), P Node (compileAt path spec)
  | path, .text source => by
      unfold Compiler.compileAt
      exact h.text path source
  | path, .object fields => by
      unfold Compiler.compileAt
      exact h.bind (compileFields path fields) fun _ => h.pure _
  | path, .array items => by
      unfold Compiler.compileAt
      exact h.bind (compileAt (Dsl.itemsPath path) items) fun _ => h.pure _
  | path, .field field => by
      unfold Compiler.compileAt
      exact h.bind (h.text path field.base) fun _ => h.outcome _
  | path, .node node => by
      unfold Compiler.compileAt
      exact h.pure node
  | path, .matching reference cases => by
      unfold Compiler.compileAt
      exact h.bind (h.checkReference path reference) fun _ =>
        h.bind (compileCases path [] cases) fun _ => h.pure _
  | path, .switch field yes none => by
      unfold Compiler.compileAt
      exact h.bind (h.checkReference path field) fun _ =>
        h.bind (compileAt path yes) fun _ => h.pure _
  | path, .switch field yes (some no) => by
      unfold Compiler.compileAt
      exact h.bind (h.checkReference path field) fun _ =>
        h.bind (compileAt path yes) fun _ =>
          h.bind (compileAt path no) fun _ => h.pure _
  | path, .chain (.error fault) => by
      unfold Compiler.compileAt
      exact h.throw _
  | path, .chain (.ok ⟨entries, fallback⟩) => by
      unfold Compiler.compileAt
      exact h.bind (compileEntries path entries) fun _ =>
        h.bind (compileFallback path fallback) fun _ => h.pure _
  | path, .unsupported value => by
      unfold Compiler.compileAt
      exact h.throw _
termination_by structural _ spec => spec

/-- **FIELDS ARE COMPILED ONE BY ONE**, so the property carries over from their declarations. -/
theorem compileFields : ∀ (path : String) (fields : List (String × Spec)),
    P (List (String × Node)) (compileFields path fields)
  | path, [] => by
      unfold Compiler.compileFields
      exact h.pure _
  | path, (name, spec) :: rest => by
      unfold Compiler.compileFields
      exact h.bind (compileAt (memberPath path name) spec) fun _ =>
        h.bind (compileFields path rest) fun _ => h.pure _
termination_by structural _ fields => fields

/-- Cases are fields whose names are looked at first. -/
theorem compileCases : ∀ (path : String) (seen : List String) (cases : List (String × Spec)),
    P (List (String × Node)) (compileCases path seen cases)
  | path, seen, [] => by
      unfold Compiler.compileCases
      exact h.pure _
  | path, seen, (key, spec) :: rest => by
      unfold Compiler.compileCases
      -- the case is compiled before its key is found to be taken
      refine h.bind (compileAt (casePath path key) spec) fun node => ?_
      have hrest := h.bind (compileCases path (key :: seen) rest)
        fun cases => h.pure ((key, node) :: cases)
      by_cases htaken : seen.contains key = true
      · rw [if_pos htaken]
        exact h.bind (h.throw _) fun _ => hrest
      · rw [if_neg htaken]
        exact hrest
termination_by structural _ _ cases => cases

/-- The entries of a chain are compiled in order, and a condition is compiled by doing nothing. -/
theorem compileEntries : ∀ (path : String) (entries : List (Chain.Entry Spec)),
    P (List (Chain.Entry Node)) (compileEntries path entries)
  | path, [] => by
      unfold Compiler.compileEntries
      exact h.pure _
  | path, ⟨kind, conditions, target, message, throws⟩ :: rest => by
      unfold Compiler.compileEntries
      exact h.bind (compileTarget path target) fun _ =>
        h.bind (compileEntries path rest) fun _ => h.pure _
termination_by structural _ entries => entries

theorem compileTarget : ∀ (path : String) (target : Option Spec),
    P (Option Node) (compileTarget path target)
  | path, none => by
      unfold Compiler.compileTarget
      exact h.pure _
  | path, some spec => by
      unfold Compiler.compileTarget
      exact h.map some (compileAt path spec)
termination_by structural _ target => target

theorem compileFallback : ∀ (path : String) (fallback : Chain.Fallback Spec),
    P (Chain.Fallback Node) (compileFallback path fallback)
  | path, .undefined => by
      unfold Compiler.compileFallback
      exact h.pure _
  | path, .nothing => by
      unfold Compiler.compileFallback
      exact h.pure _
  | path, .target spec => by
      unfold Compiler.compileFallback
      exact h.map Chain.Fallback.target (compileAt path spec)
termination_by structural _ fallback => fallback

end

end Stepwise

end Conform.Compiler
