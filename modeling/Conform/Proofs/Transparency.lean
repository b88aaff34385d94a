import Conform.Proofs.Cache
import Conform.Proofs.Compiling
import Conform.Proofs.Naming
import Conform.Proofs.Session

/-! # Transparency — a cache changes no outcome

    A compiler is set beside one that has the same registry and no cache.  What
    the first one has cached under a text is what the text denotes by itself
    (`IsFaithful`), so an answer out of the cache is the answer that reading the
    text would have given, and neither of them calls a factory.

    A computation is TRANSPARENT when the two compilers come to the same outcome
    with it and stand beside each other again.  Transparency passes through every
    step of a compilation, hence through whole sessions. -/

namespace Conform.Compiler

open Conform.Dsl (DenotesAlone denotesAlone_of_not_consulted)

variable {α β : Type}

/-- Every tree cached under a text, too old or not, is what the text denotes by
    itself. -/
def IsFaithful (compiler : Compiler) : Prop :=
  ∀ cache, compiler.cache = some cache → ∀ entry ∈ cache.entries, ∀ source,
    entry.key = textKey source → DenotesAlone source entry.value.node

/-- The compiler without its cache. -/
def uncached (compiler : Compiler) : Compiler := { compiler with cache := none }

/-- A faithful compiler beside one without cache that has the same registry. -/
structure Beside (compiler plain : Compiler) : Prop where
  faithful : compiler.IsFaithful
  cacheless : plain.cache = none
  registry : compiler.registry = plain.registry
  attached : compiler.attached = plain.attached

/-- The same outcome beside each other, and beside each other afterwards. -/
def Transparent (x : Compiling α) : Prop :=
  ∀ compiler plain, Beside compiler plain →
    (x.run compiler).1 = (x.run plain).1 ∧ Beside (x.run compiler).2 (x.run plain).2

/-! ## Steps -/

/-- One step after another: an error ends them, a value goes on. -/
theorem bind_run (x : Compiling α) (f : α → Compiling β) (compiler : Compiler) :
    (x >>= f).run compiler
      = match x.run compiler with
        | (.ok a, after) => (f a).run after
        | (.error error, after) => (.error error, after) := by
  show ExceptT.bindCont f (x.run compiler).1 (x.run compiler).2 = _
  rcases x.run compiler with ⟨_ | a, after⟩ <;> rfl

theorem transparent_pure (a : α) : Transparent (pure a : Compiling α) :=
  fun _ _ h => ⟨rfl, h⟩

theorem transparent_throw (error : Error) : Transparent (throw error : Compiling α) :=
  fun _ _ h => ⟨rfl, h⟩

/-- After a transparent step, it is enough that the next one is transparent for
    the values that the first one can yield. -/
theorem Transparent.bind_of_run {x : Compiling α} {f : α → Compiling β} (hx : Transparent x)
    (hf : ∀ compiler a after, x.run compiler = (.ok a, after) → Transparent (f a)) :
    Transparent (x >>= f) := by
  intro compiler plain h
  obtain ⟨h1, h2⟩ := hx compiler plain h
  rw [bind_run, bind_run]
  rcases hc : x.run compiler with ⟨outcome, after⟩
  rcases hp : x.run plain with ⟨outcome', after'⟩
  rw [hc, hp] at h1 h2
  have h1 : outcome = outcome' := h1
  subst h1
  cases outcome with
  | error error => exact ⟨rfl, h2⟩
  | ok a => exact hf compiler a after hc after after' h2

/-- **TRANSPARENT COMPUTATIONS COMPOSE**: the cache stays faithful in between. -/
theorem Transparent.bind {x : Compiling α} {f : α → Compiling β} (hx : Transparent x)
    (hf : ∀ a, Transparent (f a)) : Transparent (x >>= f) :=
  hx.bind_of_run fun _ a _ _ => hf a

/-! ## The cache -/

theorem isFaithful_lookup {compiler : Compiler} {cache : Cache Tree} (key : String)
    (h : compiler.IsFaithful) (hc : compiler.cache = some cache) :
    IsFaithful { compiler with cache := some (cache.lookup compiler.now key).2 } := by
  intro left hl entry hmem
  obtain rfl : (cache.lookup compiler.now key).2 = left := Option.some.inj hl
  exact h cache hc entry (Cache.mem_of_mem_lookup hmem)

theorem textKey_injective {source other : String} (h : textKey source = textKey other) :
    source = other := by
  have h1 := congrArg String.toList h
  simp only [textKey, String.toList_append, List.append_cancel_left_eq] at h1
  exact String.toList_injective h1

/-- A faithful compiler takes an entry that is no text's, or that holds what its
    text denotes. -/
theorem isFaithful_remember (compiler : Compiler) {key : String} (tree : Tree)
    (h : compiler.IsFaithful)
    (hk : ∀ source, key = textKey source → DenotesAlone source tree.node) :
    ((remember key tree).run compiler).2.IsFaithful := by
  intro left hl entry hmem
  obtain ⟨cache, hc, rfl⟩ := Option.map_eq_some_iff.1 hl
  rcases Cache.mem_of_mem_insert hmem with rfl | hold
  · exact hk
  · exact h cache hc entry hold

theorem cached?_run_none {compiler : Compiler} (key : String) (hc : compiler.cache = none) :
    (cached? key).run compiler = (.ok none, compiler) := by
  obtain ⟨registry, attached, cache, now, issued⟩ := compiler
  obtain rfl : cache = none := hc
  rfl

theorem cached?_run_some {compiler : Compiler} {cache : Cache Tree} (key : String)
    (hc : compiler.cache = some cache) :
    (cached? key).run compiler
      = (.ok (cache.lookup compiler.now key).1,
          { compiler with cache := some (cache.lookup compiler.now key).2 }) := by
  obtain ⟨registry, attached, own, now, issued⟩ := compiler
  obtain rfl : own = some cache := hc
  rfl

/-! ## Texts -/

/-- A text is read with the registry, if there is one, and what was asked of it is noted. -/
theorem readText_run (path source : String) (compiler : Compiler) :
    (readText path source).run compiler
      = match (Dsl.read path source).run ⟨compiler.registry, compiler.attached, false⟩ with
        | (.ok node, names) => (.ok (node, names.consulted), { compiler with registry := names.registry })
        | (.error error, names) => (.error error, { compiler with registry := names.registry }) := by
  unfold readText
  rw [bind_run]
  simp only [show (get : Compiling Compiler).run compiler = (.ok compiler, compiler) from rfl]
  rcases (Dsl.read path source).run ⟨compiler.registry, compiler.attached, false⟩
    with ⟨_ | node, names⟩
  · rfl
  · rfl

/-- Reading does not ask the cache. -/
theorem transparent_readText (path source : String) : Transparent (readText path source) := by
  intro compiler plain h
  rw [readText_run, readText_run, ← h.registry, ← h.attached]
  rcases (Dsl.read path source).run ⟨compiler.registry, compiler.attached, false⟩
    with ⟨_ | node, names⟩
  · exact ⟨rfl, h.faithful, h.cacheless, rfl, rfl⟩
  · exact ⟨rfl, h.faithful, h.cacheless, rfl, rfl⟩

/-- What was read without the registry is what the text denotes by itself. -/
theorem denotesAlone_of_readText {path source : String} {compiler after : Compiler} {node : Node}
    (h : (readText path source).run compiler = (.ok (node, false), after)) :
    DenotesAlone source node := by
  rw [readText_run] at h
  rcases hr : (Dsl.read path source).run ⟨compiler.registry, compiler.attached, false⟩
    with ⟨_ | found, names⟩
  · rw [hr] at h
    exact nomatch congrArg Prod.fst h
  · rw [hr] at h
    have hpair : (found, names.consulted) = (node, false) := Except.ok.inj (congrArg Prod.fst h)
    obtain rfl : found = node := congrArg Prod.fst hpair
    exact denotesAlone_of_not_consulted hr (congrArg Prod.snd hpair)

/-- Only the handle of a new tree depends on the compiler, and the tree goes into
    the cache. -/
theorem transparent_remember {source : String} {node : Node} (h : DenotesAlone source node) :
    Transparent (issue node >>= remember (textKey source)) := by
  intro compiler plain hb
  refine ⟨rfl, ?_, ?_, hb.registry, hb.attached⟩
  · refine isFaithful_remember { compiler with issued := compiler.issued + 1 }
      ⟨node, compiler.issued⟩ hb.faithful ?_
    intro other hk
    rw [← textKey_injective hk]
    exact h
  · show plain.cache.map _ = none
    rw [hb.cacheless]
    rfl

/-- The tree of a text that is not looked up. -/
def compileAnew (path source : String) : Compiling Node := do
  let (node, consulted) ← readText path source
  if !consulted then remember (textKey source) (← issue node)
  return node

/-- Compiling anew does not depend on what the cache held. -/
theorem transparent_compileAnew (path source : String) :
    Transparent (compileAnew path source) := by
  refine (transparent_readText path source).bind_of_run ?_
  rintro compiler ⟨node, consulted⟩ after hr
  cases consulted with
  | true => exact transparent_pure node
  | false =>
      have hd := denotesAlone_of_readText hr
      show Transparent ((issue node >>= remember (textKey source)) >>= fun _ => pure node)
      exact (transparent_remember hd).bind fun _ => transparent_pure node

/-- A text is compiled anew unless it is found in the cache. -/
theorem compileText_run (path source : String) (compiler : Compiler) :
    (compileText path source).run compiler
      = match (cached? (textKey source)).run compiler with
        | (.ok (some tree), after) => (.ok tree.node, after)
        | (.ok none, after) => (compileAnew path source).run after
        | (.error error, after) => (.error error, after) := by
  unfold compileText
  rw [bind_run]
  rcases (cached? (textKey source)).run compiler with ⟨_ | _ | tree, after⟩
  · rfl
  · rfl
  · rfl

/-- A text that denotes a tree by itself gives that tree, whatever the registry,
    and the registry stays as it was. -/
theorem compileAnew_run_of_denotesAlone (path : String) {source : String} {node : Node}
    (h : DenotesAlone source node) {plain : Compiler} (hc : plain.cache = none) :
    ∃ after, (compileAnew path source).run plain = (.ok node, after)
      ∧ after.cache = none ∧ after.registry = plain.registry
      ∧ after.attached = plain.attached := by
  have hr := readText_run path source plain
  rw [h] at hr
  unfold compileAnew
  rw [bind_run, hr]
  refine ⟨_, rfl, ?_, rfl, rfl⟩
  show plain.cache.map _ = none
  rw [hc]
  rfl

/-- Without a cache, a text is read, and the registry is left as reading leaves it. -/
theorem compileText_run_of_cacheless (path source : String) {plain : Compiler} (hc : plain.cache = none) :
    let read := (Dsl.read path source).run ⟨plain.registry, plain.attached, false⟩
    let compiled := (compileText path source).run plain
    compiled.1 = read.1 ∧ compiled.2.cache = none ∧ compiled.2.registry = read.2.registry
      ∧ compiled.2.attached = plain.attached := by
  intro read compiled
  have hcompiled : compiled = (compileAnew path source).run plain := by
    show (compileText path source).run plain = _
    rw [compileText_run, cached?_run_none _ hc]
  rw [hcompiled, compileAnew, bind_run, readText_run]
  show _ ∧ _ ∧ _
  rcases hread : (Dsl.read path source).run ⟨plain.registry, plain.attached, false⟩ with ⟨_ | node, names⟩
  · rw [show read = _ from hread]
    exact ⟨rfl, hc, rfl, rfl⟩
  · rw [show read = _ from hread]
    dsimp only
    cases names.consulted with
    | true => exact ⟨rfl, hc, rfl, rfl⟩
    | false =>
        refine ⟨rfl, ?_, rfl, rfl⟩
        show plain.cache.map _ = none
        rw [hc]
        rfl

/-- **AN ANSWER OUT OF THE CACHE IS THE ANSWER OF A READING**: compiling a text is
    transparent. -/
theorem transparent_compileText (path source : String) :
    Transparent (compileText path source) := by
  intro compiler plain h
  rw [compileText_run, compileText_run, cached?_run_none _ h.cacheless]
  cases hc : compiler.cache with
  | none =>
      rw [cached?_run_none _ hc]
      exact transparent_compileAnew path source compiler plain h
  | some cache =>
      rw [cached?_run_some _ hc]
      have hf := isFaithful_lookup (textKey source) h.faithful hc
      cases hl : (cache.lookup compiler.now (textKey source)).1 with
      | none =>
          exact transparent_compileAnew path source _ plain ⟨hf, h.cacheless, h.registry, h.attached⟩
      | some tree =>
          obtain ⟨entry, hmem, hkey, rfl⟩ := Cache.mem_of_lookup_eq_some hl
          have hd := h.faithful cache hc entry hmem source hkey
          obtain ⟨after, hp, h1, h2, h3⟩ := compileAnew_run_of_denotesAlone path hd h.cacheless
          show Except.ok entry.value.node = ((compileAnew path source).run plain).1
            ∧ Beside _ ((compileAnew path source).run plain).2
          rw [hp]
          exact ⟨rfl, hf, h1, h.registry.trans h2.symm, h.attached.trans h3.symm⟩

/-! ## Specifications -/

/-- **EVERY STEP OF COMPILING IS TRANSPARENT**, so compiling any schema is. -/
theorem stepwise_transparent : Stepwise fun _ => Transparent :=
  ⟨transparent_pure, transparent_throw, Transparent.bind, transparent_compileText⟩

/-- Compiling a specification is transparent: everything but the texts in it does not
    ask the cache. -/
theorem transparent_compile (spec : Spec) : Transparent (compile spec) :=
  stepwise_transparent.compileAt "" spec

/-! ## Sessions -/

/-- A faithful compiler stands beside itself without its cache. -/
theorem beside_uncached {compiler : Compiler} (h : compiler.IsFaithful) :
    Beside compiler compiler.uncached := ⟨h, rfl, rfl, rfl⟩

theorem isFaithful_run {x : Compiling α} (hx : Transparent x) {compiler : Compiler}
    (h : compiler.IsFaithful) : ((x.run compiler).2).IsFaithful :=
  ((hx compiler compiler.uncached (beside_uncached h)).2).faithful

/-- Looking into the cache leaves it faithful. -/
theorem isFaithful_cached? (key : String) {compiler : Compiler} (h : compiler.IsFaithful) :
    ((cached? key).run compiler).2.IsFaithful := by
  cases hc : compiler.cache with
  | none =>
      rw [cached?_run_none key hc]
      exact h
  | some cache =>
      rw [cached?_run_some key hc]
      exact isFaithful_lookup key h hc

/-- A tree that is handed out by key goes into the cache, but not under the key of
    a text. -/
theorem isFaithful_compileKeyed (key : String) (spec : Spec) {compiler : Compiler}
    (h : compiler.IsFaithful) : ((compileKeyed key spec).run compiler).2.IsFaithful := by
  have h1 := isFaithful_cached? (callerKey key) h
  unfold compileKeyed
  rw [bind_run]
  rcases hr : (cached? (callerKey key)).run compiler with ⟨_ | _ | tree, after⟩
  · rw [hr] at h1
    exact h1
  · -- the specification is compiled, and its tree remembered
    rw [hr] at h1
    have h2 := isFaithful_run (transparent_compile spec) h1
    show (((compile spec) >>= _ : Compiling Tree).run after).2.IsFaithful
    rw [bind_run]
    rcases hr2 : (compile spec).run after with ⟨_ | node, later⟩
    · rw [hr2] at h2
      exact h2
    · rw [hr2] at h2
      exact isFaithful_remember { later with issued := later.issued + 1 } ⟨node, later.issued⟩ h2
        fun source hk => absurd hk.symm (textKey_ne_callerKey source key)
  · rw [hr] at h1
    exact h1

/-- Registering compiles and then changes both registries alike. -/
theorem transparent_register (name : String) (spec : Spec) :
    Transparent (register name spec) := by
  refine (transparent_compile spec).bind fun node => ?_
  intro compiler plain h
  exact ⟨rfl, h.faithful, h.cacheless,
    congrArg (fun registry => registry.register name node) h.registry, h.attached⟩

/-- No action of a session spoils the cache. -/
theorem isFaithful_afterAction (compiler : Compiler) (action : Action)
    (h : compiler.IsFaithful) : (compiler.afterAction action).IsFaithful := by
  cases action with
  | register name spec => exact isFaithful_run (transparent_register name spec) h
  | registerFactory name make => exact h
  | unregister name => exact h
  | compile spec => exact isFaithful_run (transparent_compile spec) h
  | compileKeyed key spec => exact isFaithful_compileKeyed key spec h
  | clearCache =>
      intro left hl entry hmem
      obtain ⟨cache, -, rfl⟩ := Option.map_eq_some_iff.1 hl
      exact nomatch hmem
  | pass milliseconds => exact h

theorem isFaithful_fresh (registry : Registry) (attached : Bool) (capacity : Nat)
    (maxAge : Option Nat) : (fresh registry attached capacity maxAge).IsFaithful := by
  intro cache hc entry hmem
  obtain rfl : Cache.empty capacity maxAge = cache := Option.some.inj hc
  exact nomatch hmem

/-- **A CACHE CHANGES NO OUTCOME**: at every point of every session the cache holds
    under each text only what the text denotes by itself, and compiling a
    specification gives the outcome, and leaves the registry with the calls of
    its factories, that a compiler without cache would give and leave there. -/
theorem compile_eq_compile_uncached (registry : Registry) (attached : Bool) (capacity : Nat)
    (maxAge : Option Nat) (actions : List Action) (spec : Spec) :
    let compiler := (fresh registry attached capacity maxAge).afterSession actions
    compiler.IsFaithful
      ∧ ((compile spec).run compiler).1 = ((compile spec).run compiler.uncached).1
      ∧ ((compile spec).run compiler).2.registry
          = ((compile spec).run compiler.uncached).2.registry := by
  intro compiler
  have hf : compiler.IsFaithful :=
    afterSession_induction isFaithful_afterAction actions
      (isFaithful_fresh registry attached capacity maxAge)
  obtain ⟨h1, h2⟩ := transparent_compile spec compiler compiler.uncached (beside_uncached hf)
  exact ⟨hf, h1, h2.registry⟩

end Conform.Compiler
