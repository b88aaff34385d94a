import Conform.Proofs.KeyedCalls
import Conform.Proofs.MadeTrees

/-! # Constancy — registries that do not change their minds

    A registered name gives a tree for every use.  Where every factory always makes the
    same tree, using a name leaves all names with the trees they had, though the calls
    are counted.  So compilers whose registries have the SAME TREES (`Alike`) come to the
    same outcomes and stay alike, and a call with a key, which can change a registry
    only by what it compiles, leaves a compiler that is alike to the one before.

    Without constancy this fails: a call with a key takes a factory's turn as any
    compilation does. -/

namespace Conform

namespace Members

variable {α β : Type}

/-- Changing all values and putting one of them commute. -/
theorem mapValues_put (f : α → β) (members : Members α) (name : String) (value : α) :
    mapValues f (put members name value) = put (mapValues f members) name (f value) := by
  induction members with
  | nil => rfl
  | cons head rest ih =>
      obtain ⟨key, old⟩ := head
      show mapValues f (if key = name then _ else _) = if key = name then _ else _
      by_cases hkey : key = name
      · rw [if_pos hkey, if_pos hkey]
        rfl
      · rw [if_neg hkey, if_neg hkey]
        exact congrArg ((key, f old) :: ·) ih

/-- Changing all values and taking one of them out commute. -/
theorem mapValues_without (f : α → β) (members : Members α) (name : String) :
    mapValues f (without members name) = without (mapValues f members) name := by
  induction members with
  | nil => rfl
  | cons head rest ih =>
      obtain ⟨key, old⟩ := head
      show mapValues f (if key = name then _ else _) = if key = name then _ else _
      by_cases hkey : key = name
      · rw [if_pos hkey, if_pos hkey]
        rfl
      · rw [if_neg hkey, if_neg hkey]
        exact congrArg ((key, f old) :: ·) ih

/-- Putting back what is there changes nothing. -/
theorem put_eq_self {members : Members α} {name : String} {value : α}
    (h : valueOf? members name = some value) : put members name value = members := by
  induction members with
  | nil => exact nomatch h
  | cons head rest ih =>
      obtain ⟨key, old⟩ := head
      rw [valueOf?_cons] at h
      by_cases hkey : key = name
      · rw [if_pos hkey] at h
        rw [put, if_pos hkey, Option.some.inj h]
      · rw [if_neg hkey] at h
        rw [put, if_neg hkey, ih h]

theorem mem_of_mem_without {members : Members α} {name : String} {entry : String × α}
    (h : entry ∈ without members name) : entry ∈ members := by
  induction members with
  | nil => exact h
  | cons head rest ih =>
      obtain ⟨key, old⟩ := head
      rw [without] at h
      by_cases hkey : key = name
      · rw [if_pos hkey] at h
        exact List.mem_cons_of_mem _ h
      · rw [if_neg hkey] at h
        rcases List.mem_cons.1 h with rfl | hrest
        · exact List.mem_cons_self
        · exact List.mem_cons_of_mem _ (ih hrest)

end Members

/-! ## The trees of a registry -/

/-- The tree that the next use gives. -/
def Registration.tree : Registration → Node
  | .fixed node => node
  | .factory make calls => make calls

/-- Every use gives the same tree. -/
def Registration.IsConstant : Registration → Prop
  | .fixed _ => True
  | .factory make _ => ∀ call, make call = make 0

namespace Registry

/-- The trees that the names have now. -/
def trees (registry : Registry) : Members Node := Members.mapValues Registration.tree registry.types

/-- No factory ever makes another tree than it made first. -/
def IsConstant (registry : Registry) : Prop := ∀ entry ∈ registry.types, entry.2.IsConstant

/-- Using a name gives the tree that is there for it. -/
theorem resolve?_fst (registry : Registry) (name : String) :
    (registry.resolve? name).1 = Members.valueOf? registry.trees name := by
  rw [trees, Members.valueOf?_mapValues, resolve?]
  rcases Members.valueOf? registry.types name with _ | _ | _
  · rfl
  · rfl
  · rfl

/-- A registry stays constant if what is put into it is. -/
theorem isConstant_put {registry : Registry} (h : registry.IsConstant) (name : String)
    (registration : Registration) (hnew : registration.IsConstant) (calls : Nat) :
    IsConstant ⟨Members.put registry.types name registration, calls⟩ := by
  intro entry hentry
  rcases Members.mem_of_mem_put hentry with rfl | hold
  · exact hnew
  · exact h entry hold

/-- **A CONSTANT REGISTRY STAYS AS IT IS** when a name is used. -/
theorem resolve?_of_isConstant {registry : Registry} (h : registry.IsConstant) (name : String) :
    (registry.resolve? name).2.IsConstant ∧ (registry.resolve? name).2.trees = registry.trees := by
  rw [resolve?]
  rcases hvalue : Members.valueOf? registry.types name with _ | node | ⟨make, calls⟩
  · exact ⟨h, rfl⟩
  · exact ⟨h, rfl⟩
  · have hmake : ∀ call, make call = make 0 := h _ (Members.mem_of_valueOf?_eq_some hvalue)
    refine ⟨isConstant_put h name (.factory make (calls + 1)) hmake _, ?_⟩
    -- the factory's next tree is the one it has just made
    have hvalue : Members.valueOf? registry.trees name = some (make (calls + 1)) := by
      rw [trees, Members.valueOf?_mapValues, hvalue, hmake]
      exact congrArg some (hmake calls)
    show Members.mapValues _ (Members.put registry.types name _) = _
    rw [Members.mapValues_put]
    exact Members.put_eq_self hvalue

/-- Constant registries with the same trees. -/
structure Alike (registry other : Registry) : Prop where
  constant : registry.IsConstant
  otherConstant : other.IsConstant
  trees : registry.trees = other.trees

namespace Alike

variable {registry other third : Registry}

/-- Only a constant registry is alike to itself: using a name may change another one. -/
theorem refl (h : registry.IsConstant) : registry.Alike registry := ⟨h, h, rfl⟩

theorem symm (h : registry.Alike other) : other.Alike registry :=
  ⟨h.otherConstant, h.constant, h.trees.symm⟩

theorem trans (h : registry.Alike other) (h' : other.Alike third) : registry.Alike third :=
  ⟨h.constant, h'.otherConstant, h.trees.trans h'.trees⟩

/-- **USING A NAME CHANGES NOTHING** in a constant registry but the count of calls. -/
theorem resolve? (h : registry.IsConstant) (name : String) :
    registry.Alike (registry.resolve? name).2 := by
  obtain ⟨hconstant, htrees⟩ := resolve?_of_isConstant h name
  exact ⟨h, hconstant, htrees.symm⟩

/-- Registering one tree with alike registries leaves them alike. -/
theorem register (h : registry.Alike other) (name : String) (node : Node) :
    (registry.register name node).Alike (other.register name node) where
  constant := isConstant_put h.constant name (.fixed node) trivial _
  otherConstant := isConstant_put h.otherConstant name (.fixed node) trivial _
  trees := by
    show Members.mapValues _ (Members.put _ name _) = Members.mapValues _ (Members.put _ name _)
    rw [Members.mapValues_put, Members.mapValues_put]
    exact congrArg (fun trees => Members.put trees name node) h.trees

/-- Registering one factory leaves them alike if it always makes the same tree. -/
theorem registerFactory (h : registry.Alike other) (name : String) {make : Nat → Node}
    (hmake : ∀ call, make call = make 0) :
    (registry.registerFactory name make).Alike (other.registerFactory name make) where
  constant := isConstant_put h.constant name (.factory make 0) hmake _
  otherConstant := isConstant_put h.otherConstant name (.factory make 0) hmake _
  trees := by
    show Members.mapValues _ (Members.put _ name _) = Members.mapValues _ (Members.put _ name _)
    rw [Members.mapValues_put, Members.mapValues_put]
    exact congrArg (fun trees => Members.put trees name (make 0)) h.trees

/-- Taking a name away leaves them alike. -/
theorem unregister (h : registry.Alike other) (name : String) :
    (registry.unregister name).Alike (other.unregister name) where
  constant entry hentry := h.constant entry (Members.mem_of_mem_without hentry)
  otherConstant entry hentry := h.otherConstant entry (Members.mem_of_mem_without hentry)
  trees := by
    show Members.mapValues _ (Members.without _ name) = Members.mapValues _ (Members.without _ name)
    rw [Members.mapValues_without, Members.mapValues_without]
    exact congrArg (fun trees => Members.without trees name) h.trees

end Alike

end Registry

/-! ## Readings -/

namespace Dsl

open Naming
open Conform.Text (Chars)

variable {α β : Type}

/-- Names with registries that are alike, both asked or both not. -/
structure Names.Alike (names other : Names) : Prop where
  registry : names.registry.Alike other.registry
  attached : names.attached = other.attached

theorem Names.Alike.symm {names other : Names} (h : names.Alike other) : other.Alike names :=
  ⟨h.registry.symm, h.attached.symm⟩

theorem Names.Alike.trans {names other third : Names} (h : names.Alike other) (h' : other.Alike third) :
    names.Alike third :=
  ⟨h.registry.trans h'.registry, h.attached.trans h'.attached⟩

/-- The computation is EVEN: it comes to the same with names that are alike, and leaves
    names that are alike to those before. -/
def IsEven (x : Naming α) : Prop :=
  ∀ names other, names.Alike other → (x.run names).1 = (x.run other).1 ∧ names.Alike (x.run names).2

theorem isEven_pure (a : α) : IsEven (pure a : Naming α) :=
  fun _ _ h => ⟨rfl, h.trans h.symm⟩

theorem isEven_throw (error : Error) : IsEven (throw error : Naming α) :=
  fun _ _ h => ⟨rfl, h.trans h.symm⟩

/-- **EVEN COMPUTATIONS COMPOSE**: the names stay alike in between. -/
theorem IsEven.bind {x : Naming α} {f : α → Naming β} (hx : IsEven x) (hf : ∀ a, IsEven (f a)) :
    IsEven (x >>= f) := by
  intro names other h
  obtain ⟨houtcome, hafter⟩ := hx names other h
  -- the other side moves as well, and is alike to what it was
  obtain ⟨-, hotherAfter⟩ := hx other names h.symm
  rcases hrun : x.run names with ⟨outcome, after⟩
  rcases hother : x.run other with ⟨outcome', after'⟩
  rw [hrun] at houtcome hafter
  rw [hother] at houtcome hotherAfter
  obtain rfl : outcome = outcome' := houtcome
  cases outcome with
  | error error =>
      rw [bind_run_error hrun, bind_run_error hother]
      exact ⟨rfl, hafter⟩
  | ok a =>
      rw [bind_run_ok hrun, bind_run_ok hother]
      obtain ⟨hlast, hlastAfter⟩ := hf a after after' (hafter.symm.trans (h.trans hotherAfter))
      exact ⟨hlast, hafter.trans hlastAfter⟩

/-- Asking for a registered name is even: the tree is the one that the name has. -/
theorem isEven_registered? (name : String) : IsEven (registered? name) := by
  intro names other h
  by_cases hattached : names.attached = true
  · rw [registered?_run_of_attached name hattached,
      registered?_run_of_attached name (h.attached.symm.trans hattached)]
    have hnode : (names.registry.resolve? name).1 = (other.registry.resolve? name).1 := by
      rw [Registry.resolve?_fst, Registry.resolve?_fst, h.registry.trees]
    have hafter := Registry.Alike.resolve? h.registry.constant name
    rcases hresolve : names.registry.resolve? name with ⟨found, registry⟩
    rcases hother : other.registry.resolve? name with ⟨found', registry'⟩
    rw [hresolve] at hnode hafter
    rw [hother] at hnode
    obtain rfl : found = found' := hnode
    cases found with
    | none => exact ⟨rfl, h.trans h.symm⟩
    | some node => exact ⟨rfl, hafter, rfl⟩
  · have hdetached := Bool.eq_false_iff.2 hattached
    rw [registered?_run_of_detached name hdetached,
      registered?_run_of_detached name (h.attached.symm.trans hdetached)]
    exact ⟨rfl, h.trans h.symm⟩

/-- Looking up a name gives the same node, and leaves the names alike. -/
theorem isEven_resolve (path : String) (name : Chars) : IsEven (resolve path name) := by
  unfold resolve
  cases BaseType.ofName? (String.ofList name) with
  | some base => exact isEven_pure _
  | none =>
      refine (isEven_registered? _).bind fun found => ?_
      cases found with
      | none => exact isEven_throw _
      | some node => exact isEven_pure node

theorem isEven_settle (path : String) (value : Except Fault α) : IsEven (settle path value) := by
  cases value with
  | ok value => exact isEven_pure value
  | error fault => exact isEven_throw _

mutual

/-- **THE TREE OF AN OUTLINE IS READ EVENLY.** -/
theorem Outline.isEven_node : ∀ (path : String) (outline : Outline), IsEven (outline.node path)
  | path, .fault flaw => isEven_throw _
  | path, .named required name => by
      unfold Outline.node
      exact (isEven_resolve path name).bind fun node => isEven_pure _
  | path, .choice required hint body => by
      unfold Outline.node
      exact (isEven_settle path _).bind fun _ => isEven_pure _
  | path, .bounded required name body rest => by
      unfold Outline.node
      exact (isEven_resolve path name).bind fun node =>
        (isEven_settle path _).bind fun _ => isEven_pure _
  | path, .array required clause none => by
      unfold Outline.node
      exact (isEven_settle path _).bind fun _ => isEven_pure _
  | path, .array required clause (some items) => by
      unfold Outline.node
      exact (Outline.isEven_node (itemsPath path) items).bind fun _ =>
        (isEven_settle path _).bind fun _ => isEven_pure _
  | path, .union required members => by
      unfold Outline.node
      exact (Outline.isEven_nodes path members).bind fun _ => isEven_pure _
termination_by structural _ outline => outline

theorem Outline.isEven_nodes :
    ∀ (path : String) (outlines : List Outline), IsEven (Outline.nodes path outlines)
  | path, [] => by
      unfold Outline.nodes
      exact isEven_pure _
  | path, outline :: rest => by
      unfold Outline.nodes
      exact (Outline.isEven_node path outline).bind fun _ =>
        (Outline.isEven_nodes path rest).bind fun _ => isEven_pure _
termination_by structural _ outlines => outlines

end

end Dsl

/-! ## Compilations -/

namespace Compiler

variable {α β : Type}

/-- Compilers with registries that are alike, both attached or both not. -/
structure Alike (compiler other : Compiler) : Prop where
  registry : compiler.registry.Alike other.registry
  attached : compiler.attached = other.attached

namespace Alike

variable {compiler other third : Compiler}

theorem symm (h : compiler.Alike other) : other.Alike compiler := ⟨h.registry.symm, h.attached.symm⟩

theorem trans (h : compiler.Alike other) (h' : other.Alike third) : compiler.Alike third :=
  ⟨h.registry.trans h'.registry, h.attached.trans h'.attached⟩

theorem congr (h : compiler.Alike other) {after : Compiler} (hregistry : after.registry = other.registry)
    (hattached : after.attached = other.attached) : compiler.Alike after :=
  ⟨hregistry ▸ h.registry, h.attached.trans hattached.symm⟩

end Alike

/-- What a compilation without a cache comes to is the same for compilers that are alike,
    and it leaves them alike to what they were. -/
def IsEven (x : Compiling α) : Prop :=
  ∀ compiler other, compiler.cache = none → other.cache = none → compiler.Alike other →
    (x.run compiler).1 = (x.run other).1
      ∧ compiler.Alike (x.run compiler).2 ∧ (x.run compiler).2.cache = none

/-- Even compilations compose: the compilers stay alike in between. -/
theorem IsEven.bind {x : Compiling α} {f : α → Compiling β} (hx : IsEven x) (hf : ∀ a, IsEven (f a)) :
    IsEven (x >>= f) := by
  intro compiler other hcache hotherCache h
  obtain ⟨houtcome, hafter, hcacheAfter⟩ := hx compiler other hcache hotherCache h
  obtain ⟨-, hotherAfter, hotherCacheAfter⟩ := hx other compiler hotherCache hcache h.symm
  rw [bind_run, bind_run]
  rcases hrun : x.run compiler with ⟨outcome, after⟩
  rcases hother : x.run other with ⟨outcome', after'⟩
  rw [hrun] at houtcome hafter hcacheAfter
  rw [hother] at houtcome hotherAfter hotherCacheAfter
  obtain rfl : outcome = outcome' := houtcome
  cases outcome with
  | error error => exact ⟨rfl, hafter, hcacheAfter⟩
  | ok a =>
      obtain ⟨hlast, hlastAfter, hlastCache⟩ := hf a after after' hcacheAfter hotherCacheAfter
        (hafter.symm.trans (h.trans hotherAfter))
      exact ⟨hlast, hafter.trans hlastAfter, hlastCache⟩

/-- **A TEXT COMPILES ALIKE**, from the cache or anew, since what is cached is what compiling
    gives. -/
theorem isEven_compileText (path source : String) : IsEven (compileText path source) := by
  intro compiler other hcache hotherCache h
  obtain ⟨houtcome, hafter⟩ := Dsl.Outline.isEven_node path (Dsl.Outline.ofText source.toList)
    ⟨compiler.registry, compiler.attached, false⟩ ⟨other.registry, other.attached, false⟩
    ⟨h.registry, h.attached⟩
  obtain ⟨hread, hleft, hregistry, hattached⟩ := compileText_run_of_cacheless path source hcache
  obtain ⟨hotherRead, -⟩ := compileText_run_of_cacheless path source hotherCache
  exact ⟨hread.trans (houtcome.trans hotherRead.symm), ⟨hregistry ▸ hafter.registry, hattached.symm⟩, hleft⟩

/-- Being even is kept by every step of compiling, so it holds of every schema. -/
theorem stepwise_isEven : Stepwise fun _ => IsEven where
  pure _ := fun _ _ hcache _ h => ⟨rfl, h.trans h.symm, hcache⟩
  throw _ := fun _ _ hcache _ h => ⟨rfl, h.trans h.symm, hcache⟩
  bind := IsEven.bind
  text := isEven_compileText

/-- **COMPILERS THAT ARE ALIKE COMPILE TO THE SAME**, whatever their caches hold, and
    stay alike to what they were. -/
theorem compile_of_alike {compiler other : Compiler} (h : compiler.Alike other)
    (hfaithful : compiler.IsFaithful) (hotherFaithful : other.IsFaithful) (spec : Spec) :
    ((compile spec).run compiler).1 = ((compile spec).run other).1
      ∧ compiler.Alike ((compile spec).run compiler).2 := by
  obtain ⟨hsame, hbeside⟩ := transparent_compile spec compiler _ (beside_uncached hfaithful)
  obtain ⟨hotherSame, -⟩ := transparent_compile spec other _ (beside_uncached hotherFaithful)
  obtain ⟨houtcome, hafter, -⟩ := stepwise_isEven.compileAt "" spec compiler.uncached other.uncached
    rfl rfl ⟨h.registry, h.attached⟩
  refine ⟨hsame.trans (houtcome.trans hotherSame.symm), ?_⟩
  have halike : compiler.Alike ((compile spec).run compiler.uncached).2 := ⟨hafter.registry, hafter.attached⟩
  exact halike.congr hbeside.registry hbeside.attached

/-- A call with a key leaves a compiler alike to what it was. -/
theorem alike_compileKeyed {compiler : Compiler} (h : compiler.Alike compiler)
    (hfaithful : compiler.IsFaithful) (key : String) (spec : Spec) :
    compiler.Alike ((compileKeyed key spec).run compiler).2 := by
  have hstill := isFaithful_cached? (callerKey key) hfaithful
  rw [compileKeyed_run]
  rcases hrun : (cached? (callerKey key)).run compiler with ⟨outcome, after⟩
  rw [hrun] at hstill
  obtain ⟨found, rfl, hregistry, hattached, -, -⟩ := cached?_run _ hrun
  have hafter := h.congr hregistry hattached
  cases found with
  | some tree => exact hafter
  | none =>
      have hlater := hafter.trans (compile_of_alike (hafter.symm.trans hafter) hstill hstill spec).2
      dsimp only
      rcases hcompile : (compile spec).run after with ⟨_ | node, later⟩
      · rw [hcompile] at hlater
        exact hlater
      · rw [hcompile] at hlater
        exact hlater.congr rfl rfl

/-! ## Sessions -/

/-- The operation registers no factory that changes what it makes. -/
def Action.IsConstant : Action → Prop
  | .registerFactory _ make => ∀ call, make call = make 0
  | _ => True

/-- One action leaves compilers alike, if what it registers is constant. -/
theorem alike_afterAction {compiler other : Compiler} (h : compiler.Alike other)
    (hfaithful : compiler.IsFaithful) (hotherFaithful : other.IsFaithful) {action : Action}
    (hconstant : action.IsConstant) : (compiler.afterAction action).Alike (other.afterAction action) := by
  -- each side stays alike to what it was, so the two stay alike to one another
  have hself : compiler.Alike compiler := h.trans h.symm
  have hotherSelf : other.Alike other := h.symm.trans h
  cases action with
  | compile spec =>
      have hafter := (compile_of_alike hself hfaithful hfaithful spec).2
      have hotherAfter := (compile_of_alike hotherSelf hotherFaithful hotherFaithful spec).2
      exact hafter.symm.trans (h.trans hotherAfter)
  | compileKeyed key spec =>
      have hafter := alike_compileKeyed hself hfaithful key spec
      have hotherAfter := alike_compileKeyed hotherSelf hotherFaithful key spec
      exact hafter.symm.trans (h.trans hotherAfter)
  | register name spec =>
      obtain ⟨houtcome, hafter⟩ := compile_of_alike h hfaithful hotherFaithful spec
      obtain ⟨-, hotherAfter⟩ := compile_of_alike h.symm hotherFaithful hfaithful spec
      have hboth := hafter.symm.trans (h.trans hotherAfter)
      show ((compile spec >>= _ : Compiling Unit).run compiler).2.Alike
        ((compile spec >>= _ : Compiling Unit).run other).2
      rw [bind_run, bind_run]
      rcases hrun : (compile spec).run compiler with ⟨outcome, after⟩
      rcases hother : (compile spec).run other with ⟨outcome', after'⟩
      rw [hrun, hother] at houtcome hboth
      obtain rfl : outcome = outcome' := houtcome
      cases outcome with
      | error error => exact hboth
      | ok node => exact ⟨hboth.registry.register name node, hboth.attached⟩
  | registerFactory name make => exact ⟨h.registry.registerFactory name hconstant, h.attached⟩
  | unregister name => exact ⟨h.registry.unregister name, h.attached⟩
  | clearCache => exact ⟨h.registry, h.attached⟩
  | pass milliseconds => exact ⟨h.registry, h.attached⟩

theorem isFaithful_afterSession {compiler : Compiler} (h : compiler.IsFaithful) (actions : List Action) :
    (compiler.afterSession actions).IsFaithful :=
  afterSession_induction isFaithful_afterAction actions h

/-- **A SESSION LEAVES COMPILERS ALIKE**, by induction on its actions. -/
theorem alike_afterSession {compiler other : Compiler} (h : compiler.Alike other)
    (hfaithful : compiler.IsFaithful) (hotherFaithful : other.IsFaithful) {actions : List Action}
    (hconstant : ∀ action ∈ actions, action.IsConstant) :
    (compiler.afterSession actions).Alike (other.afterSession actions) := by
  induction actions generalizing compiler other with
  | nil => exact h
  | cons action rest ih =>
      obtain ⟨hfirst, hrest⟩ := List.forall_mem_cons.1 hconstant
      exact ih (alike_afterAction h hfaithful hotherFaithful hfirst)
        (isFaithful_afterAction compiler action hfaithful)
        (isFaithful_afterAction other action hotherFaithful) hrest

/-- **CALLERS' KEYS AND TEXTS LIVE APART.**  At every point of every session, a call with
    a key hands out the very tree that an earlier call with the key handed out, which
    nothing but the key has; or a new tree of what compiling the specification gives now;
    or it fails as compiling does, and nothing is cached under the key.  On the registry
    it does what compiling does, or nothing.  Where every factory always makes the same
    tree, the call can be left out without a change to what is compiled later. -/
theorem keyed_calls_live_apart (registry : Registry) (attached : Bool) (capacity : Nat)
    (maxAge : Option Nat) (actions : List Action) (key : String) (spec : Spec) :
    let start := fresh registry attached capacity maxAge
    let compiler := start.afterSession actions
    KeyedAnswer compiler (handed start actions) key spec ((compileKeyed key spec).run compiler)
      ∧ (registry.IsConstant → ∀ later : List Action, (∀ action ∈ actions ++ later, action.IsConstant) →
          ∀ final : Spec,
            ((compile final).run (compiler.afterSession (.compileKeyed key spec :: later))).1
              = ((compile final).run (compiler.afterSession later)).1) := by
  intro start compiler
  have hstart : start.IsFaithful := isFaithful_fresh registry attached capacity maxAge
  have hfaithful : compiler.IsFaithful := isFaithful_afterSession hstart actions
  constructor
  · have hrecorded := recorded_afterSession
      (recorded_fresh registry attached capacity maxAge) hstart actions
    exact (keyedAnswer_of_recorded hrecorded hfaithful key spec).1
  · intro hregistry later hconstant final
    obtain ⟨hactions, hlater⟩ := List.forall_mem_append.1 hconstant
    have hself : start.Alike start := ⟨.refl hregistry, rfl⟩
    have halike : compiler.Alike compiler := alike_afterSession hself hstart hstart hactions
    have hkeyed := isFaithful_compileKeyed key spec hfaithful
    have hend := alike_afterSession (alike_compileKeyed halike hfaithful key spec).symm hkeyed hfaithful hlater
    exact (compile_of_alike hend (isFaithful_afterSession hkeyed later)
      (isFaithful_afterSession hfaithful later) final).1

/-- A name for a factory that always makes the same tree. -/
def oneTree : Action := .registerFactory "t" fun _ => .ofType .object

/-- A session goes on with a key that looks like a name, in a cache for one tree. -/
theorem keyed_calls_live_apart_of_oneTree :
    Registry.IsConstant {}
      ∧ (∀ action ∈ [oneTree] ++ [.compileKeyed "t" (.text "t"), .pass 5], Action.IsConstant action)
      ∧ ((compile (.text "t")).run
            (((fresh {} true 1 (some 3)).afterSession [oneTree]).afterSession
              (.compileKeyed "k" (.text "t") :: [.compileKeyed "t" (.text "t"), .pass 5]))).1
          = ((compile (.text "t")).run
              (((fresh {} true 1 (some 3)).afterSession [oneTree]).afterSession
                [.compileKeyed "t" (.text "t"), .pass 5])).1 := by
  have hregistry : Registry.IsConstant {} := fun _ hentry => nomatch hentry
  have hactions : ∀ action ∈ [oneTree] ++ [.compileKeyed "t" (.text "t"), .pass 5],
      Action.IsConstant action := by
    refine List.forall_mem_cons.2 ⟨fun _ => rfl, ?_⟩
    exact List.forall_mem_cons.2 ⟨trivial, List.forall_mem_singleton.2 trivial⟩
  exact ⟨hregistry, hactions,
    (keyed_calls_live_apart {} true 1 (some 3) [oneTree] "k" (.text "t")).2 hregistry
      [.compileKeyed "t" (.text "t"), .pass 5] hactions (.text "t")⟩

/-- A name for a factory that makes two trees in turn. -/
def twoTrees : Action :=
  .registerFactory "t" fun call =>
    if call % 2 = 0 then .ofType (.primitive .string) else .ofType (.primitive .number)

/-- **WITH A FACTORY THAT TURNS** a call with a key is not without effect: it takes the
    turn of the compilation that comes after it. -/
theorem keyed_call_takes_turn :
    ¬ ∀ (registry : Registry) (attached : Bool) (capacity : Nat) (maxAge : Option Nat) (actions : List Action)
        (key : String) (spec final : Spec),
        ((compile final).run
            ((fresh registry attached capacity maxAge).afterSession (actions ++ [.compileKeyed key spec]))).1
          = ((compile final).run ((fresh registry attached capacity maxAge).afterSession actions)).1 := by
  intro hall
  have hname : Dsl.Outline.ofText "t".toList = .named false ['t'] := by
    rw [Dsl.Outline.ofText]
    rfl
  have hnow : ((compile (.text "t")).run ((fresh {} true 512 none).afterSession [twoTrees])).1
      = .ok (.ofType (.primitive .string)) := by
    unfold compile compileAt compileText readText Dsl.read
    rw [hname]
    rfl
  have hlater : ((compile (.text "t")).run
        ((fresh {} true 512 none).afterSession ([twoTrees] ++ [.compileKeyed "k" (.text "t")]))).1
      = .ok (.ofType (.primitive .number)) := by
    show ((compile (.text "t")).run ((compileKeyed "k" (.text "t")).run _).2).1 = _
    unfold compileKeyed compile compileAt compileText readText Dsl.read
    rw [hname]
    rfl
  have hsame := hlater.symm.trans ((hall {} true 512 none [twoTrees] "k" (.text "t") (.text "t")).trans hnow)
  exact absurd (congrArg Node.base (Except.ok.inj hsame)) (by decide)

end Compiler

end Conform
