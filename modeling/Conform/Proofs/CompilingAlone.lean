import Conform.Proofs.Compiling
import Conform.Proofs.MadeTrees

/-! # Compiling alone — without a registry and a cache

    A compiler that is not attached to a registry and has no cache is LONE.  Compiling
    leaves it lone, and what it compiles does not depend on what it compiled before: of
    all that a compiler remembers, only the handles differ (`uniform_compileAt`).  So a
    specification that compiles by itself compiles wherever it is a part
    (`makes_of_compiled`). -/

namespace Conform.Compiler

variable {α β : Type}

/-- The compiler has no cache, and nothing registered that it might ask. -/
structure IsLone (compiler : Compiler) : Prop where
  cacheless : compiler.cache = none
  detached : compiler.attached = false
  registry : compiler.registry = {}

theorem isLone_default : IsLone {} := ⟨rfl, rfl, rfl⟩

/-- The same outcome with all lone compilers, which are lone afterwards. -/
def Uniform (x : Compiling α) : Prop :=
  ∀ compiler, IsLone compiler → (x.run compiler).1 = (x.run {}).1 ∧ IsLone (x.run compiler).2

theorem uniform_pure (a : α) : Uniform (pure a : Compiling α) :=
  fun _ h => ⟨rfl, h⟩

theorem uniform_throw (error : Error) : Uniform (throw error : Compiling α) :=
  fun _ h => ⟨rfl, h⟩

/-- **UNIFORM COMPILATIONS COMPOSE**: one that is lone stays so in between. -/
theorem Uniform.bind {x : Compiling α} {f : α → Compiling β} (hx : Uniform x)
    (hf : ∀ a, Uniform (f a)) : Uniform (x >>= f) := by
  intro compiler h
  obtain ⟨hsame, hlone⟩ := hx compiler h
  obtain ⟨-, hdefault⟩ := hx {} isLone_default
  rw [bind_run, bind_run]
  rcases hrun : x.run compiler with ⟨outcome, after⟩
  rcases hrun' : x.run {} with ⟨outcome', after'⟩
  rw [hrun, hrun'] at hsame
  rw [hrun] at hlone
  rw [hrun'] at hdefault
  obtain rfl : outcome = outcome' := hsame
  cases outcome with
  | error error => exact ⟨rfl, hlone⟩
  | ok a =>
      obtain ⟨hnext, hafter⟩ := hf a after hlone
      exact ⟨hnext.trans (hf a after' hdefault).1.symm, hafter⟩

/-- A text is read as if nothing was compiled before, and nothing comes of that. -/
theorem readText_run_of_isLone (path source : String) {compiler : Compiler} (h : IsLone compiler) :
    (readText path source).run compiler = (((readText path source).run {}).1, compiler) := by
  obtain ⟨registry, attached, cache, now, issued⟩ := compiler
  obtain rfl : cache = none := h.cacheless
  obtain rfl : attached = false := h.detached
  obtain rfl : registry = {} := h.registry
  have hnames : ((Dsl.read path source).run ⟨{}, false, false⟩).2 = ⟨{}, false, false⟩ :=
    Dsl.read_run_of_detached path source rfl
  rw [readText_run, readText_run]
  rcases hr : (Dsl.read path source).run ⟨{}, false, false⟩ with ⟨outcome, names⟩
  rw [hr] at hnames
  obtain rfl : names = ⟨{}, false, false⟩ := hnames
  cases outcome with
  | error error => rfl
  | ok node => rfl

/-- A text is compiled as if nothing was compiled before. -/
theorem uniform_compileText (path source : String) : Uniform (compileText path source) := by
  intro compiler h
  rw [compileText_run, compileText_run, cached?_run_none _ h.cacheless, cached?_run_none _ rfl]
  dsimp only
  unfold compileAnew
  -- both read the same; a cache that is not there remembers nothing
  rw [bind_run, bind_run, readText_run_of_isLone path source h,
    readText_run_of_isLone path source isLone_default]
  cases ((readText path source).run {}).1 with
  | error error => exact ⟨rfl, h⟩
  | ok read =>
      obtain ⟨node, consulted⟩ := read
      cases consulted with
      | true => exact ⟨rfl, h⟩
      | false =>
          refine ⟨rfl, ?_, h.detached, h.registry⟩
          show compiler.cache.map _ = none
          rw [h.cacheless]
          rfl

/-- **WHAT A LONE COMPILER DID BEFORE IS NO MATTER** for what it compiles. -/
theorem uniform_compileAt (path : String) (spec : Spec) : Uniform (compileAt path spec) :=
  Stepwise.compileAt (P := fun _ => Uniform)
    ⟨uniform_pure, uniform_throw, Uniform.bind, uniform_compileText⟩ path spec

/-! ## What is made -/

/-- All lone compilers come to the value, and are lone afterwards. -/
def Makes (x : Compiling α) (a : α) : Prop :=
  ∀ compiler, IsLone compiler → (x.run compiler).1 = .ok a ∧ IsLone (x.run compiler).2

theorem makes_pure (a : α) : Makes (pure a) a := fun _ h => ⟨rfl, h⟩

/-- What makes a part of a node goes before what makes the node of it. -/
theorem Makes.bind {x : Compiling α} {f : α → Compiling β} {a : α} {b : β} (hx : Makes x a)
    (hf : Makes (f a) b) : Makes (x >>= f) b := by
  intro compiler h
  obtain ⟨hvalue, hlone⟩ := hx compiler h
  rw [bind_run]
  rcases hrun : x.run compiler with ⟨outcome, after⟩
  rw [hrun] at hvalue hlone
  obtain rfl : outcome = .ok a := hvalue
  exact hf after hlone

/-- A specification that compiles by itself compiles with every lone compiler. -/
theorem makes_of_compiled {spec : Spec} {node : Node} (h : compiled spec = .ok node) :
    Makes (compileAt "" spec) node := by
  intro compiler hlone
  obtain ⟨hsame, hafter⟩ := uniform_compileAt "" spec compiler hlone
  exact ⟨hsame.trans h, hafter⟩

/-- What a lone compiler makes of a schema is what the schema compiles to. -/
theorem Makes.compiled_eq {spec : Spec} {node : Node} (h : Makes (compile spec) node) :
    compiled spec = .ok node :=
  (h {} isLone_default).1

/-- A text makes the tree that it denotes by itself. -/
theorem makes_compileText (path : String) {source : String} {node : Node}
    (h : Dsl.DenotesAlone source node) : Makes (compileText path source) node := by
  intro compiler hlone
  obtain ⟨-, hafter⟩ := uniform_compileText path source compiler hlone
  obtain ⟨after, hrun, -⟩ := compileAnew_run_of_denotesAlone path h hlone.cacheless
  refine ⟨?_, hafter⟩
  rw [compileText_run, cached?_run_none _ hlone.cacheless]
  exact congrArg Prod.fst hrun

theorem makes_text {source : String} {node : Node} (h : Dsl.DenotesAlone source node) :
    Makes (compile (.text source)) node := by
  unfold compile compileAt
  exact makes_compileText "" h

/-- The node of a field is the node of its base, dressed. -/
theorem makes_field {path : String} {field : FieldSpec} {node dressed : Node}
    (h : Dsl.DenotesAlone field.base node) (hdress : field.dress path node = .ok dressed) :
    Makes (compileAt path (.field field)) dressed := by
  unfold compileAt
  refine (makes_compileText path h).bind ?_
  intro compiler hlone
  exact ⟨hdress, hlone⟩

end Conform.Compiler
