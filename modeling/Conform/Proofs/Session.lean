import Conform.Compiler

/-! # Sessions — one compiler through a sequence of operations

    A session is what one compiler and its registry go through: types are
    registered and taken out again, specifications are compiled with and without
    a key, the cache is cleared, and time passes.  Operations that fail leave
    what they changed before they failed. -/

namespace Conform.Compiler

/-- An operation on a compiler and its registry. -/
inductive Action where
  | register (name : String) (spec : Spec)
  | registerFactory (name : String) (make : Nat → Node)
  | unregister (name : String)
  | compile (spec : Spec)
  | compileKeyed (key : String) (spec : Spec)
  | clearCache
  | pass (milliseconds : Nat)

/-- What an operation leaves of a compiler. -/
def afterAction (compiler : Compiler) : Action → Compiler
  | .register name spec => ((register name spec).run compiler).2
  | .registerFactory name make =>
      { compiler with registry := compiler.registry.registerFactory name make }
  | .unregister name => ((unregister name).run compiler).2
  | .compile spec => ((compile spec).run compiler).2
  | .compileKeyed key spec => ((compileKeyed key spec).run compiler).2
  | .clearCache => (clearCache.run compiler).2
  | .pass milliseconds => ((pass milliseconds).run compiler).2

/-- What a session leaves of a compiler. -/
def afterSession (compiler : Compiler) (actions : List Action) : Compiler :=
  actions.foldl afterAction compiler

/-- A compiler with a registry, attached to it or not, and an empty cache. -/
def fresh (registry : Registry) (attached : Bool) (capacity : Nat) (maxAge : Option Nat) :
    Compiler :=
  { registry := registry, attached := attached, cache := some (.empty capacity maxAge) }

/-- What every operation keeps holds through every session. -/
theorem afterSession_induction {P : Compiler → Prop}
    (step : ∀ compiler action, P compiler → P (compiler.afterAction action))
    (actions : List Action) {compiler : Compiler} (h : P compiler) :
    P (compiler.afterSession actions) := by
  induction actions generalizing compiler with
  | nil => exact h
  | cons action rest ih => exact ih (step compiler action h)

end Conform.Compiler
