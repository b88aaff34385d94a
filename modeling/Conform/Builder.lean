import Conform.Schema

/-! # Builders — chains that are kept as calls

    The calls of a chain can be kept, to check values with them.  Every use compiles them
    anew, with a compiler that has neither a registry nor a cache; the fault of the
    sequence, or the error of a target, is then what the use comes to. -/

namespace Conform

variable {α β : Type}

/-- Goes on with an outcome; an error is the error of the whole. -/
def attempt (outcome : Except Error α) (use : α → Noted (Except Error β)) :
    Noted (Except Error β) :=
  match outcome with
  | .ok a => use a
  | .error error => return .error error

/-- Goes on with an outcome to a yes or no; an error is a no. -/
def attemptCheck (outcome : Except Error α) (use : α → Noted Bool) : Noted Bool :=
  match outcome with
  | .ok a => use a
  | .error _ => return false

namespace Compiler

/-- Compiles the targets of a chain at a place, unless its calls had a fault. -/
def compileChain (path : String) : Except ChainFault (Chain Spec) → Compiling (Chain Node)
  | .error fault => throw (.sequence fault)
  | .ok chain => do
      let entries ← compileEntries path chain.entries
      let fallback ← compileFallback path chain.fallback
      return ⟨entries, fallback⟩

end Compiler

/-- The calls of a chain, in their order. -/
structure Builder where
  calls : List (Chain.Call Spec)

namespace Builder

/-- The chain that the calls build, with trees for targets. -/
def build (builder : Builder) : Except Error (Chain Node) :=
  ((Compiler.compileChain "" (Chain.ofCalls builder.calls)).run {}).1

/-- All refusals of a value by the chain of the calls. -/
def validate (builder : Builder) (value : Json) : Noted (Except Error Report) :=
  attempt builder.build fun chain => chain.validate value

/-- Refusals of a value by the chain of the calls, as an error. -/
def assert (builder : Builder) (value : Json) : Noted (Except Error Unit) :=
  attempt builder.build fun chain => chain.assert value

/-- Whether a value is valid for the chain of the calls. -/
def check (builder : Builder) (value : Json) : Noted Bool :=
  attemptCheck builder.build fun chain => chain.check value

/-- Refusals of a value by the chain of the calls, suspended checks included. -/
def validateWaiting (builder : Builder) (value : Json) : Noted (Except Error Unit) :=
  attempt builder.build fun chain => chain.validateWaiting value

end Builder

namespace Schema

end Schema

/-- The schema of a chain. -/
def Chain.schema (chain : Chain Node) : Schema := { node := .chain {} chain }

end Conform
