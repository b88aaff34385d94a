import Conform.Schema.Node

/-! # The registry — named types added to the built-in ones

    A name is registered with a tree, or with a factory that makes a tree for
    every use.  A factory is a function of the number of its earlier calls, so
    what it makes may change from use to use.  How often factories were called
    in all can be observed. -/

namespace Conform

/-- What a name is registered with. -/
inductive Registration where
  | fixed (node : Node)
  | factory (make : Nat → Node) (calls : Nat)

/-- The registered types. -/
structure Registry where
  types : Members Registration := []
  factoryCalls : Nat := 0

namespace Registry

/-- Registers a tree. -/
def register (registry : Registry) (name : String) (node : Node) : Registry :=
  { registry with types := Members.put registry.types name (.fixed node) }

/-- Registers a factory, which starts to count its calls. -/
def registerFactory (registry : Registry) (name : String) (make : Nat → Node) : Registry :=
  { registry with types := Members.put registry.types name (.factory make 0) }

/-- Takes a name out of the registry. -/
def unregister (registry : Registry) (name : String) : Registry :=
  { registry with types := Members.without registry.types name }

/-- Whether the name is registered. -/
def has (registry : Registry) (name : String) : Bool := Members.hasName registry.types name

/-- The tree under a name; a factory is called for it. -/
def resolve? (registry : Registry) (name : String) : Option Node × Registry :=
  match Members.valueOf? registry.types name with
  | none => (none, registry)
  | some (.fixed node) => (some node, registry)
  | some (.factory make calls) =>
      (some (make calls),
        { types := Members.put registry.types name (.factory make (calls + 1)),
          factoryCalls := registry.factoryCalls + 1 })

end Registry

end Conform
