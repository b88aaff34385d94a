import Conform.Dsl.Outline
import Conform.Dsl.Clause
import Conform.Registry

/-! # The tree of a specification

    An outline denotes a tree once its names are resolved: first among the
    built-in types, then in the registry.  Resolving may call a factory, and it
    is remembered whether the registry answered; if it did not, the tree depends
    on the text alone. -/

namespace Conform.Dsl

open Conform.Text (Chars isBlank)

/-- What names are resolved with.  The registry may be there without being
    consulted; `consulted` says whether it gave an answer. -/
structure Names where
  registry : Registry
  attached : Bool
  consulted : Bool

/-- Computations that resolve names.  The names survive an error. -/
abbrev Naming := ExceptT Error (StateM Names)

/-- Whether a text cannot be the name of a type. -/
def isMalformedName (name : Chars) : Bool :=
  name.isEmpty
    || name.any fun c => isBlank c || c = '<' || c = '>' || c = '|' || c = '='

/-- The error for a name that nothing answers to. -/
def unresolved (path : String) (name : Chars) : Error :=
  if isMalformedName name then Fault.at ⟨name, .malformedTypeName⟩ path
  else .unknownType path (String.ofList name)

/-- Asks the registry, if it is attached. -/
def registered? (name : String) : Naming (Option Node) := do
  let names ← get
  if names.attached then
    match names.registry.resolve? name with
    | (some node, registry) =>
        set ({ names with registry := registry, consulted := true } : Names)
        return some node
    | (none, _) => return none
  else return none

/-- The tree that a name stands for. -/
def resolve (path : String) (name : Chars) : Naming Node :=
  match BaseType.ofName? (String.ofList name) with
  | some base => return Node.ofType base
  | none => do
      match ← registered? (String.ofList name) with
      | some node => return node
      | none => throw (unresolved path name)

/-- A value, or its fault as an error at the place. -/
def settle {α : Type} (path : String) : Except Fault α → Naming α
  | .ok value => return value
  | .error fault => throw (fault.at path)

/-- A node with the choices or the clause that `rest` writes; `body` is the
    whole specification. -/
def constrain (name body rest : Chars) (node : Node) : Except Fault Node :=
  if rest.any (· == '|') then
    match ChoiceType.ofBase? node.base with
    | none => .error ⟨body, .enumOn (String.ofList name)⟩
    | some type => do
        let (_, choices) ← choicesOf (some type) rest
        return node.mapFacets fun facets => { facets with choices := choices }
  else
    match node.base.measure? with
    | none => .error ⟨rest, .clauseOn (String.ofList name)⟩
    | some measure => do
        let clause ← clauseOf measure rest
        return node.mapFacets fun facets => { facets with clause := some clause }

/-- The clause of an array, if one is written. -/
def arrayClause : Option Chars → Except Fault (Option Clause)
  | none => .ok none
  | some text => some <$> clauseOf .items text

/-- The place of every item of an array. -/
def itemsPath (path : String) : String := path ++ "[]"

mutual

/-- The tree of an outline at a place. -/
def Outline.node (path : String) : Outline → Naming Node
  | .fault flaw => throw (flaw.at path)
  | .named required name => do
      let node ← resolve path name
      return node.withRequired required
  | .choice required hint body => do
      let (type, choices) ← settle path (choicesOf hint body)
      return .leaf type.primitive { required := required, choices := choices }
  | .bounded required name body rest => do
      let node ← resolve path name
      let node ← settle path (constrain name body rest node)
      return node.withRequired required
  | .array required clause none => do
      let clause ← settle path (arrayClause clause)
      return .array { required := required, clause := clause } none
  | .array required clause (some items) => do
      let items ← Outline.node (itemsPath path) items
      let clause ← settle path (arrayClause clause)
      return .array { required := required, clause := clause } (some items)
  | .union required members => do
      let members ← Outline.nodes path members
      return .union { required := required } members
termination_by structural outline => outline

/-- The trees of the members of a union, in order. -/
def Outline.nodes (path : String) : List Outline → Naming (List Node)
  | [] => return []
  | outline :: rest => do
      let node ← Outline.node path outline
      let nodes ← Outline.nodes path rest
      return node :: nodes
termination_by structural outlines => outlines

end

/-- The tree of a text at a place. -/
def read (path : String) (source : String) : Naming Node :=
  (Outline.ofText source.toList).node path

end Conform.Dsl
