import Conform.Place
import Conform.Schema.Node

/-! # Where suspended checks are

    Whether a tree has a suspended check, and where the first one stands, is a
    matter of the tree alone: nothing is asked of any value. -/

namespace Conform.Node

/-- Whether the node itself has a suspended check. -/
def isSuspended (node : Node) : Bool := node.facets.customs.any Custom.isSuspended

mutual

/-- The place of the first node with a suspended check, a node before its parts
    and the parts in the order of their declaration. -/
def firstSuspended? (place : Place) : Node → Option Place
  | .leaf type facets => if (leaf type facets).isSuspended then some place else none
  | .object facets fields =>
      if (object facets fields).isSuspended then some place
      else firstSuspendedField? place fields
  | .array facets none => if (array facets none).isSuspended then some place else none
  | .array facets (some items) =>
      if (array facets (some items)).isSuspended then some place
      else firstSuspended? place.items items
  | .union facets members =>
      if (union facets members).isSuspended then some place
      else firstSuspendedMember? place members
  | .matching facets reference cases =>
      if (matching facets reference cases).isSuspended then some place
      else firstSuspendedCase? place cases
  | .switch facets field yes none =>
      if (switch facets field yes none).isSuspended then some place
      else firstSuspended? place yes
  | .switch facets field yes (some no) =>
      if (switch facets field yes (some no)).isSuspended then some place
      else firstSuspended? place yes <|> firstSuspended? place no
  | .chain facets ⟨entries, fallback⟩ =>
      if (chain facets ⟨entries, fallback⟩).isSuspended then some place
      else firstSuspendedEntry? place entries <|> firstSuspendedFallback? place fallback
termination_by structural node => node

/-- The same for the fields of an object at `place`. -/
def firstSuspendedField? (place : Place) : List (String × Node) → Option Place
  | [] => none
  | (name, node) :: rest =>
      firstSuspended? (place.key name) node <|> firstSuspendedField? place rest
termination_by structural fields => fields

/-- The same for the members of a union. -/
def firstSuspendedMember? (place : Place) : List Node → Option Place
  | [] => none
  | node :: rest => firstSuspended? place node <|> firstSuspendedMember? place rest
termination_by structural members => members

/-- The same for the cases of a branch. -/
def firstSuspendedCase? (place : Place) : List (String × Node) → Option Place
  | [] => none
  | (_, node) :: rest => firstSuspended? place node <|> firstSuspendedCase? place rest
termination_by structural cases => cases

/-- The same for the entries of a chain. -/
def firstSuspendedEntry? (place : Place) : List (Chain.Entry Node) → Option Place
  | [] => none
  | ⟨_, _, target, _, _⟩ :: rest =>
      firstSuspendedTarget? place target <|> firstSuspendedEntry? place rest
termination_by structural entries => entries

/-- The same for the target of an entry. -/
def firstSuspendedTarget? (place : Place) : Option Node → Option Place
  | none => none
  | some node => firstSuspended? place node
termination_by structural target => target

/-- The same for the fallback of a chain. -/
def firstSuspendedFallback? (place : Place) : Chain.Fallback Node → Option Place
  | .undefined => none
  | .nothing => none
  | .target node => firstSuspended? place node
termination_by structural fallback => fallback

end

/-- The same for a chain that belongs to no node. -/
def firstSuspendedOf? (place : Place) (chain : Chain Node) : Option Place :=
  firstSuspendedEntry? place chain.entries <|> firstSuspendedFallback? place chain.fallback

end Conform.Node
