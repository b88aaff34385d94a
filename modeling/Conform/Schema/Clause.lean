import Conform.Schema.BaseType

/-! # Clauses — bounds on a measure

    A clause is a range with at least one intended bound, a comparison, or an
    exact count.  `check` says which rule a measured value breaks; comparisons
    are those of doubles, so a value that is not a number breaks only the two
    equalities. -/

namespace Conform

/-- A bound on a measure; ends are included unless said otherwise. -/
inductive Clause where
  | range (least most : Option Binary64)
  | above (bound : Binary64)
  | atLeast (bound : Binary64)
  | below (bound : Binary64)
  | atMost (bound : Binary64)
  | equalTo (bound : Binary64)
  | exactly (count : Nat)
deriving DecidableEq

/-- The rule that a measured value broke. -/
inductive Breach where
  | least (limit : Binary64) (exclusive : Bool)
  | most (limit : Binary64) (exclusive : Bool)
  | equal (limit : Binary64)
  | count (limit : Nat)
deriving DecidableEq

namespace Clause

/-- The rule that the measured value breaks, if any; of a range the lower end
    is looked at first. -/
def check : Clause → Binary64 → Option Breach
  | .range least most, measured =>
      match least.filter fun bound => Binary64.lt measured bound with
      | some bound => some (.least bound false)
      | none =>
          (most.filter fun bound => Binary64.lt bound measured).map fun bound => .most bound false
  | .above bound, measured =>
      if Binary64.le measured bound then some (.least bound true) else none
  | .atLeast bound, measured =>
      if Binary64.lt measured bound then some (.least bound false) else none
  | .below bound, measured =>
      if Binary64.le bound measured then some (.most bound true) else none
  | .atMost bound, measured =>
      if Binary64.lt bound measured then some (.most bound false) else none
  | .equalTo bound, measured =>
      if Binary64.eq measured bound then none else some (.equal bound)
  | .exactly count, measured =>
      if Binary64.eq measured (.ofNat count) then none else some (.count count)

/-- Equality of bounds as ordered keys. -/
def sameBound : Option Binary64 → Option Binary64 → Bool
  | none, none => true
  | some a, some b => Binary64.sameKey a b
  | _, _ => false

/-- Equality of clauses, bounds compared as ordered keys. -/
def same : Clause → Clause → Bool
  | .range a b, .range c d => sameBound a c && sameBound b d
  | .above a, .above b => Binary64.sameKey a b
  | .atLeast a, .atLeast b => Binary64.sameKey a b
  | .below a, .below b => Binary64.sameKey a b
  | .atMost a, .atMost b => Binary64.sameKey a b
  | .equalTo a, .equalTo b => Binary64.sameKey a b
  | .exactly a, .exactly b => a == b
  | _, _ => false

end Clause

namespace Breach

/-- The keyword that an error about this breach carries. -/
def keyword : Breach → String
  | .least _ _ => "min"
  | .most _ _ => "max"
  | .equal _ => "equal"
  | .count _ => "length"

/-- The last part of the message key. -/
def rule : Breach → String
  | .least _ exclusive => if exclusive then "gt" else "min"
  | .most _ exclusive => if exclusive then "lt" else "max"
  | .equal _ => "equal"
  | .count _ => "length"

/-- The bound that was broken. -/
def limit : Breach → Binary64
  | .least limit _ => limit
  | .most limit _ => limit
  | .equal limit => limit
  | .count limit => .ofNat limit

/-- Whether the bound itself is refused. -/
def exclusive : Breach → Bool
  | .least _ exclusive => exclusive
  | .most _ exclusive => exclusive
  | _ => false

end Breach

end Conform
