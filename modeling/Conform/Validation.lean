import Conform.Validation.Suspended
import Conform.Validation.Walk

/-! # Validation — the outcome of a walk

    An immediate validation refuses a tree with a suspended check before it
    looks at the value.  A suspending one walks first and then runs the checks
    that wait in the slots, one by one, in order; once errors end the validation
    early and there is one, the rest are not run. -/

namespace Conform.Rules

/-! ## Waiting -/

/-- Decides the slots in order; `found` says whether there was an error before. -/
def decideFrom (rules : Rules) : Bool → List Slot → Noted (List FieldError)
  | _, [] => return []
  | found, slot :: rest =>
      if rules.config.abortEarly && found then return []
      else
        match slot with
        | .ready error => do
            let errors ← decideFrom rules true rest
            return error :: errors
        | .undecided check => do
            match ← (check.check check.value).run with
            | some text => do
                let errors ← decideFrom rules true rest
                return rules.lateObjection check text :: errors
            | none => decideFrom rules found rest

/-- The errors of the slots, once all are decided. -/
def decide (rules : Rules) (slots : List Slot) : Noted (List FieldError) :=
  decideFrom rules false slots

/-! ## Outcomes -/

/-- The report of an immediate check of a whole value; `suspended` is the place
    of the first suspended check, if there is one. -/
def reportNow (suspended : Option Place) (checker : Checker) (value : Json) :
    Noted (Except Error Report) :=
  match suspended with
  | some place => return .error (.suspendedCheck place.text)
  | none => do
      match ← (checker (.root value) []).run with
      | .ok slots => return .ok (.ofErrors (readyErrors slots))
      | .error error => return .error error

/-- The report of a check of a whole value that waits. -/
def reportLater (rules : Rules) (checker : Checker) (value : Json) :
    Noted (Except Error Report) := do
  match ← (checker (.root value) []).run with
  | .ok slots => do
      let errors ← rules.decide slots
      return .ok (.ofErrors errors)
  | .error error => return .error error

/-- Validates a value against a tree, at once. -/
def validate (rules : Rules) (node : Node) (value : Json) : Noted (Except Error Report) :=
  reportNow (node.firstSuspended? .root) (rules.walk .immediate node) value

/-- Validates a value against a tree, waiting for suspended checks. -/
def validateWaiting (rules : Rules) (node : Node) (value : Json) : Noted (Except Error Report) :=
  rules.reportLater (rules.walk .suspending node) value

/-- The checkers of a chain that belongs to no node. -/
def walkChain (rules : Rules) (mode : Mode) (chain : Chain Node) : Checker :=
  rules.followChain none
    ⟨rules.walkEntries mode chain.entries, rules.walkFallback mode chain.fallback⟩

/-- Validates a value against a chain, at once. -/
def validateChain (rules : Rules) (chain : Chain Node) (value : Json) :
    Noted (Except Error Report) :=
  reportNow (Node.firstSuspendedOf? .root chain) (rules.walkChain .immediate chain) value

/-- Validates a value against a chain, waiting for suspended checks. -/
def validateChainWaiting (rules : Rules) (chain : Chain Node) (value : Json) :
    Noted (Except Error Report) :=
  rules.reportLater (rules.walkChain .suspending chain) value

end Conform.Rules
