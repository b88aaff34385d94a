import Conform.Schema.Branch
import Conform.Validation.Rules

/-! # The walk — one pass over a tree and a value

    The walk goes depth first, in the order of the declarations, and adds to the
    slots.  A branch reports nothing of its own: it selects a node by the record
    around the value, and the walk goes on there.  A union tries its members one
    by one, each with slots of its own.  Custom checks of a node run last, and
    only where its own checks hold.

    The walk recurses on the tree.  A branch hands over what is selected as a
    checker, the walk of that node, so selecting is the same for nodes and for
    checkers. -/

namespace Conform

/-- Computations that call checks given from outside, or stop with an error. -/
abbrev Checking := ExceptT Error Noted

/-- Where the walk stands: the value, if there is one, the record that holds it,
    if one does, and the place. -/
structure Site where
  value : Option Json
  record : Option Json
  place : Place

/-- What is done at a site with the slots so far. -/
abbrev Checker := Site → List Slot → Checking (List Slot)

namespace Site

/-- The site of the whole value. -/
def root (value : Json) : Site := ⟨some value, none, .root⟩

/-- What branches look at: the record, or else the value. -/
def context (site : Site) : Json := (site.record <|> site.value).getD .null

end Site

namespace Rules

/-! ## Single steps -/

/-- Runs a custom check: an objection is an error, and a suspended check waits
    in the slots, if there is waiting at all. -/
def runCustom (rules : Rules) (mode : Mode) (node : Node) (place : Place) (value : Json)
    (custom : Custom) (slots : List Slot) : Checking (List Slot) :=
  match custom.check with
  | .immediate check => do
      match ← ExceptT.lift (check value) with
      | some text => return rules.add slots (.ready (rules.objection node place text))
      | none => return slots
  | .suspended check =>
      match mode with
      | .immediate => throw (.suspendedCheck place.text)
      | .suspending => return rules.add slots (.undecided (undecided node place value check))

/-- Runs the custom checks in order; none once the slots are full. -/
def runCustoms (rules : Rules) (mode : Mode) (node : Node) (place : Place) (value : Json) :
    List Custom → List Slot → Checking (List Slot)
  | [], slots => return slots
  | custom :: rest, slots =>
      if rules.isFull slots then return slots
      else do
        let slots ← runCustom rules mode node place value custom slots
        runCustoms rules mode node place value rest slots

/-- Does nothing once the slots are full. -/
def unlessFull (rules : Rules) (checker : Checker) : Checker :=
  fun site slots => if rules.isFull slots then return slots else checker site slots

/-- Goes into the value at the site, unless it counts as absent. -/
def enter (rules : Rules) (node : Node) (inside : Json → List Slot → Checking (List Slot)) :
    Checker :=
  rules.unlessFull fun site slots =>
    match site.value.filter fun value => !value.isNull || node.acceptsNull with
    | some value => inside value slots
    | none =>
        if node.facets.required then
          return rules.add slots (.ready (rules.missing node site.place))
        else return slots

/-- Checks a value by itself, then its parts, then, if nothing was found by
    itself, with the custom checks.  A value of another type has no parts. -/
def checkValue (rules : Rules) (mode : Mode) (node : Node) (place : Place)
    (parts : Json → List Slot → Checking (List Slot)) (value : Json) (slots : List Slot) :
    Checking (List Slot) :=
  if node.base.fits value then do
    let faults := node.ownFaults value
    let slots ← parts value
      (rules.addAll slots (faults.map fun fault => .ready (rules.broken node place fault)))
    if faults.isEmpty then runCustoms rules mode node place value node.facets.customs slots
    else return slots
  else return rules.add slots (.ready (rules.wrongType node place))

/-- Checks each item of a list at its index. -/
def eachItem (checker : Checker) (record : Option Json) (place : Place) :
    Nat → List Json → List Slot → Checking (List Slot)
  | _, [], slots => return slots
  | position, item :: rest, slots => do
      let slots ← checker ⟨some item, record, place.index position⟩ slots
      eachItem checker record place (position + 1) rest slots

/-- The items of a list. -/
def itemsOf : Json → List Json
  | .array items => items
  | _ => []

/-- The members of an object. -/
def membersOf : Json → Members Json
  | .object members => members
  | _ => []

/-- Adds an error for each member that the fields do not name, unless such
    members are let pass or there are no fields. -/
def addUnknown (rules : Rules) (fields : List (String × Node)) (members : Members Json)
    (place : Place) (slots : List Slot) : List Slot :=
  if rules.config.allowUnknownFields || fields.isEmpty then slots
  else
    rules.addAll slots (((Members.names members).filter fun name =>
      !Members.hasName fields name).map fun name => .ready (rules.unknown (place.key name)))

/-- What trying the members of a union came to: the slots of the first member
    without errors, or else those of the first member whose type fits. -/
inductive Trial where
  | agreed (slots : List Slot)
  | refused (closest : Option (List Slot))

/-- Adds what trying the members of a union came to, and runs the custom checks
    of the union if a member agreed. -/
def concludeTrial (rules : Rules) (mode : Mode) (node : Node) (members : List Node) (place : Place)
    (value : Json) (slots : List Slot) : Trial → Checking (List Slot)
  | .agreed own =>
      runCustoms rules mode node place value node.facets.customs (rules.addAll slots own)
  | .refused (some own) => return rules.addAll slots own
  | .refused none => return rules.add slots (.ready (rules.noMember node place members))

/-- Goes on with what a branch selected; `holder` is the node of the branch, if
    it belongs to one. -/
def follow (rules : Rules) (holder : Option Node) (selection : Chain.Selection Checker) : Checker :=
  fun site slots =>
    match selection with
    | .pass => return slots
    | .validate checker => checker site slots
    | .fail message => return rules.add slots (.ready (rules.failing holder site.place message))

/-- Goes on with a checker, if there is one. -/
def followOption (checker : Option Checker) : Checker :=
  fun site slots =>
    match checker with
    | some checker => checker site slots
    | none => return slots

/-- Asks a chain about the site, and goes on with what it selects. -/
def followChain (rules : Rules) (holder : Option Node) (chain : Chain Checker) : Checker :=
  fun site slots => do
    let selection ← ExceptT.lift (chain.select site.context)
    rules.follow holder selection site slots

/-! ## The walk -/

mutual

/-- The walk of a node. -/
def walk (rules : Rules) (mode : Mode) : Node → Checker
  | .leaf type facets => fun site =>
      let node := Node.leaf type facets
      rules.enter node (rules.checkValue mode node site.place fun _ slots => return slots) site
  | .object facets fields => fun site =>
      let node := Node.object facets fields
      let parts (value : Json) (slots : List Slot) : Checking (List Slot) := do
        let slots ← walkFields rules mode fields value site.place slots
        return rules.addUnknown fields (membersOf value) site.place slots
      rules.enter node (rules.checkValue mode node site.place parts) site
  | .array facets none => fun site =>
      let node := Node.array facets none
      rules.enter node (rules.checkValue mode node site.place fun _ slots => return slots) site
  | .array facets (some items) => fun site =>
      let node := Node.array facets (some items)
      let parts (value : Json) (slots : List Slot) : Checking (List Slot) :=
        eachItem (walk rules mode items) site.record site.place 0 (itemsOf value) slots
      rules.enter node (rules.checkValue mode node site.place parts) site
  | .union facets members => fun site =>
      let node := Node.union facets members
      let inside (value : Json) (slots : List Slot) : Checking (List Slot) := do
        let trial ← walkMembers rules mode members value site none
        rules.concludeTrial mode node members site.place value slots trial
      rules.enter node inside site
  | .matching _ reference cases =>
      let checkers := walkCases rules mode cases
      rules.unlessFull fun site => followOption (pickCase? reference checkers site.context) site
  | .switch _ field yes none =>
      let first := walk rules mode yes
      rules.unlessFull fun site => followOption (pickSide? field first none site.context) site
  | .switch _ field yes (some no) =>
      let first := walk rules mode yes
      let second := walk rules mode no
      rules.unlessFull fun site =>
        followOption (pickSide? field first (some second) site.context) site
  | .chain facets ⟨entries, fallback⟩ =>
      let checkers : Chain Checker := ⟨walkEntries rules mode entries, walkFallback rules mode fallback⟩
      rules.unlessFull (rules.followChain (some (.chain facets ⟨entries, fallback⟩)) checkers)
termination_by structural node => node

/-- The walk of the fields of an object, in order. -/
def walkFields (rules : Rules) (mode : Mode) :
    List (String × Node) → Json → Place → List Slot → Checking (List Slot)
  | [], _, _, slots => return slots
  | (name, node) :: rest, value, place, slots => do
      let slots ← walk rules mode node ⟨value.member? name, some value, place.key name⟩ slots
      walkFields rules mode rest value place slots
termination_by structural fields => fields

/-- Tries the members of a union, in order, each with slots of its own;
    `closest` are the slots of the first member before whose type fits. -/
def walkMembers (rules : Rules) (mode : Mode) :
    List Node → Json → Site → Option (List Slot) → Checking Trial
  | [], _, _, closest => return .refused closest
  | member :: rest, value, site, closest => do
      let own ← walk rules mode member site []
      if hasErrors own then
        walkMembers rules mode rest value site
          (closest <|> if member.fits value then some own else none)
      else return .agreed own
termination_by structural members => members

/-- The walks of the cases of a branch. -/
def walkCases (rules : Rules) (mode : Mode) : List (String × Node) → List (String × Checker)
  | [] => []
  | (key, node) :: rest => (key, walk rules mode node) :: walkCases rules mode rest
termination_by structural cases => cases

/-- The entries of a chain with the walks of their targets. -/
def walkEntries (rules : Rules) (mode : Mode) : List (Chain.Entry Node) → List (Chain.Entry Checker)
  | [] => []
  | ⟨kind, conditions, target, message, throws⟩ :: rest =>
      ⟨kind, conditions, walkTarget rules mode target, message, throws⟩
        :: walkEntries rules mode rest
termination_by structural entries => entries

/-- The walk of the target of an entry, if it has one. -/
def walkTarget (rules : Rules) (mode : Mode) : Option Node → Option Checker
  | none => none
  | some node => some (walk rules mode node)
termination_by structural target => target

/-- The fallback of a chain with the walk of its target. -/
def walkFallback (rules : Rules) (mode : Mode) : Chain.Fallback Node → Chain.Fallback Checker
  | .undefined => .undefined
  | .nothing => .nothing
  | .target node => .target (walk rules mode node)
termination_by structural fallback => fallback

end

end Rules

end Conform
