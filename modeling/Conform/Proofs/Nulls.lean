import Conform.Schema
import Conform.Proofs.Throughout

/-! # Nulls — a null member is the same as none

    A field asks a record for its member, and takes null for no member at all.  So the
    null members of the objects in a value may as well be left out (`withoutNulls`), as
    long as nothing in the tree looks at them in another way: no custom check sees the
    value, no type takes null for a value of its own, no object counts its members, and
    no branch looks at the record (`IgnoresNull`).  Items stay where they are, null or
    not, since they have indices.

    Two walks go side by side here, over a value and over what is left of it.  The sites
    they come to need not agree in the value, but in what is left of it once null counts
    as absent (`Site.Cleared`). -/

namespace Conform

/-! ## Values without nulls -/

namespace Json

mutual

/-- The value without the null members of the objects in it, however deep. -/
def withoutNulls : Json → Json
  | .array items => .array (itemsWithoutNulls items)
  | .object members => .object (membersWithoutNulls members)
  | value => value
termination_by structural value => value

/-- The items, each without the nulls in it. -/
def itemsWithoutNulls : List Json → List Json
  | [] => []
  | item :: rest => withoutNulls item :: itemsWithoutNulls rest
termination_by structural items => items

/-- The members that are not null, each without the nulls in it. -/
def membersWithoutNulls : List (String × Json) → List (String × Json)
  | [] => []
  | (name, value) :: rest =>
      if value.isNull then membersWithoutNulls rest
      else (name, withoutNulls value) :: membersWithoutNulls rest
termination_by structural members => members

end

/-- No object in the value has two members of one name, as in every document that was read. -/
def NamesDiffer (value : Json) : Prop :=
  value.Every fun value => (Members.names (Rules.membersOf value)).Nodup

/-- Items stay in number, each of them without the nulls in it. -/
theorem itemsWithoutNulls_eq_map (items : List Json) :
    itemsWithoutNulls items = items.map withoutNulls := by
  induction items with
  | nil => rfl
  | cons item rest ih =>
      rw [List.map_cons, ← ih]
      rfl

theorem membersWithoutNulls_cons (name : String) (value : Json) (rest : Members Json) :
    membersWithoutNulls ((name, value) :: rest)
      = if value.isNull then membersWithoutNulls rest
        else (name, value.withoutNulls) :: membersWithoutNulls rest := rfl

/-- A value does not become null, nor does null become anything else. -/
@[simp] theorem isNull_withoutNulls (value : Json) : value.withoutNulls.isNull = value.isNull := by
  cases value <;> rfl

@[simp] theorem isIntegral_withoutNulls (value : Json) :
    value.withoutNulls.isIntegral = value.isIntegral := by
  cases value <;> rfl

theorem mem_children_of_mem_itemsOf {value item : Json} (h : item ∈ Rules.itemsOf value) :
    item ∈ value.children := by
  cases value with
  | array items => exact h
  | _ => exact nomatch h

/-- The items of a value are those of what is left of it, one by one. -/
theorem itemsOf_withoutNulls (value : Json) :
    Rules.itemsOf value.withoutNulls = (Rules.itemsOf value).map withoutNulls := by
  cases value with
  | array items => exact itemsWithoutNulls_eq_map items
  | _ => rfl

/-- A name that no member has is not there afterwards either. -/
theorem valueOf?_membersWithoutNulls_of_notMem {members : Members Json} {name : String}
    (h : name ∉ Members.names members) :
    Members.valueOf? (membersWithoutNulls members) name = none := by
  induction members with
  | nil => rfl
  | cons entry rest ih =>
      obtain ⟨key, value⟩ := entry
      obtain ⟨hkey, hrest⟩ := List.ne_and_not_mem_of_not_mem_cons h
      rw [membersWithoutNulls_cons]
      split
      · exact ih hrest
      · rw [Members.valueOf?_cons, if_neg (Ne.symm hkey), ih hrest]

/-- Where names differ, a null member is found no more, and any other one without its nulls. -/
theorem valueOf?_membersWithoutNulls {members : Members Json}
    (hnames : (Members.names members).Nodup) (name : String) :
    Members.valueOf? (membersWithoutNulls members) name
      = ((Members.valueOf? members name).filter fun value => !value.isNull).map withoutNulls := by
  induction members with
  | nil => rfl
  | cons entry rest ih =>
      obtain ⟨key, value⟩ := entry
      obtain ⟨hkey, hrest⟩ := List.nodup_cons.1 hnames
      rw [membersWithoutNulls_cons, Members.valueOf?_cons key value rest]
      by_cases hname : key = name
      · subst hname
        rw [if_pos rfl]
        cases hnull : value.isNull with
        | true =>
            rw [if_pos rfl, valueOf?_membersWithoutNulls_of_notMem hkey, Option.filter_some, hnull]
            rfl
        | false =>
            rw [if_neg Bool.false_ne_true, Members.valueOf?_cons, if_pos rfl, Option.filter_some,
              hnull]
            rfl
      · rw [if_neg hname, ← ih hrest]
        split
        · rfl
        · rw [Members.valueOf?_cons, if_neg hname]

/-- A member of what is left is a member that was not null, without the nulls in it. -/
theorem member?_withoutNulls {value : Json} (h : value.NamesDiffer) (name : String) :
    value.withoutNulls.member? name
      = ((value.member? name).filter fun found => !found.isNull).map withoutNulls := by
  cases value with
  | object members => exact valueOf?_membersWithoutNulls h.here name
  | _ => rfl

end Json

/-! ## What checks see of it -/

/-- Whether a value has a primitive type does not depend on members in it. -/
theorem Primitive.fits_withoutNulls (type : Primitive) (value : Json) :
    type.fits value.withoutNulls = type.fits value := by
  cases type with
  | integer => exact value.isIntegral_withoutNulls
  | _ => cases value <;> rfl

/-- Whether a value has a type does not depend on members in it. -/
theorem BaseType.fits_withoutNulls (base : BaseType) (value : Json) :
    base.fits value.withoutNulls = base.fits value := by
  cases base with
  | primitive type => exact type.fits_withoutNulls value
  | object => cases value <;> rfl
  | array => cases value <;> rfl

/-- No literal has members, so it accepts what is left if it accepts the value. -/
theorem Literal.accepts_withoutNulls (literal : Literal) (value : Json) :
    literal.accepts value.withoutNulls = literal.accepts value := by
  cases literal <;> cases value <;> rfl

/-- Every measure but the number of properties is the same. -/
theorem Measure.of?_withoutNulls {measure : Measure} (h : measure ≠ .properties) (value : Json) :
    measure.of? value.withoutNulls = measure.of? value := by
  cases measure with
  | length => cases value <;> rfl
  | value => cases value <;> rfl
  | items =>
      cases value with
      | array items =>
          show some (Binary64.ofNat (Json.itemsWithoutNulls items).length) = _
          rw [Json.itemsWithoutNulls_eq_map, List.length_map]
          rfl
      | _ => rfl
  | properties => exact absurd rfl h

namespace OwnFault

theorem ofFormat?_withoutNulls (base : BaseType) (value : Json) :
    ofFormat? base value.withoutNulls = ofFormat? base value := by
  cases value <;> simp [ofFormat?, Json.withoutNulls]

theorem ofPattern?_withoutNulls (pattern : Option Pattern) (value : Json) :
    ofPattern? pattern value.withoutNulls = ofPattern? pattern value := by
  cases value <;> simp [ofPattern?, Json.withoutNulls]

theorem ofChoices?_withoutNulls (choices : List Literal) (value : Json) :
    ofChoices? choices value.withoutNulls = ofChoices? choices value := by
  simp only [ofChoices?, Literal.accepts_withoutNulls]

/-- A clause breaks as before, unless it counts the members of an object. -/
theorem ofClause?_withoutNulls {base : BaseType} {bound : Option Clause}
    (h : base = .object → bound = none) (value : Json) :
    ofClause? base bound value.withoutNulls = ofClause? base bound value := by
  cases bound with
  | none => rfl
  | some bound =>
      unfold ofClause?
      cases hmeasure : base.measure? with
      | none => rfl
      | some measure =>
          have hproperties : measure ≠ .properties := by
            rintro rfl
            cases base with
            | object => exact nomatch h rfl
            | array => exact nomatch hmeasure
            | primitive type => cases type <;> exact nomatch hmeasure
          simp only [Option.bind_eq_bind, Option.bind_some,
            Measure.of?_withoutNulls hproperties]

end OwnFault

namespace Node

/-- Nothing about the node itself tells a null member from a missing one. -/
def IgnoresNull : Node → Prop
  | .leaf type facets => facets.customs = [] ∧ type.acceptsNull = false
  | .object facets _ => facets.customs = [] ∧ facets.clause = none
  | .array facets _ => facets.customs = []
  | .union facets _ => facets.customs = []
  | .matching _ _ _ => False
  | .switch _ _ _ _ => False
  | .chain _ _ => False

/-- What ignores null has no custom checks, which could see the value. -/
theorem IgnoresNull.customs_eq_nil {node : Node} (h : node.IgnoresNull) :
    node.facets.customs = [] := by
  cases node with
  | leaf type facets => exact h.1
  | object facets fields => exact h.1
  | array facets items => exact h
  | union facets members => exact h
  | matching facets reference cases => exact h.elim
  | switch facets field yes no => exact h.elim
  | chain facets body => exact h.elim

/-- A node breaks the same checks without the nulls. -/
theorem IgnoresNull.ownFaults_withoutNulls {node : Node} (h : node.IgnoresNull) (value : Json) :
    node.ownFaults value.withoutNulls = node.ownFaults value := by
  have hclause : node.base = .object → node.facets.clause = none := by
    intro hbase
    cases node with
    | object facets fields => exact h.2
    | _ => exact nomatch hbase
  unfold ownFaults
  rw [OwnFault.ofFormat?_withoutNulls, OwnFault.ofChoices?_withoutNulls,
    OwnFault.ofClause?_withoutNulls hclause, OwnFault.ofPattern?_withoutNulls]

/-- Where no type takes null for a value and nothing branches, null is always absent. -/
theorem acceptsNull_eq_false {node : Node} (h : node.Every IgnoresNull) :
    node.acceptsNull = false := by
  induction node using induction with
  | leaf type facets => exact h.here.2
  | object facets fields => rfl
  | array facets items => rfl
  | union facets members ih =>
      show someAcceptsNull members = false
      rw [someAcceptsNull_eq_any, List.any_eq_false]
      intro accepts hmem
      obtain ⟨member, hmember, rfl⟩ := List.mem_map.1 hmem
      rw [ih member hmember (h.inside hmember)]
      exact Bool.false_ne_true
  | matching facets reference cases => exact h.here.elim
  | switch facets field yes no => exact h.here.elim
  | chain facets body => exact h.here.elim

/-- Some member of a union has to have the type of the value. -/
theorem someFits_eq_any (value : Json) (members : List Node) :
    someFits value members = members.any (fits value) := by
  induction members with
  | nil => rfl
  | cons member rest ih =>
      rw [List.any_cons, ← ih]
      rfl

/-- Whether the type fits has nothing to do with nulls in the value. -/
theorem fits_withoutNulls (node : Node) (value : Json) :
    node.fits value.withoutNulls = node.fits value := by
  induction node using induction with
  | leaf type facets => exact type.fits_withoutNulls value
  | object facets fields => exact BaseType.object.fits_withoutNulls value
  | array facets items => exact BaseType.array.fits_withoutNulls value
  | union facets members ih =>
      show someFits value.withoutNulls members = someFits value members
      rw [someFits_eq_any, someFits_eq_any, Bool.eq_iff_iff, List.any_eq_true, List.any_eq_true]
      refine exists_congr fun member => and_congr_right fun hmem => ?_
      rw [ih member hmem]
  | matching facets reference cases => rfl
  | switch facets field yes no => rfl
  | chain facets body => rfl

end Node

/-! ## Two walks side by side -/

/-- The other site is at the same place, and its value is what is left of the value.  The
    records do not matter. -/
structure Site.Cleared (site other : Site) : Prop where
  place : other.place = site.place
  value : other.value.filter (fun value => !value.isNull)
    = (site.value.filter fun value => !value.isNull).map Json.withoutNulls

/-- The names differ in the value at the site, if there is one. -/
def Site.NamesDiffer (site : Site) : Prop := ∀ value, site.value = some value → value.NamesDiffer

namespace Rules

variable {rules : Rules} {mode : Mode} {node : Node} {site other : Site}

/-- At cleared sites a node goes into the cleared value, or finds none at either. -/
theorem enter_cleared {inside inside' : Json → List Slot → Checking (List Slot)}
    (hnull : node.acceptsNull = false) (hsites : site.Cleared other)
    (hinside : ∀ value, site.value = some value →
      inside' value.withoutNulls = inside value) :
    rules.enter node inside' other = rules.enter node inside site := by
  funext slots
  have hplace := hsites.place
  have hvalue := hsites.value
  unfold enter unlessFull
  simp only [hnull, Bool.or_false, hplace, hvalue]
  cases hpresent : site.value.filter fun value => !value.isNull with
  | none => rfl
  | some value =>
      rw [Option.map_some]
      dsimp only
      rw [hinside value (Option.filter_eq_some_iff.1 hpresent).1]

/-- What is left of a value is checked as the value is, if its parts are. -/
theorem checkValue_withoutNulls (hnode : node.IgnoresNull) (place : Place)
    {parts parts' : Json → List Slot → Checking (List Slot)} {value : Json}
    (hparts : parts' value.withoutNulls = parts value) :
    rules.checkValue mode node place parts' value.withoutNulls
      = rules.checkValue mode node place parts value := by
  funext slots
  unfold checkValue
  rw [BaseType.fits_withoutNulls, hnode.ownFaults_withoutNulls, hnode.customs_eq_nil, hparts]
  rfl

/-- Items are walked as before, each at its index. -/
theorem eachItem_withoutNulls {checker : Checker} {items : List Json}
    (h : ∀ item ∈ items, ∀ record record' place,
      checker ⟨some item.withoutNulls, record', place⟩ = checker ⟨some item, record, place⟩)
    (record record' : Option Json) (place : Place) (position : Nat) :
    eachItem checker record' place position (items.map Json.withoutNulls)
      = eachItem checker record place position items := by
  induction items generalizing position with
  | nil => rfl
  | cons item rest ih =>
      funext slots
      have hrest := ih (fun one hmem => h one (List.mem_cons_of_mem item hmem)) (position + 1)
      rw [List.map_cons, eachItem, eachItem, h item List.mem_cons_self record record', hrest]

/-- Fields are walked as before, if each of them is at every member. -/
theorem walkFields_withoutNulls {fields : List (String × Node)} {value : Json} (place : Place)
    (h : ∀ field ∈ fields, ∀ name,
      rules.walk mode field.2 ⟨value.withoutNulls.member? name, some value.withoutNulls, place.key name⟩
        = rules.walk mode field.2 ⟨value.member? name, some value, place.key name⟩) :
    rules.walkFields mode fields value.withoutNulls place
      = rules.walkFields mode fields value place := by
  induction fields with
  | nil => rfl
  | cons field rest ih =>
      obtain ⟨name, node⟩ := field
      funext slots
      have hrest := ih fun one hmem => h one (List.mem_cons_of_mem _ hmem)
      rw [walkFields, walkFields, h (name, node) List.mem_cons_self name, hrest]

/-- The members of a union are tried as before, if each of them is walked as before. -/
theorem walkMembers_withoutNulls {members : List Node}
    (h : ∀ member ∈ members, rules.walk mode member other = rules.walk mode member site)
    (value : Json) (closest : Option (List Slot)) :
    rules.walkMembers mode members value.withoutNulls other closest
      = rules.walkMembers mode members value site closest := by
  induction members generalizing closest with
  | nil => rfl
  | cons member rest ih =>
      have hrest := ih fun one hmem => h one (List.mem_cons_of_mem member hmem)
      rw [walkMembers, walkMembers, h member List.mem_cons_self]
      simp only [Node.fits_withoutNulls, hrest]

/-- A trial is concluded as before. -/
theorem concludeTrial_withoutNulls (hnode : node.IgnoresNull) (members : List Node) (place : Place)
    (value : Json) (slots : List Slot) (trial : Trial) :
    rules.concludeTrial mode node members place value.withoutNulls slots trial
      = rules.concludeTrial mode node members place value slots trial := by
  cases trial with
  | agreed own =>
      unfold concludeTrial
      rw [hnode.customs_eq_nil]
      rfl
  | refused closest => cases closest <;> rfl

/-- A null item stays where it is. -/
theorem cleared_item (value : Json) (record record' : Option Json) (place : Place) :
    Site.Cleared ⟨some value, record, place⟩ ⟨some value.withoutNulls, record', place⟩ where
  place := rfl
  value := by
    rw [Option.filter_some, Option.filter_some, Json.isNull_withoutNulls]
    split <;> rfl

/-- A null member is gone, and any other is cleared. -/
theorem cleared_member {value : Json} (hnames : value.NamesDiffer) (name : String) (place : Place) :
    Site.Cleared ⟨value.member? name, some value, place⟩
      ⟨value.withoutNulls.member? name, some value.withoutNulls, place⟩ where
  place := rfl
  value := by
    show (value.withoutNulls.member? name).filter _ = _
    rw [Json.member?_withoutNulls hnames]
    cases value.member? name with
    | none => rfl
    | some found => cases found <;> rfl

/-- **AT CLEARED SITES THE WALK IS THE SAME**, from all slots and in both modes. -/
theorem walk_cleared (hunknown : rules.config.allowUnknownFields = true) (mode : Mode)
    (hnode : node.Every Node.IgnoresNull) (hsites : site.Cleared other)
    (hnames : site.NamesDiffer) : rules.walk mode node other = rules.walk mode node site := by
  -- the sites below differ in their records, so the induction has to leave both open
  induction node using Node.induction generalizing site other with
  | leaf type facets =>
      refine enter_cleared (Node.acceptsNull_eq_false hnode) hsites fun value _ => ?_
      rw [hsites.place]
      exact checkValue_withoutNulls hnode.here _ rfl
  | object facets fields ih =>
      refine enter_cleared (Node.acceptsNull_eq_false hnode) hsites fun value hvalue => ?_
      rw [hsites.place]
      refine checkValue_withoutNulls hnode.here _ ?_
      have hfields : rules.walkFields mode fields value.withoutNulls site.place
          = rules.walkFields mode fields value site.place := by
        refine walkFields_withoutNulls site.place fun field hmem name => ?_
        refine ih field hmem (hnode.inside (List.mem_map_of_mem hmem))
          (cleared_member (hnames value hvalue) name _) fun found hfound => ?_
        exact (hnames value hvalue).inside (Json.mem_children_of_member? hfound)
      -- a null member may be unknown, which counts only where unknown members are refused
      simp only [hfields, addUnknown, hunknown, Bool.true_or, if_true]
  | array facets items ih =>
      cases items with
      | none =>
          refine enter_cleared (Node.acceptsNull_eq_false hnode) hsites fun value _ => ?_
          rw [hsites.place]
          exact checkValue_withoutNulls hnode.here _ rfl
      | some items =>
          refine enter_cleared (Node.acceptsNull_eq_false hnode) hsites fun value hvalue => ?_
          rw [hsites.place]
          refine checkValue_withoutNulls hnode.here _ ?_
          funext slots
          rw [Json.itemsOf_withoutNulls]
          refine congrFun (eachItem_withoutNulls ?_ _ _ _ 0) slots
          intro item hitem record record' place
          refine ih items rfl (hnode.inside (List.mem_singleton_self items))
            (cleared_item item record record' place) fun found hfound => ?_
          obtain rfl := Option.some.inj hfound
          exact (hnames value hvalue).inside (Json.mem_children_of_mem_itemsOf hitem)
  | union facets members ih =>
      refine enter_cleared (Node.acceptsNull_eq_false hnode) hsites fun value _ => ?_
      funext slots
      rw [walkMembers_withoutNulls (fun member hmem => ih member hmem (hnode.inside hmem) hsites hnames),
        hsites.place]
      simp only [concludeTrial_withoutNulls hnode.here]
  | matching facets reference cases => exact hnode.here.elim
  | switch facets field yes no => exact hnode.here.elim
  | chain facets body => exact hnode.here.elim

/-- **A NULL MEMBER IS THE SAME AS NONE.**  Take a tree in which nothing tells the two apart,
    and rules that let unknown members pass.  Then a validation of a value, and one that
    waits, comes to the same as that of the value without its null members: the same errors
    in the same order, with their messages and parameters. -/
theorem null_member_is_missing {rules : Rules} (hunknown : rules.config.allowUnknownFields = true)
    {node : Node} (hnode : node.Every Node.IgnoresNull) {value : Json} (hnames : value.NamesDiffer) :
    rules.validate node value.withoutNulls = rules.validate node value
      ∧ rules.validateWaiting node value.withoutNulls = rules.validateWaiting node value := by
  have hwalk : ∀ mode, rules.walk mode node (.root value.withoutNulls)
      = rules.walk mode node (.root value) := by
    intro mode
    refine walk_cleared hunknown mode hnode (cleared_item value none none .root) fun found hfound => ?_
    obtain rfl := Option.some.inj hfound
    exact hnames
  constructor
  · simp only [validate, reportNow, hwalk]
  · simp only [validateWaiting, reportLater, hwalk]

/-- A profile with a nickname and with notes, each a number or a text. -/
def profile : Node :=
  .object {} [("nick", .leaf .string { required := true }),
    ("notes", .array {} (some (.union {} [.leaf .integer {}, .object {} [("text", .leaf .string {})]])))]

/-- A nickname and an age that are null may as well be left out, and so may the text of a note. -/
theorem null_member_is_missing_profile :
    let value := Json.object [("nick", .null), ("age", .null),
      ("notes", .array [.null, .object [("text", .null)], .bool true])]
    let cleared := Json.object [("notes", .array [.null, .object [], .bool true])]
    let rules := ofConfig {}
    rules.config.allowUnknownFields = true ∧ profile.Every Node.IgnoresNull ∧ value.NamesDiffer
      ∧ value.withoutNulls = cleared
      ∧ rules.validate profile cleared = rules.validate profile value
      ∧ ∃ report, (rules.validate profile value).value = .ok report
        ∧ report.errors.map (fun error => (error.place, error.keyword))
          = [("nick", "required"), ("notes[2]", "type")] := by
  intro value cleared rules
  have htexts : (Node.object {} [("text", .leaf .string {})]).Every Node.IgnoresNull :=
    .intro ⟨rfl, rfl⟩ (List.forall_mem_singleton.2 (.of_parts_eq_nil ⟨rfl, rfl⟩ rfl))
  have hnote : (Node.union {} [.leaf .integer {}, .object {} [("text", .leaf .string {})]]).Every
      Node.IgnoresNull :=
    .intro rfl (List.forall_mem_cons.2 ⟨.of_parts_eq_nil ⟨rfl, rfl⟩ rfl,
      List.forall_mem_singleton.2 htexts⟩)
  have hprofile : profile.Every Node.IgnoresNull :=
    .intro ⟨rfl, rfl⟩ (List.forall_mem_cons.2 ⟨.of_parts_eq_nil ⟨rfl, rfl⟩ rfl,
      List.forall_mem_singleton.2 (.intro rfl (List.forall_mem_singleton.2 hnote))⟩)
  have hnull : Json.null.NamesDiffer := .of_parts_eq_nil (by decide) rfl
  have htext : (Json.object [("text", .null)]).NamesDiffer :=
    .intro (by decide) (List.forall_mem_singleton.2 hnull)
  have hnotes : (Json.array [.null, .object [("text", .null)], .bool true]).NamesDiffer :=
    .intro (by decide) (List.forall_mem_cons.2 ⟨hnull, List.forall_mem_cons.2 ⟨htext,
      List.forall_mem_singleton.2 (.of_parts_eq_nil (by decide) rfl)⟩⟩)
  have hvalue : value.NamesDiffer :=
    .intro (by decide) (List.forall_mem_cons.2 ⟨hnull, List.forall_mem_cons.2 ⟨hnull,
      List.forall_mem_singleton.2 hnotes⟩⟩)
  exact ⟨rfl, hprofile, hvalue, rfl, (null_member_is_missing rfl hprofile hvalue).1, _, rfl,
    by decide +kernel⟩

end Rules

end Conform
