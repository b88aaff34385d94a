import Mathlib.Data.List.Forall2
import Conform.Proofs.Agreement
import Conform.Proofs.Inquiries
import Conform.Proofs.Clean
import Conform.Proofs.Refusing

/-! # Unions — the first clean member wins

    A union tries its members with slots of their own, so each is checked as if it stood
    ALONE at the site.  In a tree without suspended checks, what a union comes to can be
    said by that: it has nothing against a value as soon as some member has nothing against
    it by itself, otherwise it takes over all that one member has against it, and which
    member that is goes by the type only (`Settles`).

    The union's own checks are asked where a member is clean, and nowhere else
    (`first_clean_member_wins`).  Where no type admits the value, the one error lists what
    the members are described by (`Node.IsDescribed`). -/

namespace Conform

/-! ## Types -/

namespace Node

/-- The type of a node admits a value: of a union that of some member, and a branch has
    no type of its own to refuse by. -/
inductive Admits (value : Json) : Node → Prop
  | leaf {type : Primitive} {facets : Facets} (h : type.fits value = true) :
      Admits value (.leaf type facets)
  | object {facets : Facets} {fields : List (String × Node)}
      (h : BaseType.object.fits value = true) : Admits value (.object facets fields)
  | array {facets : Facets} {items : Option Node}
      (h : BaseType.array.fits value = true) : Admits value (.array facets items)
  | union {facets : Facets} {members : List Node} {member : Node} (hmem : member ∈ members)
      (h : Admits value member) : Admits value (.union facets members)
  | matching {facets : Facets} {reference : String} {cases : List (String × Node)} :
      Admits value (.matching facets reference cases)
  | switch {facets : Facets} {field : String} {yes : Node} {no : Option Node} :
      Admits value (.switch facets field yes no)
  | chain {facets : Facets} {body : Chain Node} : Admits value (.chain facets body)

theorem someFits_iff {value : Json} {members : List Node} :
    someFits value members = true ↔ ∃ member ∈ members, member.fits value = true := by
  induction members with
  | nil => simp [someFits]
  | cons member rest ih => simp [someFits, ih]

/-- Having the type of a node is being admitted by it. -/
theorem fits_iff_admits {value : Json} {node : Node} : node.fits value = true ↔ node.Admits value := by
  induction node using Node.induction with
  | leaf type facets => exact ⟨.leaf, fun | .leaf h => h⟩
  | object facets fields => exact ⟨.object, fun | .object h => h⟩
  | array facets items => exact ⟨.array, fun | .array h => h⟩
  | union facets members ih =>
      show someFits value members = true ↔ _
      rw [someFits_iff]
      constructor
      · rintro ⟨member, hmem, hfits⟩
        exact .union hmem ((ih member hmem).1 hfits)
      · rintro (_ | _ | _ | ⟨hmem, hadmits⟩)
        exact ⟨_, hmem, (ih _ hmem).2 hadmits⟩
  | matching => exact ⟨fun _ => .matching, fun _ => rfl⟩
  | switch => exact ⟨fun _ => .switch, fun _ => rfl⟩
  | chain => exact ⟨fun _ => .chain, fun _ => rfl⟩

end Node

/-! ## Listings

    What a message says of types is put together by a function.  Here it is said which
    listing a list of types has: every type goes by a name that specs know it by, and each
    pair of neighbours has exactly one separator between them. -/

/-- A text is the texts one after another, with the separator between any two neighbours. -/
inductive Text.Joined (separator : String) : List String → String → Prop
  | none : Joined separator [] ""
  | one (text : String) : Joined separator [text] text
  | more (text : String) {next joined : String} {rest : List String}
      (h : Joined separator (next :: rest) joined) :
      Joined separator (text :: next :: rest) (text ++ separator ++ joined)

theorem Text.joined_joinWith (separator : String) (texts : List String) :
    Joined separator texts (joinWith separator texts) := by
  induction texts with
  | nil => exact .none
  | cons first rest ih =>
      cases rest with
      | nil => exact .one first
      | cons next rest => exact .more first ih

theorem Text.intercalate_eq_joinWith (separator : String) (texts : List String) :
    separator.intercalate texts = joinWith separator texts := by
  induction texts with
  | nil => exact String.intercalate_nil
  | cons first rest ih =>
      cases rest with
      | nil => exact String.intercalate_singleton
      | cons next rest => rw [String.intercalate_cons_cons, ih]; rfl

/-- A type is called by the first of its built-in names; those that come later are aliases. -/
def BaseType.IsCalled (base : BaseType) (name : String) : Prop :=
  builtin.find? (fun entry => entry.2 = base) = some (name, base)

theorem BaseType.isCalled_name (base : BaseType) : base.IsCalled base.name := by
  cases base with
  | primitive type =>
      cases type with
      | format format => cases format <;> rfl
      | _ => rfl
  | object => rfl
  | array => rfl

namespace Node

/-- What a message says of the type of a node: a union says it of all its members, with
    bars between them, and a branch, which has no type of its own, takes any. -/
inductive IsDescribed : Node → String → Prop
  | leaf {type : Primitive} {facets : Facets} {name : String}
      (h : (BaseType.primitive type).IsCalled name) : IsDescribed (.leaf type facets) name
  | object {facets : Facets} {fields : List (String × Node)} {name : String}
      (h : BaseType.object.IsCalled name) : IsDescribed (.object facets fields) name
  | array {facets : Facets} {items : Option Node} {name : String}
      (h : BaseType.array.IsCalled name) : IsDescribed (.array facets items) name
  | union {facets : Facets} {members : List Node} {texts : List String} {text : String}
      (hmembers : List.Forall₂ IsDescribed members texts) (h : Text.Joined " | " texts text) :
      IsDescribed (.union facets members) text
  | matching {facets : Facets} {reference : String} {cases : List (String × Node)} {name : String}
      (h : (BaseType.primitive .any).IsCalled name) :
      IsDescribed (.matching facets reference cases) name
  | switch {facets : Facets} {field : String} {yes : Node} {no : Option Node} {name : String}
      (h : (BaseType.primitive .any).IsCalled name) : IsDescribed (.switch facets field yes no) name
  | chain {facets : Facets} {body : Chain Node} {name : String}
      (h : (BaseType.primitive .any).IsCalled name) : IsDescribed (.chain facets body) name

/-- Every node has a description, the text that messages list it by. -/
theorem isDescribed_typeText (node : Node) : node.IsDescribed node.typeText := by
  induction node using Node.induction with
  | leaf type facets => exact .leaf (BaseType.isCalled_name _)
  | object facets fields => exact .object (BaseType.isCalled_name .object)
  | array facets items => exact .array (BaseType.isCalled_name .array)
  | union facets members ih =>
      show IsDescribed (.union facets members) (" | ".intercalate (typeTexts members))
      rw [typeTexts_eq_map, Text.intercalate_eq_joinWith]
      refine .union ?_ (Text.joined_joinWith " | " _)
      rw [List.forall₂_map_right_iff, List.forall₂_same]
      exact ih
  | matching => exact .matching (BaseType.isCalled_name (.primitive .any))
  | switch => exact .switch (BaseType.isCalled_name (.primitive .any))
  | chain => exact .chain (BaseType.isCalled_name (.primitive .any))

/-- The texts that a message lists nodes by describe them, one each. -/
theorem isDescribed_typeTexts (nodes : List Node) :
    List.Forall₂ IsDescribed nodes (typeTexts nodes) := by
  rw [typeTexts_eq_map, List.forall₂_map_right_iff, List.forall₂_same]
  exact fun node _ => isDescribed_typeText node

end Node

/-! ## Nodes by themselves -/

/-- Slots that are errors are those errors. -/
theorem map_ready_readyErrors {slots : List Slot} (h : ∀ slot ∈ slots, slot.isReady = true) :
    (readyErrors slots).map Slot.ready = slots := by
  induction slots with
  | nil => rfl
  | cons slot rest ih =>
      cases slot with
      | ready error =>
          show Slot.ready error :: (readyErrors rest).map Slot.ready = _
          rw [ih fun slot hmem => h slot (List.mem_cons_of_mem _ hmem)]
      | undecided check => exact nomatch h _ List.mem_cons_self

theorem hasErrors_map_ready (errors : List FieldError) :
    hasErrors (errors.map Slot.ready) = !errors.isEmpty := by
  cases errors <;> rfl

/-- The notes that a check makes when it is called. -/
def Custom.notes (custom : Custom) (value : Json) : List String :=
  match custom.check with
  | .immediate check => (check value).notes
  | .suspended _ => []

namespace Rules

variable {rules : Rules} {mode : Mode} {site : Site}

/-- The walk of a node by itself: there are no slots before. -/
def alone (rules : Rules) (mode : Mode) (node : Node) (site : Site) :
    Noted (Except Error (List Slot)) :=
  (rules.walk mode node site []).run

/-- The errors of a node by itself. -/
def errorsAlone (rules : Rules) (mode : Mode) (node : Node) (site : Site) : List FieldError :=
  match (rules.alone mode node site).value with
  | .ok slots => readyErrors slots
  | .error _ => []

/-- The errors of a node by itself are what is kept of its findings. -/
theorem errorsAlone_eq_keep {node : Node} (h : node.IsImmediate) :
    (rules.errorsAlone mode node site).map .ready = rules.keep (rules.findings node site)
      ∧ (rules.alone mode node site).value = .ok (rules.keep (rules.findings node site)) := by
  have hreports : rules.Reports (rules.walk .suspending node site) _ := walk_reports node site
  have hvalue := hreports []
  rw [keep_nil, List.nil_append, Yields, ← walk_of_isImmediate h mode] at hvalue
  have hfound : ∀ slot ∈ rules.findings node site, slot.isReady = true :=
    isReady_of_mem_findings h site
  have hready : ∀ slot ∈ rules.keep (rules.findings node site), slot.isReady = true := by
    intro slot hmem
    rw [keep] at hmem
    split at hmem
    · exact hfound slot (mem_of_mem_upTo hmem)
    · exact hfound slot hmem
  refine ⟨?_, hvalue⟩
  rw [errorsAlone, alone, hvalue]
  exact map_ready_readyErrors hready

/-- **BY ITSELF A NODE COMES TO ITS ERRORS**, and to nothing else, where no check is
    suspended. -/
theorem value_alone {node : Node} (h : node.IsImmediate) :
    (rules.alone mode node site).value = .ok ((rules.errorsAlone mode node site).map .ready) := by
  rw [(errorsAlone_eq_keep h).1]
  exact (errorsAlone_eq_keep h).2

/-- Without suspended checks, a member that is walked alone makes its own errors and notes. -/
theorem makes_alone {node : Node} (h : node.IsImmediate) :
    Makes (rules.walk mode node site []) ((rules.errorsAlone mode node site).map .ready)
      (rules.alone mode node site).notes := by
  rw [Makes, ← value_alone h]
  rfl

/-! ## Members -/

/-- The member has nothing against the value by itself. -/
def isClean (rules : Rules) (mode : Mode) (site : Site) (member : Node) : Bool :=
  (rules.errorsAlone mode member site).isEmpty

/-- What trying the members comes to, by the errors that each has by itself. -/
def trialAlone (rules : Rules) (mode : Mode) (members : List Node) (site : Site) (value : Json) : Trial :=
  if members.any (rules.isClean mode site) then .agreed []
  else
    .refused ((members.find? (Node.fits value)).map fun member =>
      (rules.errorsAlone mode member site).map .ready)

/-- A member that is not clean is at best the closest one. -/
theorem trialFrom_trialAlone_cons {member : Node} {value : Json} (closest : Option (List Slot))
    (rest : List Node) (h : rules.isClean mode site member = false) :
    trialFrom closest (rules.trialAlone mode (member :: rest) site value)
      = trialFrom
          (closest <|> if member.fits value then
            some ((rules.errorsAlone mode member site).map .ready) else none)
          (rules.trialAlone mode rest site value) := by
  rw [trialAlone, trialAlone, List.any_cons, h, Bool.false_or, List.find?_cons]
  cases rest.any (rules.isClean mode site) with
  | true => rfl
  | false => cases member.fits value <;> cases closest <;> rfl

/-- **EACH MEMBER IS TRIED BY ITSELF**, one after the other up to the first clean one. -/
theorem makes_walkMembers_alone {members : List Node} (h : ∀ member ∈ members, member.IsImmediate)
    (value : Json) :
    ∀ closest, Makes (rules.walkMembers mode members value site closest)
      (trialFrom closest (rules.trialAlone mode members site value))
      ((upTo (rules.isClean mode site) members).flatMap fun member =>
        (rules.alone mode member site).notes) := by
  -- by induction on the members, whatever was kept of those before
  induction members with
  | nil =>
      intro closest
      cases closest <;> exact makes_pure _
  | cons member rest ih =>
      intro closest
      have hown : Makes (rules.walk mode member site []) _ _ := makes_alone (h member List.mem_cons_self)
      rw [upTo]
      cases hclean : rules.isClean mode site member with
      | true =>
          have hnil : rules.errorsAlone mode member site = [] := List.isEmpty_iff.1 hclean
          rw [if_pos rfl, List.flatMap_singleton, trialAlone, List.any_cons, hclean]
          rw [← List.append_nil (rules.alone mode member site).notes]
          refine hown.bind ?_
          rw [hnil]
          exact makes_pure _
      | false =>
          rw [if_neg Bool.false_ne_true, List.flatMap_cons, trialFrom_trialAlone_cons closest rest hclean]
          refine hown.bind ?_
          have hrefused : hasErrors ((rules.errorsAlone mode member site).map .ready) = true := by
            rw [hasErrors_map_ready, Bool.not_eq_true']
            exact hclean
          rw [if_pos hrefused]
          exact ih (fun one hmem => h one (List.mem_cons_of_mem member hmem)) _

/-! ## The union's own checks -/

/-- The checks that are asked: all, or those up to the first that objects where the first
    error ends the validation. -/
def asked (rules : Rules) (customs : List Custom) (value : Json) : List Custom :=
  if rules.config.abortEarly then upTo (fun custom => (custom.verdict value).isSome) customs
  else customs

/-- What the checks of a node object to. -/
def objections (rules : Rules) (node : Node) (place : Place) (value : Json) : List FieldError :=
  (rules.asked node.facets.customs value).filterMap fun custom =>
    (custom.verdict value).map (rules.objection node place)

section

variable {node : Node} {place : Place} {value : Json} {slots : List Slot}

/-- Where there is room, one slot is added. -/
theorem add_of_isFull_eq_false (h : rules.isFull slots = false) (slot : Slot) :
    rules.add slots slot = slots ++ [slot] := by
  rw [add, h, if_neg Bool.false_ne_true]

/-- Where there is room, slots are kept as they are kept by themselves. -/
theorem keep_append (h : rules.isFull slots = false) (more : List Slot) :
    rules.keep (slots ++ more) = slots ++ rules.keep more := by
  rw [keep, keep]
  by_cases habort : rules.config.abortEarly = true
  · rw [isFull, habort, Bool.true_and] at h
    rw [if_pos habort, if_pos habort]
    exact upTo_append_of_not_any more h
  · rw [if_neg habort, if_neg habort]

/-- A custom check that answers at once adds its objection, if it has one. -/
theorem makes_runCustom {custom : Custom} (h : custom.isSuspended = false) (slots : List Slot) :
    Makes (rules.runCustom mode node place value custom slots)
      (match custom.verdict value with
        | some text => rules.add slots (.ready (rules.objection node place text))
        | none => slots)
      (custom.notes value) := by
  obtain ⟨serial, check | check⟩ := custom
  · have hlift := makes_lift (check value)
    show Makes (rules.runCustom mode node place value ⟨serial, .immediate check⟩ slots)
      (match (check value).value with
        | some text => rules.add slots (.ready (rules.objection node place text))
        | none => slots) (check value).notes
    rw [← List.append_nil (check value).notes]
    refine hlift.bind ?_
    cases (check value).value <;> exact makes_pure _
  · cases h

/-- Once there are errors enough no custom check is run. -/
theorem makes_runCustoms_of_isFull (customs : List Custom) (h : rules.isFull slots = true) :
    Makes (rules.runCustoms mode node place value customs slots) slots [] := by
  cases customs with
  | nil => exact makes_pure slots
  | cons custom rest =>
      rw [runCustoms, if_pos h]
      exact makes_pure slots

/-- The custom checks after an objection are asked only if validation does not end early. -/
theorem asked_cons (custom : Custom) (rest : List Custom) :
    rules.asked (custom :: rest) value
      = custom :: if rules.config.abortEarly && (custom.verdict value).isSome then []
          else rules.asked rest value := by
  rw [asked, asked]
  cases rules.config.abortEarly with
  | false => rfl
  | true =>
      rw [if_pos rfl, if_pos rfl, upTo, Bool.true_and]
      cases (custom.verdict value).isSome <;> rfl

/-- **CHECKS ARE ASKED** as long as there is room, and what they object to is added. -/
theorem makes_runCustoms {customs : List Custom} (h : ∀ custom ∈ customs, custom.isSuspended = false)
    (hroom : rules.isFull slots = false) :
    Makes (rules.runCustoms mode node place value customs slots)
      (slots ++ ((rules.asked customs value).filterMap fun custom =>
        (custom.verdict value).map (rules.objection node place)).map .ready)
      ((rules.asked customs value).flatMap fun custom => custom.notes value) := by
  induction customs generalizing slots with
  | nil =>
      have hnone : rules.asked [] value = [] := by
        rw [asked]
        split <;> rfl
      rw [hnone, List.filterMap_nil, List.map_nil, List.append_nil]
      exact makes_pure slots
  | cons custom rest ih =>
      have hrest := fun one hmem => h one (List.mem_cons_of_mem custom hmem)
      have hone : Makes (rules.runCustom mode node place value custom slots) _ _ :=
        makes_runCustom (h custom List.mem_cons_self) slots
      rw [runCustoms, hroom, if_neg Bool.false_ne_true, asked_cons, List.flatMap_cons]
      refine hone.bind ?_
      cases hverdict : custom.verdict value with
      | none =>
          rw [List.filterMap_cons, hverdict, Option.isSome_none, Bool.and_false,
            if_neg Bool.false_ne_true]
          exact ih hrest hroom
      | some text =>
          rw [List.filterMap_cons, hverdict, Option.isSome_some, Bool.and_true]
          show Makes (rules.runCustoms mode node place value rest
            (rules.add slots (.ready (rules.objection node place text)))) _ _
          rw [add_of_isFull_eq_false hroom]
          have herrors : hasErrors (slots ++ [.ready (rules.objection node place text)]) = true := by
            rw [hasErrors_append]
            exact Bool.or_true _
          -- after an objection there is no more room if validation ends early, and otherwise as
          -- much as before
          cases habort : rules.config.abortEarly with
          | true =>
              refine makes_runCustoms_of_isFull rest ?_
              rw [isFull, habort, herrors]
              rfl
          | false =>
              have hmore := ih hrest (isFull_eq_false habort
                (slots ++ [.ready (rules.objection node place text)]))
              rw [List.append_assoc] at hmore
              exact hmore

end

/-! ## Unions -/

/-- What a union takes over from its members about a value: nothing, if one of them is
    clean; otherwise the errors of the first whose type admits the value, or one error of
    its own where there is none. -/
inductive Settles (rules : Rules) (mode : Mode) (union : Node) (members : List Node) (site : Site)
    (value : Json) : List FieldError → Prop
  | clean {member : Node} (hmem : member ∈ members)
      (hclean : rules.errorsAlone mode member site = []) :
      Settles rules mode union members site value []
  | closest {before after : List Node} {member : Node} (hsplit : members = before ++ member :: after)
      (hnone : ∀ one ∈ members, rules.errorsAlone mode one site ≠ [])
      (hbefore : ∀ one ∈ before, ¬ one.Admits value) (hadmits : member.Admits value) :
      Settles rules mode union members site value (rules.errorsAlone mode member site)
  | nobody (hnone : ∀ one ∈ members, rules.errorsAlone mode one site ≠ [])
      (hadmits : ∀ one ∈ members, ¬ one.Admits value) :
      Settles rules mode union members site value [rules.noMember union site.place members]

section

variable {union : Node} {members : List Node} {value : Json} {own : List FieldError}

theorem isClean_iff {member : Node} :
    rules.isClean mode site member = true ↔ rules.errorsAlone mode member site = [] :=
  List.isEmpty_iff

/-- A union takes over no error exactly if one of its members is clean. -/
theorem Settles.eq_nil_iff (h : rules.Settles mode union members site value own) :
    own = [] ↔ ∃ member ∈ members, rules.errorsAlone mode member site = [] := by
  cases h with
  | clean hmem hclean => exact ⟨fun _ => ⟨_, hmem, hclean⟩, fun _ => rfl⟩
  | closest hsplit hnone =>
      constructor
      · intro hnil
        exact absurd hnil (hnone _ (by simp [hsplit]))
      · rintro ⟨one, hmem, hclean⟩
        exact absurd hclean (hnone one hmem)
  | nobody hnone =>
      constructor
      · intro hnil
        cases hnil
      · rintro ⟨one, hmem, hclean⟩
        exact absurd hclean (hnone one hmem)

/-- What a union comes to about a value with `own` taken over from its members: its own
    checks are asked exactly if nothing is. -/
def unionErrors (rules : Rules) (union : Node) (site : Site) (value : Json) (own : List FieldError) :
    List FieldError :=
  own ++ if own = [] then rules.objections union site.place value else []

/-- The notes of the checks that are asked then. -/
def unionNotes (rules : Rules) (union : Node) (value : Json) (own : List FieldError) : List String :=
  if own = [] then (rules.asked union.facets.customs value).flatMap fun custom => custom.notes value
  else []

/-- Where one error is taken over, the union adds it and asks nothing. -/
theorem makes_addAll {slots : List Slot} (hroom : rules.isFull slots = false) (hown : own ≠ [])
    (hkept : rules.keep (own.map .ready) = own.map .ready) :
    Makes (pure (rules.addAll slots (own.map .ready)))
      (slots ++ (rules.unionErrors union site value own).map .ready)
      (rules.unionNotes union value own) := by
  have hslots : rules.addAll slots (own.map .ready) = slots ++ own.map .ready := by
    have hadded := addAll_keep rules slots (own.map .ready)
    rw [keep_of_isFull_eq_false rules hroom, keep_append hroom, hkept] at hadded
    exact hadded
  rw [hslots, unionErrors, unionNotes, if_neg hown, if_neg hown, List.append_nil]
  exact makes_pure _

/-- **WHAT TRYING THE MEMBERS COMES TO IS SETTLED** by the errors that each has by itself. -/
theorem exists_settles (himmediate : ∀ member ∈ members, member.IsImmediate)
    (hunion : union.isSuspended = false) :
    ∃ own, rules.Settles mode union members site value own
      ∧ ∀ slots, rules.isFull slots = false →
        Makes (rules.concludeTrial mode union members site.place value slots
            (rules.trialAlone mode members site value))
          (slots ++ (rules.unionErrors union site value own).map .ready)
          (rules.unionNotes union value own) := by
  by_cases hclean : ∃ member ∈ members, rules.errorsAlone mode member site = []
  -- some member is clean, so only the checks of the union itself are left
  · obtain ⟨member, hmem, hmember⟩ := hclean
    have hany : members.any (rules.isClean mode site) = true :=
      List.any_eq_true.2 ⟨member, hmem, isClean_iff.2 hmember⟩
    refine ⟨[], .clean hmem hmember, ?_⟩
    intro slots hroom
    rw [trialAlone, if_pos hany]
    exact makes_runCustoms ((Node.isSuspended_eq_false_iff union).1 hunion) hroom
  · have hnone : ∀ one ∈ members, rules.errorsAlone mode one site ≠ [] :=
      fun one hmem hnil => hclean ⟨one, hmem, hnil⟩
    have hany : ¬ members.any (rules.isClean mode site) = true := by
      intro hany
      obtain ⟨member, hmem, hmember⟩ := List.any_eq_true.1 hany
      exact hnone member hmem (isClean_iff.1 hmember)
    rw [trialAlone, if_neg hany]
    -- no member is clean: the first one of the right type speaks for all, if there is one
    cases hfind : members.find? (Node.fits value) with
    | some member =>
        obtain ⟨hfits, before, after, hsplit, hbefore⟩ := List.find?_eq_some_iff_append.1 hfind
        have hmem : member ∈ members := List.mem_of_find?_eq_some hfind
        refine ⟨_, .closest hsplit hnone ?_ (Node.fits_iff_admits.1 hfits), ?_⟩
        · intro one hone hadmits
          have hrefused := hbefore one hone
          rw [Node.fits_iff_admits.2 hadmits] at hrefused
          cases hrefused
        · intro slots hroom
          refine makes_addAll hroom (hnone member hmem) ?_
          rw [(errorsAlone_eq_keep (himmediate member hmem)).1]
          have hkept := keep_append_keep rules [] (rules.findings member site)
          exact hkept
    | none =>
        refine ⟨_, .nobody hnone ?_, ?_⟩
        · intro one hone hadmits
          exact List.find?_eq_none.1 hfind one hone (Node.fits_iff_admits.2 hadmits)
        · intro slots hroom
          show Makes (pure (rules.addAll slots
            ([rules.noMember union site.place members].map .ready))) _ _
          refine makes_addAll hroom (List.cons_ne_nil _ _) ?_
          rw [keep]
          split
          · exact upTo_singleton _ _
          · rfl

section

variable {facets : Facets} (h : (Node.union facets members).IsImmediate)
  (hvalue : site.value = some value) (hnull : value.isNull = false)
include h hvalue hnull

/-- The walk of a union, wherever there is room. -/
theorem exists_run_union (rules : Rules) (mode : Mode) :
    ∃ own, rules.Settles mode (.union facets members) members site value own
      ∧ ∀ slots, rules.isFull slots = false →
        (rules.walk mode (.union facets members) site slots).run
          = ⟨.ok (slots ++ (rules.unionErrors (.union facets members) site value own).map .ready),
              ((upTo (rules.isClean mode site) members).flatMap fun member =>
                  (rules.alone mode member site).notes)
                ++ rules.unionNotes (.union facets members) value own⟩ := by
  have himmediate : ∀ member ∈ members, member.IsImmediate := fun member hmem => h.inside hmem
  have hunion : (Node.union facets members).isSuspended = false := h.here
  obtain ⟨own, hsettles, hconcludes⟩ :
      ∃ own, rules.Settles mode (.union facets members) members site value own ∧ _ :=
    exists_settles himmediate hunion
  refine ⟨own, hsettles, ?_⟩
  intro slots hroom
  have hpresent : site.value.filter (fun value => !value.isNull || (Node.union facets members).acceptsNull)
      = some value := Node.present?_of_isNull_eq_false hvalue hnull
  have htrial : Makes (rules.walkMembers mode members value site none) _ _ :=
    makes_walkMembers_alone himmediate value none
  rw [trialFrom_none] at htrial
  -- written out, since both modes have to be taken at once
  have hwalk : rules.walk mode (.union facets members) site slots
      = rules.enter (.union facets members) (fun value slots => do
          let trial ← rules.walkMembers mode members value site none
          rules.concludeTrial mode (.union facets members) members site.place value slots trial)
          site slots := rfl
  rw [hwalk, enter, unlessFull, hroom, if_neg Bool.false_ne_true]
  simp only [hpresent]
  exact htrial.bind (hconcludes slots hroom)

/-- A union by itself has nothing against a value exactly if some member has nothing
    against it and no check of the union objects. -/
theorem errorsAlone_union_eq_nil_iff (rules : Rules) (mode : Mode) :
    rules.errorsAlone mode (.union facets members) site = []
      ↔ (∃ member ∈ members, rules.errorsAlone mode member site = [])
        ∧ rules.objections (.union facets members) site.place value = [] := by
  obtain ⟨own, hsettles, hrun⟩ := exists_run_union h hvalue hnull rules mode
  have herrors : rules.errorsAlone mode (.union facets members) site
      = rules.unionErrors (.union facets members) site value own := by
    rw [errorsAlone, alone, hrun [] (Bool.and_false _)]
    show readyErrors (List.map _ _) = _
    rw [readyErrors, List.filterMap_map]
    exact List.filterMap_some
  rw [herrors, ← hsettles.eq_nil_iff, unionErrors, List.append_eq_nil_iff]
  constructor
  · rintro ⟨hnil, hobjections⟩
    rw [if_pos hnil] at hobjections
    exact ⟨hnil, hobjections⟩
  · rintro ⟨hnil, hobjections⟩
    rw [if_pos hnil]
    exact ⟨hnil, hobjections⟩

end

end

/-- **THE FIRST CLEAN MEMBER WINS.**  Of a union without suspended checks, each member comes
    by itself to a list of errors.  If one of them comes to none, the union takes over
    nothing and asks its own checks; otherwise it takes over exactly the errors of one member,
    the first whose type admits the value, or has one error of its own, and asks nothing.  That
    error lists the descriptions of all members with commas between them, where a nested union
    is described by those of its own members with bars between them.  This goes for every present value, within whatever record, at every
    place and from all slots with room; what is asked on the way are the members up to the
    first clean one.  Whether the union accepts the value at all does not depend on the order
    of the members. -/
theorem first_clean_member_wins {facets : Facets} {members : List Node}
    (h : (Node.union facets members).IsImmediate) (rules : Rules) (mode : Mode) {site : Site}
    {value : Json} (hvalue : site.value = some value) (hnull : value.isNull = false) :
    (∀ member ∈ members, (rules.alone mode member site).value
        = .ok ((rules.errorsAlone mode member site).map .ready))
      ∧ (∃ own, rules.Settles mode (.union facets members) members site value own
        ∧ (own = [] ↔ ∃ member ∈ members, rules.errorsAlone mode member site = [])
        ∧ ∀ slots, rules.isFull slots = false →
          (rules.walk mode (.union facets members) site slots).run
            = ⟨.ok (slots ++ (rules.unionErrors (.union facets members) site value own).map .ready),
                ((upTo (rules.isClean mode site) members).flatMap fun member =>
                    (rules.alone mode member site).notes)
                  ++ rules.unionNotes (.union facets members) value own⟩)
      ∧ ((rules.noMember (.union facets members) site.place members).keyword = "type"
        ∧ ∃ texts listing, List.Forall₂ Node.IsDescribed members texts
          ∧ Text.Joined ", " texts listing
          ∧ (rules.noMember (.union facets members) site.place members).params
            = [("types", .string listing)])
      ∧ ∀ others, others.Perm members →
        (rules.errorsAlone mode (.union facets others) site = []
          ↔ rules.errorsAlone mode (.union facets members) site = []) := by
  refine ⟨fun member hmem => value_alone (h.inside hmem), ?_, ⟨rfl, ?_⟩, ?_⟩
  · obtain ⟨own, hsettles, hrun⟩ := exists_run_union h hvalue hnull rules mode
    exact ⟨own, hsettles, hsettles.eq_nil_iff, hrun⟩
  · exact ⟨_, _, Node.isDescribed_typeTexts members, Text.joined_joinWith ", " _, rfl⟩
  · intro others hperm
    have hothers : (Node.union facets others).IsImmediate :=
      .intro h.here fun one hmem => h.inside (hperm.mem_iff.1 hmem)
    rw [errorsAlone_union_eq_nil_iff hothers hvalue hnull, errorsAlone_union_eq_nil_iff h hvalue hnull]
    simp only [hperm.mem_iff]
    rfl

/-- A count or one of two codes, where a code may be taken. -/
def codeOrCount : Node :=
  .union { customs := [⟨1, .immediate fun _ => ⟨some "TAKEN", ["asked"]⟩⟩] }
    [.leaf .integer {}, .leaf .string { choices := [.string "a", .string "b"] }]

theorem first_clean_member_wins_codeOrCount :
    let rules := ofConfig {}
    let site := Site.root (.string "x")
    let members := [.leaf .integer {}, .leaf .string { choices := [.string "a", .string "b"] }]
    (∃ own, rules.Settles .immediate codeOrCount members site (.string "x") own
        ∧ rules.alone .immediate codeOrCount site = ⟨.ok (own.map .ready), []⟩)
      ∧ (rules.errorsAlone .immediate codeOrCount site).map FieldError.keyword = ["enum"]
      ∧ (rules.errorsAlone .immediate codeOrCount (.root (.bool true))).map FieldError.params
          = [[("types", .string "integer, string")]]
      ∧ (rules.alone .immediate codeOrCount (.root (.string "a"))).notes = ["asked"] := by
  intro rules site members
  have himmediate : codeOrCount.IsImmediate := (Node.firstSuspended?_eq_none_iff .root _).1 rfl
  have hnone : ¬ ∃ member ∈ members, rules.errorsAlone .immediate member site = [] := by
    decide +kernel
  have hvalue : site.value = some (.string "x") := rfl
  have hnull : (Json.string "x").isNull = false := rfl
  obtain ⟨-, ⟨own, hsettles, hclean, hrun⟩, -⟩ :=
    first_clean_member_wins himmediate rules .immediate hvalue hnull
  have hown : own ≠ [] := fun hnil => hnone (hclean.1 hnil)
  refine ⟨⟨own, hsettles, ?_⟩, by decide +kernel, rfl, by decide +kernel⟩
  have hthis := hrun [] rfl
  rw [unionErrors, unionNotes, if_neg hown, if_neg hown, List.append_nil, List.append_nil] at hthis
  exact hthis

end Rules

end Conform
