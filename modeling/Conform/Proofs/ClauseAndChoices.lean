import Conform.Proofs.TreeSources
import Conform.Proofs.WellFormed

/-! # A clause and choices — when a node has both

    A text sets a clause or choices on the tree of a name.  Of the same kind there may be
    some already: what the text writes takes their place.  For a text of the other kind
    there is no ROOM: it is put beside what is there, and the node has both
    (`exclusive_constrain_iff`).

    A built-in type has room for everything.  A registered one has as much as the trees have
    that its name may stand for.  Whether an outline denotes a tree in which no node has
    both is decided by the texts in it that go on after a name
    (`Outline.ensures_decided`). -/

namespace Conform

open Conform.Text (Chars)

/-! ## Checks of one kind -/

namespace Facets

/-- There is no clause or there are no choices. -/
def Exclusive (facets : Facets) : Prop := facets.clause = none ∨ facets.choices = []

/-- The facets have nothing of the other kind than what the text writes: choices if it has
    a bar, and a clause otherwise. -/
def HasRoom (facets : Facets) (rest : Chars) : Prop :=
  if rest.any (· == '|') then facets.clause = none else facets.choices = []

end Facets

/-- No node of the tree has both a clause and choices. -/
def Node.IsExclusive (node : Node) : Prop := node.Every fun part => part.facets.Exclusive

/-- **WHAT A TEXT WRITES IS EXCLUSIVE EXACTLY WHERE THERE IS ROOM** for it. -/
theorem Dsl.exclusive_constrain_iff {name body rest : Chars} {node constrained : Node}
    (h : constrain name body rest node = .ok constrained) :
    constrained.facets.Exclusive ↔ node.facets.HasRoom rest := by
  rw [constrain] at h
  rw [Facets.HasRoom]
  by_cases hbar : rest.any (· == '|') = true
  · rw [if_pos hbar] at h
    rw [if_pos hbar]
    cases htype : ChoiceType.ofBase? node.base with
    | none =>
        rw [htype] at h
        cases h
    | some type =>
        rw [htype] at h
        obtain ⟨⟨found, choices⟩, hchoices, hnode⟩ := exists_of_bind_eq_ok h
        obtain rfl := Except.ok.inj hnode
        obtain rfl : found = type := (choicesFrom_of_choicesOf hchoices).1 type rfl
        have hseveral : 2 ≤ choices.length := (suits_of_choicesOf htype hchoices).1
        have hsome : choices ≠ [] := List.ne_nil_of_length_pos (by omega)
        rw [Node.facets_mapFacets, Facets.Exclusive]
        exact or_iff_left hsome
  · rw [if_neg hbar] at h
    rw [if_neg hbar]
    cases hmeasure : node.base.measure? with
    | none =>
        rw [hmeasure] at h
        cases h
    | some measure =>
        rw [hmeasure] at h
        obtain ⟨clause, -, hnode⟩ := exists_of_bind_eq_ok h
        obtain rfl := Except.ok.inj hnode
        rw [Node.facets_mapFacets, Facets.Exclusive]
        exact or_iff_right (Option.some_ne_none clause)

/-! ## What names stand for -/

namespace Registry

/-- The name may stand for the node: the built-in type of that name, or else a tree that it
    is registered with, now or at a later call. -/
def Answers (registry : Registry) (name : String) (node : Node) : Prop :=
  match BaseType.ofName? name with
  | some base => node = .ofType base
  | none => ∃ registration, Members.valueOf? registry.types name = some registration
      ∧ Provides registration node

/-- No name may stand for more than it may with the other registry. -/
def Within (registry other : Registry) : Prop :=
  ∀ name node, registry.Answers name node → other.Answers name node

/-- There is room for the text, whatever the name stands for. -/
def AlwaysHasRoom (registry : Registry) (name : String) (rest : Chars) : Prop :=
  ∀ node, registry.Answers name node → node.facets.HasRoom rest

/-- There is room for the text with something that the name may stand for. -/
def SometimesHasRoom (registry : Registry) (name : String) (rest : Chars) : Prop :=
  ∃ node, registry.Answers name node ∧ node.facets.HasRoom rest

theorem answers_builtin (registry : Registry) {name : String} {base : BaseType}
    (h : BaseType.ofName? name = some base) : registry.Answers name (.ofType base) := by
  rw [Answers, h]

/-- What a name stands for is exclusive, if everything is that the registry yields. -/
theorem isExclusive_of_answers {registry : Registry}
    (hyields : ∀ node, registry.Yields node → node.IsExclusive) {name : String} {node : Node}
    (h : registry.Answers name node) : node.IsExclusive := by
  rw [Answers] at h
  split at h
  · obtain rfl := h
    refine .of_parts_eq_nil ?_ (Node.children_ofType _)
    rw [Node.facets_ofType]
    exact .inl rfl
  · obtain ⟨registration, hvalue, hprovides⟩ := h
    exact hyields node ⟨_, Members.mem_of_valueOf?_eq_some hvalue, hprovides⟩

/-- A call of a factory is counted, and changes nothing else. -/
theorem answers_of_resolve? {registry after : Registry} {name : String} {node : Node}
    (hname : BaseType.ofName? name = none) (h : registry.resolve? name = (some node, after)) :
    registry.Answers name node ∧ after.Within registry := by
  rw [resolve?] at h
  split at h
  · cases h
  · next found hvalue =>
      obtain rfl : found = node := Option.some.inj (congrArg Prod.fst h)
      obtain rfl : registry = after := congrArg Prod.snd h
      rw [Answers, hname]
      exact ⟨⟨_, hvalue, rfl⟩, fun _ _ hanswers => hanswers⟩
  · next make calls hvalue =>
      obtain rfl : make calls = node := Option.some.inj (congrArg Prod.fst h)
      obtain rfl := congrArg Prod.snd h
      constructor
      · rw [Answers, hname]
        exact ⟨_, hvalue, calls, rfl⟩
      -- a factory was taken, and its turn put back: only the entry of its own name has changed
      · intro other found hanswers
        rw [Answers] at hanswers ⊢
        split
        · next base hbase =>
            rw [hbase] at hanswers
            exact hanswers
        · next hbase =>
            rw [hbase] at hanswers
            obtain ⟨registration, hafter, hprovides⟩ := hanswers
            by_cases hother : other = name
            · obtain rfl := hother
              rw [Members.valueOf?_put_self] at hafter
              obtain rfl := Option.some.inj hafter
              exact ⟨_, hvalue, hprovides⟩
            · rw [Members.valueOf?_put_of_ne _ _ hother] at hafter
              exact ⟨registration, hafter, hprovides⟩

end Registry

/-! ## What is written, and what comes of it -/

/-- The trees are exclusive if `must` holds of all that is written, and only if `may`
    does. -/
structure Decides {α : Type} (must may : α → Prop) (written : List α) (nodes : List Node) : Prop where
  safe : (∀ one ∈ written, must one) → ∀ node ∈ nodes, node.IsExclusive
  only : (∀ node ∈ nodes, node.IsExclusive) → ∀ one ∈ written, may one

namespace Decides

variable {α : Type} {must may : α → Prop} {one : α} {written more : List α} {node : Node}
  {nodes others : List Node}

/-- Where nothing is written, the trees are exclusive. -/
theorem of_isExclusive (h : ∀ node ∈ nodes, node.IsExclusive) : Decides must may [] nodes :=
  ⟨fun _ => h, fun _ _ hmem => nomatch hmem⟩

theorem append (hfirst : Decides must may written nodes) (hmore : Decides must may more others) :
    Decides must may (written ++ more) (nodes ++ others) := by
  constructor
  · intro hmust node hnode
    rw [List.forall_mem_append] at hmust
    rcases List.mem_append.1 hnode with hnode | hnode
    · exact hfirst.safe hmust.1 node hnode
    · exact hmore.safe hmust.2 node hnode
  · intro hall one hone
    rw [List.forall_mem_append] at hall
    rcases List.mem_append.1 hone with hone | hone
    · exact hfirst.only hall.1 one hone
    · exact hmore.only hall.2 one hone

theorem cons (hfirst : Decides must may [one] [node]) (hmore : Decides must may more others) :
    Decides must may (one :: more) (node :: others) :=
  append hfirst hmore

/-- What says the same of the trees may be written otherwise. -/
theorem congr {β : Type} {other : β} {dressed : Node} {must' may' : β → Prop}
    (hmust : must' other ↔ must one) (hmay : may' other ↔ may one)
    (hnode : dressed.IsExclusive ↔ node.IsExclusive) (h : Decides must may [one] [node]) :
    Decides must' may' [other] [dressed] := by
  obtain ⟨hsafe, honly⟩ := h
  rw [List.forall_mem_singleton, List.forall_mem_singleton] at hsafe honly
  constructor
  · rw [List.forall_mem_singleton, List.forall_mem_singleton, hmust, hnode]
    exact hsafe
  · rw [List.forall_mem_singleton, List.forall_mem_singleton, hmay, hnode]
    exact honly

/-- **A NODE IS DECIDED BY ITS PARTS** and by what is written of the node itself. -/
theorem of_parts {parts : α → List α}
    (hparts : Decides (Throughout parts must) (Throughout parts may) (parts one) node.children)
    (hsafe : must one → node.facets.Exclusive) (honly : node.facets.Exclusive → may one) :
    Decides (Throughout parts must) (Throughout parts may) [one] [node] := by
  constructor
  · intro hmust
    have hmust := Throughout.intro_iff.1 (hmust one List.mem_cons_self)
    refine List.forall_mem_singleton.2 ?_
    exact .intro (hsafe hmust.1) (hparts.safe hmust.2)
  · intro hall
    have hnode := Throughout.intro_iff.1 (hall node List.mem_cons_self)
    refine List.forall_mem_singleton.2 ?_
    exact .intro (honly hnode.1) (hparts.only hnode.2)

end Decides

/-! ## Outlines -/

namespace Dsl

/-- The outlines in an outline. -/
def Outline.parts : Outline → List Outline
  | .array _ _ items => items.toList
  | .union _ members => members
  | _ => []

/-- If the outline is of a text that goes on after a name, this holds of both. -/
def Outline.Follows (P : String → Chars → Prop) : Outline → Prop
  | .bounded _ name _ rest => P (String.ofList name) rest
  | _ => True

/-- The same of every outline in an outline. -/
def Outline.EachFollows (P : String → Chars → Prop) (outline : Outline) : Prop :=
  Throughout Outline.parts (Outline.Follows P) outline

section

variable (original : Registry)

/-- What is asked of texts so that the tree is safe, and what is needed. -/
abbrev Outline.Decided (outlines : List Outline) (nodes : List Node) : Prop :=
  Decides (Outline.EachFollows original.AlwaysHasRoom) (Outline.EachFollows original.SometimesHasRoom)
    outlines nodes

theorem ensures_answers (path : String) (name : Chars) :
    Ensures (fun names => names.registry.Within original) (resolve path name)
      (original.Answers (String.ofList name)) := by
  rw [resolve]
  split
  · next base hbase => exact .pure (original.answers_builtin hbase)
  · next hbase =>
      have hregistered : Ensures (fun names : Names => names.registry.Within original)
          (registered? (String.ofList name)) fun found =>
            ∀ node ∈ found, original.Answers (String.ofList name) node := by
        intro names hwithin
        by_cases hattached : names.attached = true
        · rw [registered?_run_of_attached _ hattached]
          rcases hresolve : names.registry.resolve? (String.ofList name) with ⟨_ | node, registry⟩
          · refine ⟨hwithin, ?_⟩
            rintro found ⟨⟩ _ ⟨⟩
          · obtain ⟨hanswers, hafter⟩ := Registry.answers_of_resolve? hbase hresolve
            refine ⟨fun other found h => hwithin other found (hafter other found h), ?_⟩
            rintro found ⟨⟩ _ ⟨⟩
            exact hwithin _ node hanswers
        · rw [registered?_run_of_detached _ (Bool.eq_false_iff.2 hattached)]
          refine ⟨hwithin, ?_⟩
          rintro found ⟨⟩ _ ⟨⟩
      refine hregistered.bind ?_
      intro found hfound
      cases found with
      | none => exact .throw _
      | some node => exact .pure (hfound node rfl)

end

section

variable {original : Registry} (hyields : ∀ node, original.Yields node → node.IsExclusive)
include hyields

/-- A name brings nothing that is not exclusive. -/
theorem decided_named {name : Chars} {node : Node}
    (h : original.Answers (String.ofList name) node) (required : Bool) :
    Outline.Decided original [.named required name] [node.withRequired required] := by
  have hnode := Registry.isExclusive_of_answers hyields h
  refine .of_parts (.of_isExclusive ?_) (fun _ => ?_) fun _ => trivial
  · rw [Node.children_withRequired]
    exact fun child hchild => hnode.inside hchild
  · rw [Node.withRequired, Node.facets_mapFacets]
    exact hnode.here

/-- A text after a name needs room. -/
theorem decided_bounded {name body rest : Chars} {node constrained : Node}
    (h : original.Answers (String.ofList name) node)
    (hconstrain : constrain name body rest node = .ok constrained) (required : Bool) :
    Outline.Decided original [.bounded required name body rest] [constrained.withRequired required] := by
  have hroom : (constrained.withRequired required).facets.Exclusive ↔ node.facets.HasRoom rest := by
    rw [Node.withRequired, Node.facets_mapFacets]
    exact exclusive_constrain_iff hconstrain
  refine .of_parts (.of_isExclusive ?_) (fun hmust => ?_) fun honly => ?_
  · rw [Node.children_withRequired, children_of_constrain hconstrain]
    exact fun child hchild => (Registry.isExclusive_of_answers hyields h).inside hchild
  · exact hroom.2 (hmust node h)
  · exact ⟨node, h, hroom.1 honly⟩

end

mutual

/-- **WHETHER AN OUTLINE DENOTES AN EXCLUSIVE TREE** is decided by the texts in it. -/
theorem Outline.ensures_decided {original : Registry}
    (hyields : ∀ node, original.Yields node → node.IsExclusive) :
    ∀ (outline : Outline) (path : String),
    Ensures (fun names => names.registry.Within original) (outline.node path)
      fun node => Outline.Decided original [outline] [node]
  | .fault flaw, path => by
      rw [Outline.node]
      exact .throw _
  | .named required name, path => by
      rw [Outline.node]
      exact (ensures_answers original path name).bind fun node hnode =>
        .pure (decided_named hyields hnode required)
  | .choice required hint body, path => by
      rw [Outline.node]
      refine (ensures_settle path _).bind ?_
      rintro ⟨type, choices⟩ -
      -- no registered type is named here, so nothing can be overridden
      refine .pure (.of_parts (.of_isExclusive fun _ hmem => nomatch hmem) ?_ fun _ => trivial)
      exact fun _ => .inl rfl
  | .bounded required name body rest, path => by
      rw [Outline.node]
      refine (ensures_answers original path name).bind ?_
      intro node hnode
      refine (ensures_settle path _).bind ?_
      intro constrained hconstrained
      exact .pure (decided_bounded hyields hnode hconstrained required)
  | .array required clause none, path => by
      rw [Outline.node]
      refine (ensures_settle path _).bind ?_
      intro bound _
      refine .pure (.of_parts (.of_isExclusive fun _ hmem => nomatch hmem) ?_ fun _ => trivial)
      exact fun _ => .inr rfl
  | .array required clause (some items), path => by
      rw [Outline.node]
      refine (Outline.ensures_decided hyields items (itemsPath path)).bind ?_
      intro node hnode
      refine (ensures_settle path _).bind ?_
      intro bound _
      exact .pure (.of_parts hnode (fun _ => .inr rfl) fun _ => trivial)
  | .union required members, path => by
      rw [Outline.node]
      refine (Outline.ensures_decided_nodes hyields members path).bind ?_
      intro nodes hnodes
      exact .pure (.of_parts hnodes (fun _ => .inl rfl) fun _ => trivial)
termination_by structural outline => outline

/-- The same of the members of a union. -/
theorem Outline.ensures_decided_nodes {original : Registry}
    (hyields : ∀ node, original.Yields node → node.IsExclusive) :
    ∀ (outlines : List Outline) (path : String),
    Ensures (fun names => names.registry.Within original) (Outline.nodes path outlines)
      (Outline.Decided original outlines)
  | [], path => by
      rw [Outline.nodes]
      exact .pure (.of_isExclusive fun _ hmem => nomatch hmem)
  | outline :: rest, path => by
      rw [Outline.nodes]
      refine (Outline.ensures_decided hyields outline path).bind ?_
      intro node hnode
      refine (Outline.ensures_decided_nodes hyields rest path).bind ?_
      intro nodes hnodes
      exact .pure (.cons hnode hnodes)
termination_by structural outlines => outlines

end

end Dsl

end Conform
