import Conform.Proofs.Magnitudes
import Conform.Proofs.WellFormed

/-! # Finiteness — the numbers of a tree, decided by its text

    A text writes numerals for the bounds of its clauses and for its choices.  Which
    numerals these are depends on what the names in it stand for: a member of choices is
    a numeral only where numbers are listed.  So they are read off the outline of the
    text and the tree that it denotes, side by side (`Outline.numerals`).

    Main fact: every number of the tree is finite exactly if none of these numerals is too
    large (`Outline.ensures_finite`). -/

namespace Conform

open Conform.Text (Chars trim)

/-! ## Numbers of nodes -/

/-- The bounds of the clause and the numbers among the choices are finite. -/
structure Facets.HasFiniteNumbers (facets : Facets) : Prop where
  clause : ∀ clause ∈ facets.clause, clause.IsFinite
  choices : ∀ literal ∈ facets.choices, literal.IsFinite

/-- Every number in the tree is finite. -/
def Node.HasFiniteNumbers (node : Node) : Prop := node.Every fun part => part.facets.HasFiniteNumbers

namespace Dsl

/-! ## Clauses -/

/-- The numerals of a clause. -/
def clauseNumerals (source : Chars) : List Numeral :=
  match readComparison? (trim source) with
  | some (_, rest) => (numeral? (trim rest)).toList
  | none =>
      match ends? (trim source) with
      | some (least, most) => least.toList ++ most.toList
      | none => (numeral? (trim source)).toList

theorem value_of_toBinary64? {numeral : Numeral} {x : Binary64} (h : numeral.toBinary64? = some x) :
    x = numeral.value := by
  obtain ⟨-, hx⟩ := Option.ite_none_right_eq_some.1 h
  exact (Option.some.inj hx).symm

/-- A bound is the value of its numeral. -/
theorem bound_eq_ok {measure : Measure} {numeral : Numeral} {x : Binary64}
    (h : numeral.bound measure = .ok x) : x = numeral.value := by
  unfold Numeral.bound at h
  cases hx : numeral.toBinary64? with
  | none =>
      rw [hx] at h
      cases h
  | some y =>
      rw [hx] at h
      dsimp only at h
      split_ifs at h
      obtain rfl := Except.ok.inj h
      exact value_of_toBinary64? hx

theorem isFinite_bound_iff {measure : Measure} {numeral : Numeral} {x : Binary64}
    (h : numeral.bound measure = .ok x) : x.IsFinite ↔ ¬numeral.IsTooLarge := by
  rw [bound_eq_ok h]
  exact numeral.isFinite_value_iff

/-- A comparison is finite exactly if its bound is. -/
theorem Comparison.isFinite_clause {measure : Measure} {x : Binary64} (comparison : Comparison)
    (h : measure.Admits x) : (comparison.clause measure x).IsFinite ↔ x.IsFinite := by
  cases comparison with
  | equal =>
      show (if measure = .value then _ else _ : Clause).IsFinite ↔ _
      by_cases hvalue : measure = .value
      · rw [if_pos hvalue]
        exact List.forall_mem_singleton
      · rw [if_neg hvalue]
        -- what is counted is whole, and so are the numbers it is counted with
        have hcount : (Binary64.ofNat x.toUnsigned64).IsFinite :=
          Binary64.ofNat_finite_of_unsigned (Binary64.toUnsigned64_le x)
        have hwhole := Binary64.isFinite_of_isIntegral ((Measure.admits_count hvalue).1 h).1
        exact iff_of_true (List.forall_mem_singleton.2 hcount) hwhole
  | atLeast => exact List.forall_mem_singleton
  | atMost => exact List.forall_mem_singleton
  | above => exact List.forall_mem_singleton
  | below => exact List.forall_mem_singleton

/-- One end of a range is finite exactly if its numeral, if there is one, is not too large. -/
theorem isFinite_endBound {measure : Measure} {numeral : Option Numeral} {x : Option Binary64}
    (h : endBound measure numeral = .ok x) :
    (∀ bound ∈ x.toList, bound.IsFinite) ↔ ∀ written ∈ numeral.toList, ¬written.IsTooLarge := by
  cases numeral with
  | none =>
      obtain rfl := Except.ok.inj h
      exact iff_of_true nofun nofun
  | some numeral =>
      obtain ⟨bound, hbound, h⟩ := exists_of_bind_eq_ok h
      obtain rfl := Except.ok.inj h
      rw [Option.toList_some, Option.toList_some, List.forall_mem_singleton, List.forall_mem_singleton]
      exact isFinite_bound_iff hbound

/-- The bounds of a range are the ends that were written. -/
theorem bounds_of_rangeOf {text : Chars} {least most : Option Binary64} {clause : Clause}
    (h : rangeOf text least most = .ok clause) : clause.bounds = least.toList ++ most.toList := by
  unfold rangeOf at h
  split at h
  · cases h
  · split_ifs at h
    obtain rfl := Except.ok.inj h
    rfl
  · obtain rfl := Except.ok.inj h
    rfl

/-- **A CLAUSE IS FINITE** exactly if none of its numerals is too large. -/
theorem isFinite_clauseOf {measure : Measure} {source : Chars} {clause : Clause}
    (h : clauseOf measure source = .ok clause) :
    clause.IsFinite ↔ ∀ numeral ∈ clauseNumerals source, ¬numeral.IsTooLarge := by
  unfold clauseOf at h
  by_cases hempty : (trim source).isEmpty = true
  · simp only [if_pos hempty] at h
    cases h
  simp only [if_neg hempty] at h
  unfold clauseNumerals
  -- the numerals are looked for in the order in which the clause is read
  cases hcomparison : readComparison? (trim source) with
  | some read =>
      obtain ⟨comparison, rest⟩ := read
      rw [hcomparison] at h
      obtain ⟨x, hx, h⟩ := exists_of_bind_eq_ok h
      by_cases hzero : comparison = .below ∧ measure ≠ .value ∧ Binary64.eq x .zero = true
      · rw [if_pos hzero] at h
        cases h
      rw [if_neg hzero] at h
      obtain rfl := Except.ok.inj h
      dsimp only
      rw [comparison.isFinite_clause (admits_of_boundOf hx)]
      unfold boundOf at hx
      cases hnumeral : numeral? (trim rest) with
      | none =>
          rw [hnumeral] at hx
          cases hx
      | some numeral =>
          rw [hnumeral] at hx
          rw [Option.toList_some, List.forall_mem_singleton]
          exact isFinite_bound_iff hx
  | none =>
      rw [hcomparison] at h
      dsimp only at h ⊢
      cases hends : ends? (trim source) with
      | some found =>
          rw [hends] at h
          obtain ⟨x, hx, h⟩ := exists_of_bind_eq_ok h
          obtain ⟨y, hy, h⟩ := exists_of_bind_eq_ok h
          unfold Clause.IsFinite
          rw [bounds_of_rangeOf h, List.forall_mem_append, List.forall_mem_append,
            isFinite_endBound hx, isFinite_endBound hy]
      | none =>
          rw [hends] at h
          cases hnumeral : numeral? (trim source) with
          | none =>
              rw [hnumeral] at h
              cases h
          | some numeral =>
              rw [hnumeral] at h
              obtain ⟨x, hx, h⟩ := exists_of_bind_eq_ok h
              obtain rfl := Except.ok.inj h
              rw [Option.toList_some, List.forall_mem_singleton]
              exact List.forall_mem_singleton.trans (isFinite_bound_iff hx)

/-! ## Choices -/

/-- The numeral that a member of choices is, where choices are numbers. -/
def memberNumerals : ChoiceType → Chars → List Numeral
  | .number, member => (numeral? member).toList
  | .integer, member => (numeral? member).toList
  | _, _ => []

/-- The numerals among choices. -/
def choiceNumerals (type : ChoiceType) (body : Chars) : List Numeral :=
  (listed body).flatMap (memberNumerals type)

/-- A choice that is a number is finite exactly if its numeral is not too large. -/
theorem isFinite_of_member {member : Chars} {x : Binary64}
    (h : (numeral? member).bind Numeral.toBinary64? = some x) :
    x.IsFinite ↔ ∀ numeral ∈ (numeral? member).toList, ¬numeral.IsTooLarge := by
  obtain ⟨numeral, hnumeral, hx⟩ := Option.bind_eq_some_iff.1 h
  rw [hnumeral, Option.toList_some, List.forall_mem_singleton, value_of_toBinary64? hx]
  exact numeral.isFinite_value_iff

/-- A choice is finite exactly if no numeral in it is too large. -/
theorem isFinite_choiceOf {type : ChoiceType} {member : Chars} {literal : Literal}
    (h : choiceOf type member = .ok literal) :
    literal.IsFinite ↔ ∀ numeral ∈ memberNumerals type member, ¬numeral.IsTooLarge := by
  unfold choiceOf at h
  cases type with
  | string =>
      obtain rfl := Except.ok.inj h
      exact iff_of_true trivial nofun
  | boolean =>
      dsimp only at h
      split at h
      · obtain rfl := Except.ok.inj h
        exact iff_of_true trivial nofun
      · cases h
  | number =>
      dsimp only at h
      split at h
      · next x hx =>
          obtain rfl := Except.ok.inj h
          exact isFinite_of_member hx
      · cases h
  | integer =>
      dsimp only at h
      split at h
      · next x hx =>
          split_ifs at h
          obtain rfl := Except.ok.inj h
          exact isFinite_of_member hx
      · cases h

/-- **CHOICES ARE FINITE** exactly if none of their numerals is too large. -/
theorem isFinite_choicesFrom {type : ChoiceType} {members : List Chars} {choices : List Literal}
    (h : choicesFrom type members = .ok choices) :
    (∀ literal ∈ choices, literal.IsFinite)
      ↔ ∀ numeral ∈ members.flatMap (memberNumerals type), ¬numeral.IsTooLarge := by
  induction members generalizing choices with
  | nil =>
      obtain rfl := Except.ok.inj h
      exact iff_of_true nofun nofun
  | cons member rest ih =>
      obtain ⟨first, hfirst, h⟩ := exists_of_bind_eq_ok h
      obtain ⟨more, hmore, h⟩ := exists_of_bind_eq_ok h
      obtain rfl := Except.ok.inj h
      rw [List.forall_mem_cons, List.flatMap_cons, List.forall_mem_append, isFinite_choiceOf hfirst,
        ih hmore]

/-- Choices are finite exactly if no numeral among them is too large. -/
theorem isFinite_choicesOf {hint : Option ChoiceType} {body : Chars} {type : ChoiceType}
    {choices : List Literal} (h : choicesOf hint body = .ok (type, choices)) :
    (∀ literal ∈ choices, literal.IsFinite)
      ↔ ∀ numeral ∈ choiceNumerals type body, ¬numeral.IsTooLarge :=
  isFinite_choicesFrom (choicesFrom_of_choicesOf h).2.2

/-! ## Outlines -/

/-- The numerals after the name of a type: those of choices if there is a bar, and those of
    a clause otherwise. -/
def restNumerals (base : BaseType) (rest : Chars) : List Numeral :=
  if rest.any (· == '|') then (ChoiceType.ofBase? base).toList.flatMap (choiceNumerals · rest)
  else clauseNumerals rest

mutual

/-- The numerals in an outline, where it denotes the node. -/
def Outline.numerals : Outline → Node → List Numeral
  | .fault _, _ => []
  | .named _ _, _ => []
  | .choice _ _ body, node => (ChoiceType.ofBase? node.base).toList.flatMap (choiceNumerals · body)
  | .bounded _ _ _ rest, node => restNumerals node.base rest
  | .array _ clause none, _ => clause.toList.flatMap clauseNumerals
  | .array _ clause (some items), node =>
      clause.toList.flatMap clauseNumerals ++ node.children.flatMap (Outline.numerals items)
  | .union _ members, node => Outline.numeralsOfMembers members node.children
termination_by structural outline => outline

/-- The numerals in the members of a union, each with the node that it denotes. -/
def Outline.numeralsOfMembers : List Outline → List Node → List Numeral
  | outline :: outlines, node :: nodes =>
      Outline.numerals outline node ++ Outline.numeralsOfMembers outlines nodes
  | _, _ => []
termination_by structural outlines => outlines

end

/-- Every number of the tree is finite exactly if none of the numerals is too large. -/
def Settles (numerals : List Numeral) (node : Node) : Prop :=
  node.HasFiniteNumbers ↔ ∀ numeral ∈ numerals, ¬numeral.IsTooLarge

section

variable {node : Node}

/-- Being required has nothing to do with numbers. -/
theorem hasFiniteNumbers_withRequired (required : Bool) :
    (node.withRequired required).HasFiniteNumbers ↔ node.HasFiniteNumbers := by
  have hfacets : (node.withRequired required).facets.HasFiniteNumbers ↔ node.facets.HasFiniteNumbers := by
    rw [Node.withRequired, Node.facets_mapFacets]
    exact ⟨fun h => ⟨h.clause, h.choices⟩, fun h => ⟨h.clause, h.choices⟩⟩
  unfold Node.HasFiniteNumbers Node.Every
  rw [Throughout.intro_iff, Throughout.intro_iff (a := node), hfacets, Node.children_withRequired]

theorem hasFiniteNumbers_ofType (base : BaseType) : (Node.ofType base).HasFiniteNumbers := by
  refine .of_parts_eq_nil ?_ (Node.children_ofType base)
  rw [Node.facets_ofType]
  exact ⟨nofun, nofun⟩

/-- What is written after a name settles it for a node whose numbers were finite before. -/
theorem settles_constrain {name body rest : Chars} {constrained : Node} (hnode : node.HasFiniteNumbers)
    (h : constrain name body rest node = .ok constrained) :
    Settles (restNumerals constrained.base rest) constrained := by
  have hparts : constrained.HasFiniteNumbers ↔ constrained.facets.HasFiniteNumbers := by
    unfold Node.HasFiniteNumbers Node.Every
    rw [Throughout.intro_iff, children_of_constrain h]
    exact and_iff_left fun child hmem => hnode.inside hmem
  unfold Settles restNumerals
  rw [hparts]
  -- only what is written last is new: the choices or the clause of the node itself
  unfold constrain at h
  by_cases hbar : rest.any (· == '|') = true
  · rw [if_pos hbar] at h ⊢
    cases htype : ChoiceType.ofBase? node.base with
    | none =>
        rw [htype] at h
        cases h
    | some type =>
        rw [htype] at h
        obtain ⟨⟨found, choices⟩, hchoices, h⟩ := exists_of_bind_eq_ok h
        obtain rfl := Except.ok.inj h
        obtain rfl : found = type := (choicesFrom_of_choicesOf hchoices).1 type rfl
        rw [Node.facets_mapFacets, Node.base_mapFacets, htype, Option.toList_some,
          List.flatMap_singleton, ← isFinite_choicesOf hchoices]
        exact ⟨fun hfacets => hfacets.choices, fun hchoices => ⟨hnode.here.clause, hchoices⟩⟩
  · rw [if_neg hbar] at h ⊢
    cases hmeasure : node.base.measure? with
    | none =>
        rw [hmeasure] at h
        cases h
    | some measure =>
        rw [hmeasure] at h
        obtain ⟨clause, hclause, h⟩ := exists_of_bind_eq_ok h
        obtain rfl := Except.ok.inj h
        rw [Node.facets_mapFacets, ← isFinite_clauseOf hclause]
        refine ⟨fun hfacets => hfacets.clause clause rfl, fun hclause => ⟨?_, hnode.here.choices⟩⟩
        rintro _ ⟨⟩
        exact hclause

/-- The numerals of choices settle whether the leaf with these choices is finite. -/
theorem settles_choice {hint : Option ChoiceType} {body : Chars} {type : ChoiceType}
    {choices : List Literal} (required : Bool) (h : choicesOf hint body = .ok (type, choices)) :
    Settles ((ChoiceType.ofBase? (.primitive type.primitive)).toList.flatMap (choiceNumerals · body))
      (.leaf type.primitive { required := required, choices := choices }) := by
  unfold Settles Node.HasFiniteNumbers Node.Every
  rw [Throughout.intro_iff, ofBase?_primitive, Option.toList_some, List.flatMap_singleton,
    ← isFinite_choicesOf h]
  exact ⟨fun hnode => hnode.1.choices, fun hchoices => ⟨⟨nofun, hchoices⟩, nofun⟩⟩

/-- The clause of an array is finite exactly if none of its numerals is too large. -/
theorem isFinite_arrayClause {text : Option Chars} {clause : Option Clause}
    (h : arrayClause text = .ok clause) :
    (∀ bounds ∈ clause, bounds.IsFinite)
      ↔ ∀ numeral ∈ text.toList.flatMap clauseNumerals, ¬numeral.IsTooLarge := by
  cases text with
  | none =>
      obtain rfl := Except.ok.inj h
      exact iff_of_true nofun nofun
  | some text =>
      obtain ⟨bounds, hbounds, h⟩ := exists_of_bind_eq_ok h
      obtain rfl := Except.ok.inj h
      rw [Option.toList_some, List.flatMap_singleton, ← isFinite_clauseOf hbounds]
      exact ⟨fun hall => hall bounds rfl, by rintro hfinite _ ⟨⟩; exact hfinite⟩

/-- The numerals of clause and items settle whether an array is finite. -/
theorem settles_array {text : Option Chars} {clause : Option Clause} {items : Option Node}
    {numerals : List Numeral} (required : Bool) (h : arrayClause text = .ok clause)
    (hitems : (∀ item ∈ items.toList, item.HasFiniteNumbers)
      ↔ ∀ numeral ∈ numerals, ¬numeral.IsTooLarge) :
    Settles (text.toList.flatMap clauseNumerals ++ numerals)
      (.array { required := required, clause := clause } items) := by
  unfold Settles Node.HasFiniteNumbers Node.Every
  rw [Throughout.intro_iff, List.forall_mem_append, ← isFinite_arrayClause h, ← hitems]
  exact and_congr ⟨fun hfacets => hfacets.clause, fun hclause => ⟨hclause, nofun⟩⟩ Iff.rfl

theorem settles_union {members : List Node} {numerals : List Numeral} (required : Bool)
    (h : (∀ member ∈ members, member.HasFiniteNumbers) ↔ ∀ numeral ∈ numerals, ¬numeral.IsTooLarge) :
    Settles numerals (.union { required := required } members) := by
  unfold Settles Node.HasFiniteNumbers Node.Every
  rw [Throughout.intro_iff, ← h]
  exact and_iff_right ⟨nofun, nofun⟩

end

mutual

/-- **THE NUMERALS IN AN OUTLINE DECIDE** whether every number of its tree is finite.  The
    invariant is one that asking for a registered type keeps. -/
theorem Outline.ensures_finite {I : Names → Prop}
    (hregistered : ∀ name, Ensures I (registered? name) fun found =>
      ∀ node ∈ found, node.HasFiniteNumbers) :
    ∀ (outline : Outline) (path : String),
    Ensures I (outline.node path) fun node => Settles (outline.numerals node) node
  | .fault flaw, path => by
      rw [Outline.node]
      exact .throw _
  | .named required name, path => by
      rw [Outline.node]
      refine (ensures_resolve hregistered hasFiniteNumbers_ofType path name).bind ?_
      intro node hnode
      exact .pure (iff_of_true ((hasFiniteNumbers_withRequired required).2 hnode) nofun)
  | .choice required hint body, path => by
      rw [Outline.node]
      refine (ensures_settle path _).bind ?_
      rintro ⟨type, choices⟩ hchoices
      exact .pure (settles_choice required hchoices)
  | .bounded required name body rest, path => by
      rw [Outline.node]
      refine (ensures_resolve hregistered hasFiniteNumbers_ofType path name).bind ?_
      intro node hnode
      refine (ensures_settle path _).bind ?_
      intro constrained hconstrained
      refine .pure ((hasFiniteNumbers_withRequired required).trans ?_)
      rw [Outline.numerals, Node.withRequired, Node.base_mapFacets]
      exact settles_constrain hnode hconstrained
  | .array required clause none, path => by
      rw [Outline.node]
      refine (ensures_settle path _).bind ?_
      intro bounds hbounds
      -- without items there are no numerals but those of the clause
      have hitems : (∀ item ∈ (none : Option Node).toList, item.HasFiniteNumbers)
          ↔ ∀ numeral ∈ ([] : List Numeral), ¬numeral.IsTooLarge := iff_of_true nofun nofun
      have hnode := settles_array required hbounds hitems
      rw [List.append_nil] at hnode
      exact .pure hnode
  | .array required clause (some items), path => by
      rw [Outline.node]
      refine (Outline.ensures_finite hregistered items (itemsPath path)).bind ?_
      intro node hnode
      refine (ensures_settle path _).bind ?_
      intro bounds hbounds
      refine .pure (settles_array required hbounds ?_)
      rw [Option.toList_some, List.forall_mem_singleton]
      show _ ↔ ∀ numeral ∈ [node].flatMap items.numerals, _
      rw [List.flatMap_singleton]
      exact hnode
  | .union required members, path => by
      rw [Outline.node]
      refine (Outline.ensures_finite_nodes hregistered members path).bind ?_
      intro nodes hnodes
      exact .pure (settles_union required hnodes)
termination_by structural outline => outline

/-- The same of the members of a union. -/
theorem Outline.ensures_finite_nodes {I : Names → Prop}
    (hregistered : ∀ name, Ensures I (registered? name) fun found =>
      ∀ node ∈ found, node.HasFiniteNumbers) :
    ∀ (outlines : List Outline) (path : String),
    Ensures I (Outline.nodes path outlines) fun nodes =>
      (∀ node ∈ nodes, node.HasFiniteNumbers)
        ↔ ∀ numeral ∈ Outline.numeralsOfMembers outlines nodes, ¬numeral.IsTooLarge
  | [], path => by
      rw [Outline.nodes]
      exact .pure (iff_of_true nofun nofun)
  | outline :: rest, path => by
      rw [Outline.nodes]
      refine (Outline.ensures_finite hregistered outline path).bind ?_
      intro node hnode
      refine (Outline.ensures_finite_nodes hregistered rest path).bind ?_
      intro nodes hnodes
      refine .pure ?_
      rw [Outline.numeralsOfMembers, List.forall_mem_cons, List.forall_mem_append, hnodes]
      exact and_congr_left' hnode
termination_by structural outlines => outlines

end

end Dsl

end Conform
