import Mathlib.Data.List.Nodup
import Conform.Proofs.Distinct
import Conform.Proofs.Questions
import Conform.Proofs.Triggering

/-! # Visits — where a validation comes to, and how often

    A node is VISITED at a site where the walk comes to it before the slots are full.  A visit
    has a path, which names the part taken at each node; the items of an array are one part
    of it, told apart by their places, and each member of a union is a part of its own.

    Main facts: no two visits have both their path and their place in common
    (`nodup_visits`), and each visit of a chain is one selection by it, in the order of the
    visits (`selections_questions`).  What a validation asks from outside are these
    selections and the immediate checks of nodes, and nothing else
    (`notes_validateWaiting`, `notes_validate`). -/

namespace Conform

/-- The selection that is asked for, if one is. -/
def Inquiry.selection? : Inquiry → Option (Chain Node × Json)
  | .custom _ _ _ _ => none
  | .selection body record => some (body, record)

/-- A visit of a node at a site; the path names the part that is taken at each node before. -/
structure Visit where
  path : List Nat
  node : Node
  site : Site

namespace Visit

/-- The same visit, seen from the node before. -/
def under (turn : Nat) (visit : Visit) : Visit := { visit with path := turn :: visit.path }

/-- Where the visit is: in the tree, and in the document. -/
def key (visit : Visit) : List Nat × Place := (visit.path, visit.site.place)

/-- The selection that is made on the visit of a chain. -/
def selection? (visit : Visit) : Option (Chain Node × Json) :=
  match visit.node with
  | .chain _ body => some (body, visit.site.context)
  | _ => none

end Visit

namespace Rules

variable {rules : Rules} {node : Node} {site : Site}

/-! ## Visits -/

/-- The parts that are visited, with their turns: the items of an array are one part. -/
def turns (rules : Rules) (node : Node) (site : Site) : List ((Node × Site) × Nat) :=
  match node with
  | .array facets items => (rules.reached (.array facets items) site).map fun part => (part, 0)
  | node => (rules.reached node site).zipIdx

/-- The turns lead to what is reached. -/
theorem map_fst_turns (node : Node) (site : Site) :
    (rules.turns node site).map Prod.fst = rules.reached node site := by
  unfold turns
  split
  · rw [List.map_map]
    exact List.map_id _
  · exact List.zipIdx_map_fst 0 _

/-- Every turn leads to a part of the node. -/
theorem mem_children_of_mem_turns {turn : (Node × Site) × Nat} (h : turn ∈ rules.turns node site) :
    turn.1.1 ∈ node.children := by
  have hreached : turn.1 ∈ rules.reached node site := by
    rw [← map_fst_turns]
    exact List.mem_map_of_mem h
  exact mem_children_of_mem_reached hreached

/-- The visits that start with one of a node at a site, in order. -/
def visits (rules : Rules) (node : Node) (site : Site) : List Visit :=
  ⟨[], node, site⟩
    :: (rules.turns node site).attach.flatMap fun turn =>
      (visits rules turn.1.1.1 turn.1.1.2).map (Visit.under turn.1.2)
termination_by sizeOf node
decreasing_by exact Node.sizeOf_lt_of_mem_children (mem_children_of_mem_turns turn.2)

/-- A node is visited first, and then what its turns lead to. -/
theorem visits_eq (node : Node) (site : Site) :
    rules.visits node site
      = ⟨[], node, site⟩
        :: (rules.turns node site).flatMap fun turn =>
          (rules.visits turn.1.1 turn.1.2).map (Visit.under turn.2) := by
  have hforget : ∀ turn (h : turn ∈ rules.turns node site),
      (rules.visits (Subtype.mk turn h).1.1.1 (Subtype.mk turn h).1.1.2).map
          (Visit.under (Subtype.mk turn h).1.2)
        = (rules.visits turn.1.1 turn.1.2).map (Visit.under turn.2) :=
    fun _ _ => rfl
  rw [visits, List.flatMap_subtype hforget, List.unattach_attach]

/-! ## Selections -/

theorem selections_customQuestions (node : Node) (site : Site) (value : Json) :
    (rules.customQuestions node site value).filterMap Inquiry.selection? = [] := by
  rw [customQuestions, List.filterMap_map]
  exact List.filterMap_eq_nil_iff.2 fun _ _ => rfl

/-- What is asked last at a node selects nothing. -/
theorem selections_closingQuestions (node : Node) (site : Site) :
    (rules.closingQuestions node site).filterMap Inquiry.selection? = [] := by
  unfold closingQuestions
  cases node.present? site with
  | none => rfl
  | some value =>
      rw [Option.toList_some, List.flatMap_singleton]
      split
      · exact selections_customQuestions node site value
      · rfl

/-- What is asked first at a node is its own selection, if it is a chain. -/
theorem selections_openingInquiries (node : Node) (site : Site) :
    (openingInquiries node site).filterMap Inquiry.selection?
      = (Visit.selection? ⟨[], node, site⟩).toList := by
  cases node <;> rfl

/-- **EACH VISIT OF A CHAIN IS ONE SELECTION**, and there are no others. -/
theorem selections_questions (node : Node) :
    ∀ site, (rules.questions node site).filterMap Inquiry.selection?
      = (rules.visits node site).filterMap Visit.selection? := by
  induction node using Node.induction_children with
  | step node ih =>
      intro site
      have hunder (turn : Nat) : Visit.selection? ∘ Visit.under turn = Visit.selection? := rfl
      have hparts : ((rules.reached node site).flatMap fun part =>
            rules.questions part.1 part.2).filterMap Inquiry.selection?
          = ((rules.turns node site).flatMap fun turn =>
            (rules.visits turn.1.1 turn.1.2).map (Visit.under turn.2)).filterMap Visit.selection? := by
        rw [← map_fst_turns, List.flatMap_map, List.filterMap_flatMap, List.filterMap_flatMap]
        refine List.flatMap_congr fun turn hturn => ?_
        rw [List.filterMap_map, hunder]
        exact ih turn.1.1 (mem_children_of_mem_turns hturn) turn.1.2
      rw [questions_eq, visits_eq, List.filterMap_append, List.filterMap_append,
        selections_closingQuestions, selections_openingInquiries, List.append_nil, hparts,
        List.filterMap_cons]
      cases Visit.selection? ⟨[], node, site⟩ <;> rfl

/-! ## Visits are distinct -/

/-- What is reached stands at the same place or one step below. -/
theorem place_of_mem_reached {part : Node × Site} (h : part ∈ rules.reached node site) :
    part.2 = site ∨ ∃ step, part.2.place.steps = site.place.steps ++ [step] := by
  have hparts (hpart : part ∈ rules.parts node site) :
      part.2 = site ∨ ∃ step, part.2.place.steps = site.place.steps ++ [step] := by
    rcases step_of_part (part_of_mem_parts hpart) with heq | ⟨-, step, -, -, hplace, -⟩
    · exact .inl heq
    · exact .inr ⟨step, hplace⟩
  unfold reached at h
  split at h
  · rw [tries] at h
    obtain ⟨value, -, hpart⟩ := List.mem_flatMap.1 h
    obtain ⟨member, -, rfl⟩ := List.mem_map.1 hpart
    exact .inl rfl
  · split at h
    · exact absurd h List.not_mem_nil
    · exact hparts (mem_of_mem_upTo h)

/-- Visits stay below the place they start from. -/
theorem prefix_of_mem_visits :
    ∀ {site : Site} {visit : Visit}, visit ∈ rules.visits node site →
      site.place.steps <+: visit.site.place.steps := by
  induction node using Node.induction_children with
  | step node ih =>
      intro site visit h
      rw [visits_eq] at h
      rcases List.mem_cons.1 h with rfl | h
      · exact List.prefix_refl _
      · obtain ⟨turn, hturn, hvisit⟩ := List.mem_flatMap.1 h
        obtain ⟨inner, hinner, rfl⟩ := List.mem_map.1 hvisit
        have hbelow := ih turn.1.1 (mem_children_of_mem_turns hturn) hinner
        have hreached : turn.1 ∈ rules.reached node site := by
          rw [← map_fst_turns]
          exact List.mem_map_of_mem hturn
        rcases place_of_mem_reached hreached with heq | ⟨step, hplace⟩
        · rw [heq] at hbelow
          exact hbelow
        · rw [hplace] at hbelow
          exact (List.prefix_append _ _).trans hbelow

/-- Two parts that are visited are different parts, or are at different items. -/
theorem pairwise_turns (node : Node) (site : Site) :
    (rules.turns node site).Pairwise fun turn other =>
      turn.2 ≠ other.2 ∨ Parted site turn.1 other.1 := by
  have hother : ((rules.reached node site).zipIdx).Pairwise fun turn other =>
      turn.2 ≠ other.2 ∨ Parted site turn.1 other.1 := by
    have hpositions : ((rules.reached node site).zipIdx.map Prod.snd).Nodup := by
      rw [List.zipIdx_map_snd]
      exact List.nodup_range'
    exact (List.pairwise_map.1 hpositions).imp .inl
  -- items are all walked by the turn of one child, so they have to differ in their place
  cases node with
  | array facets items =>
      refine List.pairwise_map.2 (List.Pairwise.imp .inr ?_)
      have hparts : (rules.parts (.array facets items) site).Pairwise (Parted site) :=
        pairwise_parts List.nodup_nil
      unfold reached
      dsimp only
      split
      · exact .nil
      · exact hparts.sublist (upTo_sublist _ _)
  | leaf type facets => exact hother
  | object facets fields => exact hother
  | union facets members => exact hother
  | matching facets reference cases => exact hother
  | switch facets field yes no => exact hother
  | chain facets body => exact hother

/-- Nothing is below two parts that are below different steps. -/
theorem Parted.apart {part other : Node × Site} (h : Parted site part other) {steps : List Step}
    (hpart : part.2.place.steps <+: steps) (hother : other.2.place.steps <+: steps) : False := by
  obtain ⟨step, another, hne, hstep, hanother⟩ := h
  rw [hstep] at hpart
  rw [hanother] at hother
  have heq : site.place.steps ++ [step] = site.place.steps ++ [another] := by
    refine (List.prefix_of_prefix_length_le hpart hother ?_).eq_of_length ?_
    · rw [List.length_append, List.length_append]
      exact le_rfl
    · rw [List.length_append, List.length_append]
      rfl
  exact hne (List.cons.inj (List.append_cancel_left heq)).1

/-- **NO TWO VISITS HAVE PATH AND PLACE IN COMMON.** -/
theorem nodup_visits (node : Node) : ∀ site, ((rules.visits node site).map Visit.key).Nodup := by
  -- turns tell the visits below different children apart, places those of items
  induction node using Node.induction_children with
  | step node ih =>
      intro site
      rw [visits_eq, List.map_cons, List.map_flatMap, List.nodup_cons]
      refine ⟨fun hmem => ?_, List.nodup_flatMap.2 ⟨fun turn hturn => ?_, ?_⟩⟩
      · obtain ⟨turn, -, hkey⟩ := List.mem_flatMap.1 hmem
        rw [List.map_map] at hkey
        obtain ⟨visit, -, heq⟩ := List.mem_map.1 hkey
        exact nomatch congrArg Prod.fst heq
      · have hkeys : ((rules.visits turn.1.1 turn.1.2).map (Visit.under turn.2)).map Visit.key
            = ((rules.visits turn.1.1 turn.1.2).map Visit.key).map
                fun key => (turn.2 :: key.1, key.2) := by
          rw [List.map_map, List.map_map]
          rfl
        rw [hkeys]
        refine (ih turn.1.1 (mem_children_of_mem_turns hturn) turn.1.2).map fun key other heq => ?_
        obtain ⟨hpath, hplace⟩ := Prod.mk.inj heq
        exact Prod.ext (List.cons.inj hpath).2 hplace
      · refine (pairwise_turns node site).imp fun {turn other} hdiffer key hkey hkeyOther => ?_
        obtain ⟨visit, hvisit, rfl⟩ := List.mem_map.1 hkey
        obtain ⟨another, hanother, heq⟩ := List.mem_map.1 hkeyOther
        obtain ⟨inner, hinner, rfl⟩ := List.mem_map.1 hvisit
        obtain ⟨innerOther, hinnerOther, rfl⟩ := List.mem_map.1 hanother
        obtain ⟨hpath, hplace⟩ := Prod.mk.inj heq
        -- of two turns, one differs in its number, or the places differ and so do all below them
        rcases hdiffer with hturn | hparted
        · exact hturn (List.cons.inj hpath).1.symm
        · have hplace : innerOther.site.place = inner.site.place := hplace
          have hbelow := prefix_of_mem_visits hinnerOther
          rw [hplace] at hbelow
          exact hparted.apart (prefix_of_mem_visits hinner) hbelow

/-! ## Whole validations -/

theorem notes_walk_root (node : Node) (value : Json) :
    (rules.walk .suspending node (.root value) []).run.notes
      = (rules.questions node (.root value)).flatMap Inquiry.notes :=
  walk_inquires node (.root value) [] (isFull_nil rules)

/-- Validation that waits makes the notes of its questions, and then those of the checks it waited
    for. -/
theorem notes_validateWaiting (rules : Rules) (node : Node) (value : Json) :
    (rules.validateWaiting node value).notes
      = (rules.questions node (.root value)).flatMap Inquiry.notes
        ++ (rules.decided (rules.findings node (.root value))).flatMap Slot.notes := by
  rw [validateWaiting_eq, notes_walk_root]

/-- Validation at once asks nothing if it refuses. -/
theorem notes_validate (rules : Rules) (node : Node) (value : Json) :
    (rules.validate node value).notes
      = if (node.firstSuspended? .root).isSome then []
        else (rules.questions node (.root value)).flatMap Inquiry.notes := by
  unfold validate reportNow
  cases hsuspended : node.firstSuspended? .root with
  | some place => rfl
  | none =>
      rw [walk_immediate ((Node.firstSuspended?_eq_none_iff .root node).1 hsuspended)]
      dsimp only
      rw [run_of_reports rules (walk_reports node (.root value)), Option.isSome_none,
        if_neg Bool.false_ne_true, ← notes_walk_root]
      exact List.append_nil _

end Rules

/-! ## What is asked, and how often -/

/-- A selection asks the conditions that it needs in order, none of them twice; its calls
    are those, also of predicates that make no notes of their own. -/
structure Chain.SelectsLazily {α : Type} (chain : Chain α) (data : Json) : Prop where
  notes : (chain.select data).notes = (chain.asked data).flatMap (Chain.Condition.notes data)
  calls : ∀ name, ((chain.announcing name).select data).notes
    = (chain.asked data).flatMap fun condition => name condition :: condition.notes data
  once : (chain.asked data).Subperm chain.conditions

/-- A validation asks its questions in order; among them is one selection for each visit of
    a chain, and no two visits are at one place of tree and document. -/
structure Rules.AsksOnce (rules : Rules) (node : Node) (value : Json) : Prop where
  waiting : (rules.validateWaiting node value).notes
    = (rules.questions node (.root value)).flatMap Inquiry.notes
      ++ (rules.decided (rules.findings node (.root value))).flatMap Slot.notes
  immediate : (rules.validate node value).notes
    = if (node.firstSuspended? .root).isSome then []
      else (rules.questions node (.root value)).flatMap Inquiry.notes
  selections : (rules.questions node (.root value)).filterMap Inquiry.selection?
    = (rules.visits node (.root value)).filterMap Visit.selection?
  visits : ((rules.visits node (.root value)).map Visit.key).Nodup

/-- **CONDITIONS ARE ASKED LAZILY AND IN ORDER**: of a chain those that a selection needs,
    each once at most, and of a tree those of the chains that are visited, once a visit. -/
theorem conditions_asked_lazily_and_once :
    (∀ {α : Type} (chain : Chain α) (data : Json), chain.SelectsLazily data)
      ∧ ∀ (rules : Rules) (node : Node) (value : Json), rules.AsksOnce node value :=
  ⟨fun chain data => ⟨chain.notes_select data,
      fun name => chain.notes_select_announcing name data, chain.subperm_asked data⟩,
    fun rules node value => ⟨rules.notes_validateWaiting node value,
      rules.notes_validate node value, Rules.selections_questions node (.root value),
      Rules.nodup_visits node (.root value)⟩⟩

end Conform
