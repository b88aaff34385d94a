import Conform.Proofs.Throughout
import Conform.Validation.Suspended

/-! # Declarations — the nodes of a tree in order

    A tree lists its nodes with the places where they are DECLARED: a node stands
    before the nodes in it, and these stand in the order of the form.  A property of
    every node is a property of all that are listed (`every_iff_declared`), and the
    search for a suspended check goes down the list (`firstSuspended?_eq_find?`).  It
    finds none exactly in an IMMEDIATE tree (`firstSuspended?_eq_none_iff`). -/

namespace Conform

namespace Node

/-! ## The list -/

/-- The nodes that a node at `place` holds, with the places of their declarations. -/
def held (place : Place) : Node → List (Place × Node)
  | .leaf _ _ => []
  | .object _ fields => fields.map fun field => (place.key field.1, field.2)
  | .array _ items => items.toList.map fun node => (place.items, node)
  | .union _ members => members.map fun node => (place, node)
  | .matching _ _ cases => cases.map fun case => (place, case.2)
  | .switch _ _ yes no => (yes :: no.toList).map fun node => (place, node)
  | .chain _ body => body.targets.map fun node => (place, node)

/-- Without their places, the nodes that a node holds are its children. -/
theorem map_snd_held (place : Place) (node : Node) :
    (node.held place).map Prod.snd = node.children := by
  cases node with
  | leaf type facets => rfl
  | object facets fields => exact List.map_map
  | array facets items => exact List.map_map.trans (List.map_id _)
  | union facets members => exact List.map_map.trans (List.map_id _)
  | matching facets reference cases => exact List.map_map
  | switch facets field yes no => exact List.map_map.trans (List.map_id _)
  | chain facets body => exact List.map_map.trans (List.map_id _)

theorem snd_mem_children {place : Place} {node : Node} {one : Place × Node}
    (h : one ∈ node.held place) : one.2 ∈ node.children := by
  rw [← map_snd_held place node]
  exact List.mem_map_of_mem h

/-- All nodes of a tree in order, with the places of their declarations. -/
def declared (place : Place) (node : Node) : List (Place × Node) :=
  (place, node) :: (node.held place).attach.flatMap fun one => one.1.2.declared one.1.1
termination_by sizeOf node
decreasing_by exact sizeOf_lt_of_mem_children (snd_mem_children one.2)

/-- The node itself, and then what is listed of the nodes in it. -/
theorem declared_eq (place : Place) (node : Node) :
    node.declared place
      = (place, node) :: (node.held place).flatMap fun one => one.2.declared one.1 := by
  have hforget : ∀ one (h : one ∈ node.held place),
      declared (Subtype.mk one h).1.1 (Subtype.mk one h).1.2 = one.2.declared one.1 :=
    fun _ _ => rfl
  rw [declared, List.flatMap_subtype hforget, List.unattach_attach]

/-- **A PROPERTY OF EVERY NODE** is a property of all nodes that are listed. -/
theorem every_iff_declared {P : Node → Prop} (node : Node) :
    ∀ place, node.Every P ↔ ∀ one ∈ node.declared place, P one.2 := by
  induction node using induction_children with
  | step node ih =>
      intro place
      rw [declared_eq, List.forall_mem_cons]
      constructor
      · intro h
        refine ⟨h.here, ?_⟩
        intro one hmem
        obtain ⟨part, hpart, hone⟩ := List.mem_flatMap.1 hmem
        have hchild := snd_mem_children hpart
        exact (ih part.2 hchild part.1).1 (h.inside hchild) one hone
      · rintro ⟨here, hbelow⟩
        refine .intro here ?_
        intro child hchild
        rw [← map_snd_held place node] at hchild
        obtain ⟨part, hpart, rfl⟩ := List.mem_map.1 hchild
        refine (ih part.2 (snd_mem_children hpart) part.1).2 ?_
        exact fun one hone => hbelow one (List.mem_flatMap.2 ⟨part, hpart, hone⟩)

/-! ## The first suspended check -/

/-- No node of the tree has a suspended check. -/
def IsImmediate (node : Node) : Prop := node.Every fun part => part.isSuspended = false

theorem orElse_eq_or {α : Type} (a b : Option α) : (a <|> b) = a.or b := by
  cases a <;> rfl

/-- Trying one alternative after the other over a list finds the first that gives
    something. -/
theorem eq_findSome?_of_orElse {α β : Type} {f : α → Option β} {g : List α → Option β}
    (hnil : g [] = none) (hcons : ∀ a l, g (a :: l) = (f a <|> g l)) (l : List α) :
    g l = l.findSome? f := by
  induction l with
  | nil => exact hnil
  | cons a rest ih =>
      rw [hcons, ih, List.findSome?_cons]
      cases f a <;> rfl

theorem findSome?_congr {α β : Type} {f g : α → Option β} {l : List α}
    (h : ∀ a ∈ l, f a = g a) : l.findSome? f = l.findSome? g := by
  induction l with
  | nil => rfl
  | cons a rest ih =>
      rw [List.findSome?_cons, List.findSome?_cons, h a List.mem_cons_self,
        ih fun b hb => h b (List.mem_cons_of_mem a hb)]

/-- The entries of a chain are searched in order, and conditions have no targets. -/
theorem firstSuspendedEntry?_eq_findSome? (place : Place) (entries : List (Chain.Entry Node)) :
    firstSuspendedEntry? place entries
      = (entries.filterMap Chain.Entry.target).findSome? (firstSuspended? place) := by
  induction entries with
  | nil => rfl
  | cons entry rest ih =>
      show (firstSuspendedTarget? place entry.target <|> firstSuspendedEntry? place rest) = _
      rw [ih]
      cases htarget : entry.target with
      | none =>
          rw [List.filterMap_cons_none htarget]
          rfl
      | some node =>
          rw [List.filterMap_cons_some htarget, List.findSome?_cons, orElse_eq_or]
          show Option.or (firstSuspended? place node) _ = _
          cases firstSuspended? place node <;> rfl

/-- A chain is searched target by target, the fallback last. -/
theorem firstSuspendedOf?_eq_findSome? (place : Place) (chain : Chain Node) :
    firstSuspendedOf? place chain = chain.targets.findSome? (firstSuspended? place) := by
  obtain ⟨entries, fallback⟩ := chain
  show ( firstSuspendedEntry? place entries <|> firstSuspendedFallback? place fallback)
    = (entries.filterMap Chain.Entry.target ++ _).findSome? _
  rw [firstSuspendedEntry?_eq_findSome?, List.findSome?_append, orElse_eq_or]
  congr 1
  cases fallback with
  | undefined => rfl
  | nothing => rfl
  | target node => exact List.findSome?_singleton.symm

/-- A suspended check of the node itself comes first, and then those of the nodes that
    it holds. -/
theorem firstSuspended?_eq_ite (place : Place) (node : Node) :
    node.firstSuspended? place
      = if node.isSuspended then some place
        else (node.held place).findSome? fun one => one.2.firstSuspended? one.1 := by
  cases node with
  | leaf type facets => rfl
  | object facets fields =>
      show (if _ then _ else firstSuspendedField? place fields)
        = if _ then _ else (fields.map _).findSome? _
      rw [List.findSome?_map, eq_findSome?_of_orElse (g := firstSuspendedField? place) rfl
        (fun _ _ => rfl)]
      rfl
  | array facets items => cases items with
    | none => rfl
    | some node =>
        show (if _ then _ else firstSuspended? place.items node)
          = if _ then _ else [(place.items, node)].findSome? _
        rw [List.findSome?_singleton]
  | union facets members =>
      show (if _ then _ else firstSuspendedMember? place members)
        = if _ then _ else (members.map _).findSome? _
      rw [List.findSome?_map, eq_findSome?_of_orElse (g := firstSuspendedMember? place) rfl
        (fun _ _ => rfl)]
      rfl
  | matching facets reference cases =>
      show (if _ then _ else firstSuspendedCase? place cases)
        = if _ then _ else (cases.map _).findSome? _
      rw [List.findSome?_map, eq_findSome?_of_orElse (g := firstSuspendedCase? place) rfl
        (fun _ _ => rfl)]
      rfl
  | switch facets field yes no => cases no with
    | none =>
        show (if _ then _ else firstSuspended? place yes)
          = if _ then _ else [(place, yes)].findSome? _
        rw [List.findSome?_singleton]
    | some no =>
        show (if _ then _ else (firstSuspended? place yes <|> firstSuspended? place no))
          = if _ then _ else [(place, yes), (place, no)].findSome? _
        rw [List.findSome?_cons, List.findSome?_singleton, orElse_eq_or]
        cases firstSuspended? place yes <;> rfl
  | chain facets body =>
      obtain ⟨entries, fallback⟩ := body
      show (if _ then _ else firstSuspendedOf? place ⟨entries, fallback⟩)
        = if _ then _ else ((Chain.targets ⟨entries, fallback⟩).map _).findSome? _
      rw [List.findSome?_map, firstSuspendedOf?_eq_findSome?]
      rfl

/-- **THE FIRST SUSPENDED CHECK** stands at the first listed node that has one. -/
theorem firstSuspended?_eq_find? (node : Node) :
    ∀ place, node.firstSuspended? place
      = ((node.declared place).find? fun one => one.2.isSuspended).map Prod.fst := by
  induction node using induction_children with
  | step node ih =>
      intro place
      rw [firstSuspended?_eq_ite, declared_eq, List.find?_cons]
      show _ = Option.map Prod.fst (match node.isSuspended with | true => _ | false => _)
      cases node.isSuspended with
      | true => rfl
      | false =>
          show List.findSome? _ _ = Option.map Prod.fst (List.find? _ _)
          rw [List.find?_flatMap, List.map_findSome?]
          refine findSome?_congr ?_
          intro one hmem
          exact ih one.2 (snd_mem_children hmem) one.1

/-- There is no first suspended check exactly if there is none at all. -/
theorem firstSuspended?_eq_none_iff (place : Place) (node : Node) :
    node.firstSuspended? place = none ↔ node.IsImmediate := by
  rw [IsImmediate, firstSuspended?_eq_find?, Option.map_eq_none_iff, List.find?_eq_none,
    every_iff_declared node place]
  simp only [Bool.not_eq_true]

end Node

/-! ## Chains that belong to no node -/

namespace Chain

/-- All nodes of a chain in order: those of its targets, one target after the other. -/
def declared (place : Place) (chain : Chain Node) : List (Place × Node) :=
  chain.targets.flatMap fun node => node.declared place

/-- The first suspended check of a chain stands at its first listed node that has one. -/
theorem firstSuspendedOf?_eq_find? (place : Place) (chain : Chain Node) :
    Node.firstSuspendedOf? place chain
      = ((chain.declared place).find? fun one => one.2.isSuspended).map Prod.fst := by
  rw [Node.firstSuspendedOf?_eq_findSome?, declared, List.find?_flatMap, List.map_findSome?]
  exact Node.findSome?_congr fun node _ => node.firstSuspended?_eq_find? place

/-- A chain has no suspended check exactly if none of its targets has one. -/
theorem firstSuspendedOf?_eq_none_iff (place : Place) (chain : Chain Node) :
    Node.firstSuspendedOf? place chain = none ↔ ∀ node ∈ chain.targets, node.IsImmediate := by
  rw [Node.firstSuspendedOf?_eq_findSome?, List.findSome?_eq_none_iff]
  simp only [Node.firstSuspended?_eq_none_iff]

end Chain

end Conform
