import Conform.Record

/-! # Branches — what a field of the record selects

    A branch selects one of several targets by a field of the record: by its
    text, or by whether it counts as true.  The type of the targets is a
    parameter that selecting never looks into (`pickCase?_map`,
    `pickSide?_map`). -/

namespace Conform

/-- The reserved key of the case for every other text. -/
def defaultCase : String := "_default"

/-- The target of the case for the text of a field, or of the default case. -/
def pickCase? {α : Type} (reference : String) (cases : Members α) (record : Json) : Option α :=
  Members.valueOf? cases (Json.caseText (record.resolve? reference))
    <|> Members.valueOf? cases defaultCase

/-- The first target if the field counts as true, otherwise the second one, if
    there is one. -/
def pickSide? {α : Type} (field : String) (yes : α) (no : Option α) (record : Json) : Option α :=
  if Json.isTruthy (record.resolve? field) then some yes else no

/-- Picking a case commutes with a change of the targets. -/
theorem pickCase?_map {α β : Type} (f : α → β) (reference : String) (cases : Members α)
    (record : Json) :
    pickCase? reference (Members.mapValues f cases) record
      = (pickCase? reference cases record).map f := by
  unfold pickCase?
  rw [Members.valueOf?_mapValues, Members.valueOf?_mapValues]
  cases Members.valueOf? cases (Json.caseText (record.resolve? reference)) <;> rfl

/-- Picking a side commutes with a change of the targets. -/
theorem pickSide?_map {α β : Type} (f : α → β) (field : String) (yes : α) (no : Option α)
    (record : Json) :
    pickSide? field (f yes) (no.map f) record = (pickSide? field yes no record).map f := by
  unfold pickSide?
  split <;> rfl

/-- A case that is picked is the target of one of the cases. -/
theorem exists_mem_of_mem_pickCase? {α : Type} {reference : String} {cases : Members α}
    {record : Json} {target : α} (h : target ∈ pickCase? reference cases record) :
    ∃ case ∈ cases, case.2 = target := by
  have h1 : pickCase? reference cases record = some target := h
  unfold pickCase? at h1
  cases hv : Members.valueOf? cases (Json.caseText (record.resolve? reference)) with
  | some found =>
      rw [hv] at h1
      obtain rfl : found = target := Option.some.inj h1
      exact ⟨_, Members.mem_of_valueOf?_eq_some hv, rfl⟩
  | none =>
      rw [hv] at h1
      exact ⟨_, Members.mem_of_valueOf?_eq_some h1, rfl⟩

/-- A side that is picked is one of the two. -/
theorem mem_pickSide? {α : Type} {field : String} {yes : α} {no : Option α} {record : Json}
    {target : α} (h : target ∈ pickSide? field yes no record) : yes = target ∨ target ∈ no := by
  have h1 : pickSide? field yes no record = some target := h
  unfold pickSide? at h1
  split at h1
  · exact Or.inl (Option.some.inj h1)
  · exact Or.inr h1

end Conform
