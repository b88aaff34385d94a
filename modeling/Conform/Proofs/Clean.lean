import Conform.Proofs.FindingSources
import Conform.Proofs.Settling
import Conform.Schema

/-! # Clean sites — where a node finds no error

    A present value is clean for a node when its type fits, the node's own checks hold,
    its parts are clean, and no custom check objects at once.  For a union it is enough
    that one member finds no error. -/

namespace Conform

theorem hasErrors_flatMap_eq_false_iff {α : Type} {l : List α} {f : α → List Slot} :
    hasErrors (l.flatMap f) = false ↔ ∀ a ∈ l, hasErrors (f a) = false := by
  unfold hasErrors
  rw [List.any_flatMap, List.any_eq_false]
  simp only [Bool.not_eq_true]

namespace Node

variable {node : Node} {site : Site} {value : Json}

theorem present?_of_isNull_eq_false (hvalue : site.value = some value) (h : value.isNull = false) :
    node.present? site = some value := by
  unfold present?
  rw [hvalue, Option.filter_some, h]
  rfl

theorem present?_eq_none (hvalue : site.value = none) : node.present? site = none := by
  unfold present?
  rw [hvalue]
  rfl

end Node

namespace Rules

variable {rules : Rules} {node : Node} {site : Site} {value : Json}

/-- An absent value is an error exactly where it is required. -/
theorem hasErrors_siteFindings_of_absent {inside : Json → List Slot}
    (h : node.present? site = none) :
    hasErrors (rules.siteFindings node inside site) = node.facets.required := by
  unfold siteFindings
  rw [h]
  dsimp only
  cases node.facets.required with
  | true => rfl
  | false => rfl

/-- **A VALUE IS CLEAN** when everything that is asked of it by a node is. -/
theorem hasErrors_valueFindings_eq_false_iff {place : Place} {parts : Json → List Slot} :
    hasErrors (rules.valueFindings node place parts value) = false
      ↔ (node.base.fits value = true ∧ node.ownFaults value = [])
        ∧ hasErrors (parts value) = false
        ∧ hasErrors (rules.allCustomFindings node place value) = false := by
  unfold valueFindings
  by_cases hfits : node.base.fits value = true
  · rw [if_pos hfits]
    cases hown : node.ownFaults value with
    | nil =>
        rw [List.map_nil, List.nil_append, List.isEmpty_nil, if_pos rfl, hasErrors_append,
          Bool.or_eq_false_iff]
        exact ⟨fun h => ⟨⟨hfits, rfl⟩, h⟩, And.right⟩
    | cons fault rest => exact ⟨nofun, fun h => nomatch h.1.2⟩
  · rw [if_neg hfits]
    exact ⟨nofun, fun h => absurd h.1.1 hfits⟩

/-- The fields of an object are clean exactly if each of them is, at its member and under its
    name. -/
theorem hasErrors_fieldFindings_eq_false_iff {fields : List (String × Node)} {place : Place} :
    hasErrors (rules.fieldFindings fields value place) = false
      ↔ ∀ field ∈ fields, hasErrors (rules.findings field.2
          ⟨value.member? field.1, some value, place.key field.1⟩) = false := by
  rw [fieldFindings_eq_flatMap]
  exact hasErrors_flatMap_eq_false_iff

/-- The items of an array are clean exactly if each of them is, under its index. -/
theorem hasErrors_itemFindings_eq_false_iff {found : Site → List Slot} {record : Option Json}
    {place : Place} {position : Nat} {items : List Json} :
    hasErrors (itemFindings found record place position items) = false
      ↔ ∀ item ∈ items.zipIdx position,
          hasErrors (found ⟨some item.1, record, place.index item.2⟩) = false :=
  hasErrors_flatMap_eq_false_iff

/-- **A UNION IS CLEAN** when some member is, and its custom checks have nothing to
    object. -/
theorem hasErrors_trialFindings_eq_false_iff {listed members : List Node} {place : Place} :
    hasErrors (rules.trialFindings node listed place value (rules.trialAt members site value))
        = false
      ↔ (∃ member ∈ members, hasErrors (rules.findings member site) = false)
        ∧ hasErrors (rules.allCustomFindings node place value) = false := by
  cases ha : rules.agreed? members site with
  | none =>
      rw [hasErrors_trialFindings_of_refused ha]
      refine ⟨nofun, ?_⟩
      rintro ⟨⟨member, hmem, hclean⟩, -⟩
      exact (hasErrors_of_agreed?_eq_none ha member hmem).symm.trans hclean
  | some member =>
      obtain ⟨hmem, hclean⟩ := mem_of_agreed? ha
      unfold trialAt
      rw [ha]
      show hasErrors (rules.findings member site ++ _) = false ↔ _
      rw [hasErrors_append, hclean, Bool.false_or]
      exact ⟨fun h => ⟨⟨member, hmem, hclean⟩, h⟩, And.right⟩

/-- **MEMBERS WITHOUT A FIELD** are no errors where they are let pass, where there are no
    fields at all, and where there are no such members. -/
theorem hasErrors_unknownFindings_eq_false_iff {fields : List (String × Node)}
    {members : Members Json} {place : Place} :
    hasErrors (rules.unknownFindings fields members place) = false
      ↔ rules.config.allowUnknownFields = true ∨ fields.isEmpty = true
        ∨ ∀ name ∈ Members.names members, Members.hasName fields name = true := by
  unfold unknownFindings
  by_cases hpass : (rules.config.allowUnknownFields || fields.isEmpty) = true
  · rw [if_pos hpass, ← or_assoc, ← Bool.or_eq_true]
    exact ⟨fun _ => .inl hpass, fun _ => rfl⟩
  · have hready : ∀ names : List String,
        hasErrors (names.map fun name => .ready (rules.unknown (place.key name))) = false
          ↔ names = [] := by
      intro names
      cases names with
      | nil => exact ⟨fun _ => rfl, fun _ => rfl⟩
      | cons name rest => exact ⟨nofun, nofun⟩
    rw [if_neg hpass, hready, List.filter_eq_nil_iff, ← or_assoc, ← Bool.or_eq_true,
      or_iff_right hpass]
    simp only [Bool.not_eq_true', Bool.not_eq_false]

/-- Without custom checks there are no objections. -/
theorem hasErrors_allCustomFindings_of_nil (h : node.facets.customs = []) (place : Place)
    (value : Json) : hasErrors (rules.allCustomFindings node place value) = false := by
  unfold allCustomFindings
  rw [h]
  rfl

end Rules

/-! ## Checking -/

/-- **A VALUE IS VALID AT ONCE** exactly if no check of the tree is suspended and the
    tree finds no error in it. -/
theorem Schema.value_check_eq_true_iff (schema : Schema) (value : Json) :
    (schema.check value).value = true
      ↔ schema.node.firstSuspended? .root = none
        ∧ hasErrors (schema.rules.findings schema.node (.root value)) = false := by
  show holds (schema.rules.validate schema.node value).value = true ↔ _
  cases hs : schema.node.firstSuspended? .root with
  | some place =>
      rw [Rules.value_validate_of_suspended _ value hs]
      exact ⟨nofun, fun h => nomatch h.1⟩
  | none =>
      rw [Rules.value_validate_of_immediate _ value hs]
      show (readyErrors _).isEmpty = true ↔ _
      rw [List.isEmpty_iff, readyErrors_eq_nil_iff, Rules.hasErrors_keep]
      exact ⟨fun h => ⟨rfl, h⟩, And.right⟩

end Conform
