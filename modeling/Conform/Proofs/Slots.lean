import Conform.Validation.Rules

/-! # Slots — what is kept of a list of slots

    A list that takes nothing more once it holds an error ends with its first
    error.  So adding slots one by one to what was kept of a list keeps what would
    be kept of the whole: nothing that is added is lost earlier than that
    (`addAll_keep`), and the slots may even be kept in two steps
    (`keep_append_keep`). -/

namespace Conform

/-- There are errors if the first slot is ready or there are errors behind it. -/
theorem hasErrors_cons (slot : Slot) (slots : List Slot) :
    hasErrors (slot :: slots) = (slot.isReady || hasErrors slots) := rfl

theorem hasErrors_append (slots more : List Slot) :
    hasErrors (slots ++ more) = (hasErrors slots || hasErrors more) :=
  List.any_append

/-- Slots hold an error exactly if there are errors among them. -/
theorem readyErrors_eq_nil_iff (slots : List Slot) :
    readyErrors slots = [] ↔ hasErrors slots = false := by
  induction slots with
  | nil => exact ⟨fun _ => rfl, fun _ => rfl⟩
  | cons slot rest ih =>
      cases slot with
      | ready error =>
          constructor
          · intro h
            exact nomatch h
          · intro h
            exact nomatch h
      | undecided check => exact ih

/-! ## Up to the first -/

section

variable {α β : Type} {p q : α → Bool}

/-- The elements up to the first that passes a test, which is the last of them. -/
def upTo (p : α → Bool) : List α → List α
  | [] => []
  | a :: rest => if p a then [a] else a :: upTo p rest

/-- Stopping at the first one that counts loses none that counts first. -/
theorem any_upTo (p : α → Bool) (l : List α) : (upTo p l).any p = l.any p := by
  induction l with
  | nil => rfl
  | cons a rest ih =>
      rw [upTo, List.any_cons]
      by_cases h : p a = true
      · rw [if_pos h, List.any_cons, h]
        rfl
      · rw [if_neg h, List.any_cons, ih]

theorem mem_of_mem_upTo {l : List α} {a : α} (h : a ∈ upTo p l) : a ∈ l := by
  induction l with
  | nil => exact h
  | cons head rest ih =>
      rw [upTo] at h
      by_cases hhead : p head = true
      · rw [if_pos hhead] at h
        rw [List.mem_singleton.1 h]
        exact List.mem_cons_self
      · rw [if_neg hhead] at h
        rcases List.mem_cons.1 h with rfl | hrest
        · exact List.mem_cons_self
        · exact List.mem_cons_of_mem head (ih hrest)

/-- Nothing is left after the first that passes. -/
theorem upTo_append_of_any {l : List α} (more : List α) (h : l.any p = true) :
    upTo p (l ++ more) = upTo p l := by
  induction l with
  | nil => exact nomatch h
  | cons a rest ih =>
      rw [List.cons_append, upTo, upTo]
      by_cases ha : p a = true
      · rw [if_pos ha, if_pos ha]
      · have hr : rest.any p = true := by
          rw [List.any_cons, Bool.or_eq_true] at h
          exact h.resolve_left ha
        rw [if_neg ha, if_neg ha, ih hr]

/-- Everything before the first that passes is left. -/
theorem upTo_append_of_not_any {l : List α} (more : List α) (h : l.any p = false) :
    upTo p (l ++ more) = l ++ upTo p more := by
  induction l with
  | nil => rfl
  | cons a rest ih =>
      rw [List.any_cons, Bool.or_eq_false_iff] at h
      rw [List.cons_append, upTo, if_neg (by rw [h.1]; exact Bool.false_ne_true), ih h.2]
      rfl

/-- Where nothing counts nothing is cut off. -/
theorem upTo_eq_self {l : List α} (h : l.any p = false) : upTo p l = l := by
  have h1 := upTo_append_of_not_any [] h
  rw [List.append_nil] at h1
  rw [h1]
  exact List.append_nil l

theorem upTo_singleton (p : α → Bool) (a : α) : upTo p [a] = [a] := by
  rw [upTo]
  split <;> rfl

/-- Stopping can be told before or after a change. -/
theorem upTo_map (p : β → Bool) (f : α → β) (l : List α) :
    upTo p (l.map f) = (upTo (p ∘ f) l).map f := by
  induction l with
  | nil => rfl
  | cons a rest ih =>
      rw [List.map_cons, upTo, upTo, ih]
      show (if p (f a) = true then _ else _) = List.map f (if p (f a) = true then _ else _)
      split <;> rfl

/-- Going up to a later element first makes no difference. -/
theorem upTo_upTo (h : ∀ a, p a = true → q a = true) (l : List α) :
    upTo q (upTo p l) = upTo q l := by
  induction l with
  | nil => rfl
  | cons a rest ih =>
      rw [upTo]
      by_cases hp : p a = true
      · rw [if_pos hp, upTo_singleton, upTo, if_pos (h a hp)]
      · rw [if_neg hp, upTo, upTo, ih]

/-- What is left does not depend on what follows the first that passes. -/
theorem upTo_append_upTo (p : α → Bool) (l more : List α) :
    upTo p (l ++ upTo p more) = upTo p (l ++ more) := by
  cases h : l.any p with
  | true => rw [upTo_append_of_any _ h, upTo_append_of_any _ h]
  | false =>
      rw [upTo_append_of_not_any _ h, upTo_append_of_not_any _ h, upTo_upTo fun _ hp => hp]

/-- Up to the first element with a result there is one result, the first. -/
theorem filterMap_upTo (f : α → Option β) (l : List α) :
    (upTo (fun a => (f a).isSome) l).filterMap f = (l.filterMap f).take 1 := by
  induction l with
  | nil => rfl
  | cons a rest ih =>
      rw [upTo]
      cases h : f a with
      | none =>
          rw [if_neg (by rw [Option.isSome_none]; exact Bool.false_ne_true),
            List.filterMap_cons_none h, List.filterMap_cons_none h, ih]
      | some b =>
          rw [if_pos Option.isSome_some, List.filterMap_cons_some h, List.filterMap_cons_some h]
          rfl

end

/-- Up to the first error there is one error, the first. -/
theorem readyErrors_upTo (slots : List Slot) :
    readyErrors (upTo Slot.isReady slots) = (readyErrors slots).take 1 := by
  have hready : Slot.isReady = fun slot => slot.error?.isSome := by
    funext slot
    cases slot <;> rfl
  rw [hready]
  exact filterMap_upTo Slot.error? slots

namespace Rules

variable (rules : Rules)

/-- What is kept of slots: all, unless the first error ends the validation. -/
def keep (slots : List Slot) : List Slot :=
  if rules.config.abortEarly then upTo Slot.isReady slots else slots

@[simp] theorem keep_nil : rules.keep [] = [] := by
  unfold keep
  split <;> rfl

/-- Keeping less does not hide that there are errors. -/
theorem hasErrors_keep (slots : List Slot) : hasErrors (rules.keep slots) = hasErrors slots := by
  unfold keep
  split
  · exact any_upTo Slot.isReady slots
  · rfl

/-- Without slots there is room. -/
theorem isFull_nil : rules.isFull [] = false := Bool.and_false _

theorem isFull_append (slots more : List Slot) :
    rules.isFull (slots ++ more) = (rules.isFull slots || rules.isFull more) := by
  unfold isFull
  rw [hasErrors_append, Bool.and_or_distrib_left]

theorem isFull_keep (slots : List Slot) : rules.isFull (rules.keep slots) = rules.isFull slots := by
  unfold isFull
  rw [hasErrors_keep]

/-- Full slots stay as they are. -/
theorem keep_append_of_isFull {slots : List Slot} (more : List Slot)
    (h : rules.isFull (rules.keep slots) = true) :
    rules.keep (slots ++ more) = rules.keep slots := by
  unfold isFull at h
  rw [Bool.and_eq_true, hasErrors_keep] at h
  unfold keep
  rw [if_pos h.1, if_pos h.1]
  exact upTo_append_of_any more h.2

/-- Slots with room are kept as they are. -/
theorem keep_of_isFull_eq_false {slots : List Slot} (h : rules.isFull slots = false) :
    rules.keep slots = slots := by
  by_cases habort : rules.config.abortEarly = true
  · have hclean : hasErrors slots = false := by
      rw [isFull, habort, Bool.true_and] at h
      exact h
    rw [keep, if_pos habort]
    exact upTo_eq_self hclean
  · rw [keep, if_neg habort]

/-- **ADDING TO WHAT WAS KEPT KEEPS WHAT IS ADDED**, as long as there is room. -/
theorem add_keep (slots : List Slot) (slot : Slot) :
    rules.add (rules.keep slots) slot = rules.keep (slots ++ [slot]) := by
  unfold add
  by_cases h : rules.isFull (rules.keep slots) = true
  · rw [if_pos h, keep_append_of_isFull rules [slot] h]
  · rw [if_neg h]
    unfold keep
    by_cases ha : rules.config.abortEarly = true
    · -- there is room, so no error was kept
      have hn : hasErrors slots = false := by
        cases hs : hasErrors slots with
        | false => rfl
        | true =>
            refine absurd ?_ h
            unfold isFull
            rw [hasErrors_keep, ha, hs]
            rfl
      rw [if_pos ha, if_pos ha, upTo_eq_self hn, upTo_append_of_not_any _ hn, upTo_singleton]
    · rw [if_neg ha, if_neg ha]

/-- **ADDING TO WHAT IS KEPT KEEPS WHAT WOULD BE KEPT OF ALL.** -/
theorem addAll_keep (slots more : List Slot) :
    rules.addAll (rules.keep slots) more = rules.keep (slots ++ more) := by
  induction more generalizing slots with
  | nil => rw [List.append_nil]; rfl
  | cons slot rest ih =>
      show rules.addAll (rules.add (rules.keep slots) slot) rest = _
      rw [add_keep, ih, List.append_assoc]
      rfl

/-- Nothing changes if what is added was cut short already. -/
theorem keep_append_keep (slots more : List Slot) :
    rules.keep (slots ++ rules.keep more) = rules.keep (slots ++ more) := by
  unfold keep
  split
  · exact upTo_append_upTo Slot.isReady slots more
  · rfl

end Rules

end Conform
