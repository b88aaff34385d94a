import Conform.Place
import Conform.Proofs.CutTexts

/-! # Places — from the text back to the place

    A name is PLAIN when it has characters and none of them is one of the marks that
    stand between steps.  Where a plain name ends can be seen, so the text of a place
    whose names are all plain belongs to that place only (`text_injective`). -/

namespace Conform

open Conform.Text (cutAt?_append)

/-- The characters that stand between the steps of a place. -/
def isMark (c : Char) : Bool := c == '.' || c == '[' || c == ']'

/-- A name that ends where a mark or the text does. -/
structure PlainName (name : String) : Prop where
  nonempty : name.toList ≠ []
  unmarked : ∀ c ∈ name.toList, isMark c = false

-- over the characters of the name: an instance for all characters would try each of them
instance (name : String) : Decidable (PlainName name) :=
  decidable_of_iff (name.toList ≠ [] ∧ name.toList.any isMark = false)
    ⟨fun h => ⟨h.1, fun c hc => Bool.eq_false_iff.2 (List.any_eq_false.1 h.2 c hc)⟩,
      fun h => ⟨h.nonempty, List.any_eq_false.2 fun c hc => Bool.eq_false_iff.1 (h.unmarked c hc)⟩⟩

/-- A step to an index, or to a plain name. -/
def Step.IsPlain : Step → Prop
  | .key name => PlainName name
  | .index _ => True
  | .items => False

namespace Place

/-- The characters of steps that are not the first ones. -/
def written (steps : List Step) : List Char := steps.flatMap fun step => (stepText step).toList

/-- The text of a place is put together step by step. -/
theorem toList_foldl_stepText (steps : List Step) (text : String) :
    (steps.foldl (fun written step => written ++ stepText step) text).toList
      = text.toList ++ written steps := by
  induction steps generalizing text with
  | nil => exact (List.append_nil _).symm
  | cons step rest ih =>
      rw [List.foldl_cons, ih, String.toList_append, List.append_assoc]
      rfl

theorem toList_text_cons (first : Step) (more : List Step) :
    (Place.mk (first :: more)).text.toList = (firstText first).toList ++ written more :=
  toList_foldl_stepText more (firstText first)

theorem written_key (name : String) (rest : List Step) :
    written (.key name :: rest) = '.' :: (name.toList ++ written rest) := by
  show ("." ++ name).toList ++ written rest = _
  rw [String.toList_append, List.append_assoc]
  rfl

theorem written_index (position : Nat) (rest : List Step) :
    written (.index position :: rest) = '[' :: ((toString position).toList ++ ']' :: written rest) := by
  show ("[" ++ toString position ++ "]").toList ++ written rest = _
  rw [String.toList_append, String.toList_append, List.append_assoc, List.append_assoc]
  rfl

/-! ## Where a step ends -/

/-- After a name there is a mark, or nothing. -/
theorem takeWhile_written (steps : List Step) :
    (written steps).takeWhile (fun c => !isMark c) = [] := by
  cases steps with
  | nil => rfl
  | cons step rest =>
      cases step with
      | key name =>
          rw [written_key]
          rfl
      | index position =>
          rw [written_index]
          rfl
      | items => rfl

/-- **A PLAIN NAME CAN BE READ OFF THE TEXT**: it ends at the first point or bracket. -/
theorem takeWhile_name {name : String} (h : PlainName name) (more : List Step) :
    (name.toList ++ written more).takeWhile (fun c => !isMark c) = name.toList := by
  rw [List.takeWhile_append_of_pos, takeWhile_written, List.append_nil]
  intro c hc
  rw [h.unmarked c hc]
  rfl

/-- Two texts that begin with plain names agree in the names and in what follows. -/
theorem name_injective {name other : String} {more others : List Step} (hname : PlainName name)
    (hother : PlainName other) (h : name.toList ++ written more = other.toList ++ written others) :
    name = other ∧ written more = written others := by
  have hsame : name.toList = other.toList := by
    rw [← takeWhile_name hname more, ← takeWhile_name hother others, h]
  obtain rfl := String.toList_inj.1 hsame
  exact ⟨rfl, List.append_cancel_left h⟩

/-- A name is not where a mark or the end is. -/
theorem name_append_ne_written {name : String} (h : PlainName name) (more steps : List Step) :
    name.toList ++ written more ≠ written steps := by
  intro heq
  have htake := takeWhile_name h more
  rw [heq, takeWhile_written] at htake
  exact h.nonempty htake.symm

theorem toList_toString (position : Nat) :
    (toString position).toList = Nat.toDigits 10 position :=
  String.toList_ofList

theorem bracket_not_mem_digits (position : Nat) : ']' ∉ (toString position).toList := by
  rw [toList_toString]
  exact fun hmem => nomatch Nat.isDigit_of_mem_toDigits (by decide) (by decide) hmem

/-- Two texts that begin with an index agree in the index and in what follows. -/
theorem index_injective {position other : Nat} {rest others : List Char}
    (h : (toString position).toList ++ ']' :: rest = (toString other).toList ++ ']' :: others) :
    position = other ∧ rest = others := by
  have hcut := cutAt?_append rest (bracket_not_mem_digits position)
  rw [h, cutAt?_append others (bracket_not_mem_digits other)] at hcut
  obtain ⟨hdigits, hrest⟩ := Prod.mk.inj (Option.some.inj hcut)
  rw [toList_toString, toList_toString] at hdigits
  refine ⟨?_, hrest.symm⟩
  rw [← Nat.ofDigitChars_toDigits (b := 10) (n := position) (by decide) (by decide), ← hdigits,
    Nat.ofDigitChars_toDigits (by decide) (by decide)]

/-! ## Whole places -/

/-- Steps are found again, one by one. -/
theorem written_injective {steps others : List Step} (hsteps : ∀ step ∈ steps, step.IsPlain)
    (hothers : ∀ step ∈ others, step.IsPlain) (h : written steps = written others) :
    steps = others := by
  induction steps generalizing others with
  | nil =>
      cases others with
      | nil => rfl
      | cons other others =>
          cases other with
          | key name => exact nomatch h.trans (written_key name others)
          | index position => exact nomatch h.trans (written_index position others)
          | items => exact (hothers _ List.mem_cons_self).elim
  | cons step rest ih =>
      obtain ⟨hstep, hrest⟩ := List.forall_mem_cons.1 hsteps
      cases others with
      | nil =>
          -- the first character tells a name from an index, and each of them tells where it ends
          cases step with
          | key name => exact nomatch h.symm.trans (written_key name rest)
          | index position => exact nomatch h.symm.trans (written_index position rest)
          | items => exact hstep.elim
      | cons other others =>
          obtain ⟨hother, hmost⟩ := List.forall_mem_cons.1 hothers
          cases step with
          | key name =>
              cases other with
              | key otherName =>
                  rw [written_key, written_key, List.cons.injEq] at h
                  obtain ⟨rfl, hmore⟩ := name_injective hstep hother h.2
                  rw [ih hrest hmost hmore]
              | index position =>
                  rw [written_key, written_index] at h
                  exact nomatch h
              | items => exact hother.elim
          | index position =>
              cases other with
              | key name =>
                  rw [written_key, written_index] at h
                  exact nomatch h
              | index otherPosition =>
                  rw [written_index, written_index, List.cons.injEq] at h
                  obtain ⟨rfl, hmore⟩ := index_injective h.2
                  rw [ih hrest hmost hmore]
              | items => exact hother.elim
          | items => exact hstep.elim

/-- The text of a place starts with a name that has no point before it, or else it is
    written like the steps after the first one. -/
theorem toList_text_cases {steps : List Step} (h : ∀ step ∈ steps, step.IsPlain) :
    (∃ name more, steps = .key name :: more
        ∧ (Place.mk steps).text.toList = name.toList ++ written more)
      ∨ (Place.mk steps).text.toList = written steps := by
  cases steps with
  | nil => exact .inr rfl
  | cons first more =>
      cases first with
      | key name => exact .inl ⟨name, more, rfl, toList_text_cons _ more⟩
      | index position => exact .inr (toList_text_cons _ more)
      | items => exact (h _ List.mem_cons_self).elim

/-- **PLACES OF PLAIN NAMES DIFFER IN THEIR TEXTS.** -/
theorem text_injective {place other : Place} (hplace : ∀ step ∈ place.steps, step.IsPlain)
    (hother : ∀ step ∈ other.steps, step.IsPlain) (h : place.text = other.text) :
    place = other := by
  obtain ⟨steps⟩ := place
  obtain ⟨others⟩ := other
  congr 1
  have htext := congrArg String.toList h
  rcases toList_text_cases hplace with ⟨name, more, rfl, htake⟩ | htake
  · obtain ⟨hname, hmore⟩ := List.forall_mem_cons.1 hplace
    rcases toList_text_cases hother with ⟨otherName, rest, rfl, hrest⟩ | hrest
    · obtain ⟨hotherName, hothers⟩ := List.forall_mem_cons.1 hother
      obtain ⟨rfl, hwritten⟩ := name_injective hname hotherName (htake.symm.trans (htext.trans hrest))
      rw [written_injective hmore hothers hwritten]
    · exact absurd (htake.symm.trans (htext.trans hrest)) (name_append_ne_written hname more others)
  · rcases toList_text_cases hother with ⟨otherName, rest, rfl, hrest⟩ | hrest
    · obtain ⟨hotherName, -⟩ := List.forall_mem_cons.1 hother
      exact absurd (hrest.symm.trans (htext.symm.trans htake))
        (name_append_ne_written hotherName rest steps)
    · exact written_injective hplace hother (htake.symm.trans (htext.trans hrest))

/-- A name with a point in it is written like two names. -/
example : (Place.root.key "a.b").text = ((Place.root.key "a").key "b").text := by decide

end Place

end Conform
