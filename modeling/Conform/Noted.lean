/-! # Noted computations

    Predicates and custom checks are given from outside, and when they are
    called can be observed.  Such a call is a computation that yields a value
    and a list of notes; running one after another joins their notes in order.

    A suspended check is a task: a computation that may pause any number of
    times before it is done.  Running a task to its end is a noted computation. -/

namespace Conform

universe u

/-- A value together with the notes that were made on the way to it. -/
structure Noted (α : Type u) where
  value : α
  notes : List String

namespace Noted

instance : Monad Noted where
  pure value := ⟨value, []⟩
  bind first next :=
    let second := next first.value
    ⟨second.value, first.notes ++ second.notes⟩

@[simp] theorem value_bind {α β : Type u} (first : Noted α) (next : α → Noted β) :
    (first >>= next).value = (next first.value).value := rfl

/-- The notes of two computations, one after the other. -/
@[simp] theorem notes_bind {α β : Type u} (first : Noted α) (next : α → Noted β) :
    (first >>= next).notes = first.notes ++ (next first.value).notes := rfl

instance : LawfulMonad Noted :=
  LawfulMonad.mk' Noted
    (fun x => by
      show Noted.mk x.value (x.notes ++ []) = x
      rw [List.append_nil])
    (fun _ _ => rfl)
    (fun x f g => by
      show Noted.mk (g (f x.value).value).value
          ((x.notes ++ (f x.value).notes) ++ (g (f x.value).value).notes)
        = Noted.mk (g (f x.value).value).value
          (x.notes ++ ((f x.value).notes ++ (g (f x.value).value).notes))
      rw [List.append_assoc])

/-- Makes a note. -/
def note (text : String) : Noted Unit := ⟨(), [text]⟩

end Noted

/-- A computation that may pause. -/
inductive Task (α : Type u) where
  | done (result : Noted α)
  | pending (notes : List String) (rest : Task α)

namespace Task

/-- Runs a task to its end. -/
def run {α : Type u} : Task α → Noted α
  | .done result => result
  | .pending notes rest =>
      let later := rest.run
      ⟨later.value, notes ++ later.notes⟩

end Task

end Conform
