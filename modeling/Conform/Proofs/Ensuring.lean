import Conform.Compiler

/-! # Ensuring — what a computation keeps and what it yields

    Texts are read, and specifications compiled, by computations that have a state and
    may stop with an error.  Such a computation ENSURES a property of its values when
    it keeps an invariant of the state, whether or not it stops, and every value it
    yields has the property. -/

namespace Conform

variable {σ α β : Type}

/-- What two steps yield, the second yields from what the first one yields. -/
theorem exists_of_bind_eq_ok {ε : Type} {x : Except ε α} {f : α → Except ε β} {b : β}
    (h : x >>= f = .ok b) : ∃ a, x = .ok a ∧ f a = .ok b := by
  cases x with
  | error error => exact nomatch h
  | ok a => exact ⟨a, rfl, h⟩

/-- The invariant of the state is kept, and every value that is yielded has the
    property. -/
def Ensures (I : σ → Prop) (x : ExceptT Error (StateM σ) α) (Q : α → Prop) : Prop :=
  ∀ state, I state → I (x.run state).2 ∧ ∀ a, (x.run state).1 = .ok a → Q a

namespace Ensures

variable {I : σ → Prop} {Q : α → Prop} {R : β → Prop}

/-- A result that is at hand ensures what holds of it. -/
theorem pure {a : α} (h : Q a) : Ensures I (Pure.pure a) Q := by
  intro state hstate
  refine ⟨hstate, ?_⟩
  rintro b ⟨rfl⟩
  exact h

theorem throw (error : Error) : Ensures I (MonadExcept.throw error : ExceptT Error (StateM σ) α) Q := by
  intro state hstate
  refine ⟨hstate, ?_⟩
  rintro b ⟨⟩

/-- Where nothing is asked, nothing is to be shown. -/
theorem vacuous (x : ExceptT Error (StateM σ) α) : Ensures (fun _ => True) x fun _ => True :=
  fun _ _ => ⟨True.intro, fun _ _ => True.intro⟩

/-- What is ensured ensures what follows from it. -/
theorem mono {R : α → Prop} {x : ExceptT Error (StateM σ) α} (hx : Ensures I x Q)
    (h : ∀ a, Q a → R a) : Ensures I x R :=
  fun state hstate => ⟨(hx state hstate).1, fun a ha => h a ((hx state hstate).2 a ha)⟩

/-- What a computation ensures under each of two invariants, it ensures under the
    stronger one. -/
theorem and {J : σ → Prop} {R : α → Prop} {x : ExceptT Error (StateM σ) α} (hx : Ensures I x Q)
    (hother : Ensures J x R) (hweaker : ∀ state, I state → J state) :
    Ensures I x fun a => Q a ∧ R a := by
  intro state hstate
  obtain ⟨hafter, hvalue⟩ := hx state hstate
  refine ⟨hafter, fun a ha => ⟨hvalue a ha, ?_⟩⟩
  exact (hother state (hweaker state hstate)).2 a ha

/-- One step after another: the second one may rely on what the first one ensures. -/
theorem bind {x : ExceptT Error (StateM σ) α} {f : α → ExceptT Error (StateM σ) β}
    (hx : Ensures I x Q) (hf : ∀ a, Q a → Ensures I (f a) R) : Ensures I (x >>= f) R := by
  intro state hstate
  obtain ⟨hafter, hvalue⟩ := hx state hstate
  show I (ExceptT.bindCont f (x.run state).1 (x.run state).2).2
    ∧ ∀ b, (ExceptT.bindCont f (x.run state).1 (x.run state).2).1 = .ok b → R b
  cases hr : (x.run state).1 with
  | error error =>
      refine ⟨hafter, ?_⟩
      rintro b ⟨⟩
  | ok a => exact hf a (hvalue a hr) _ hafter

end Ensures

end Conform
