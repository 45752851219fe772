import Relabel.Error
import Relabel.Event

/-!
# Traced computations

The outcome of a computation together with the events it reported. Events reported before an error
are kept.
-/

namespace Relabel

/-- An outcome and the events reported on the way to it, in order. -/
structure Traced (α : Type) where
  outcome : Except Error α
  events : List Event

namespace Traced

variable {α β : Type}

/-- The outcome of a step that reports nothing. -/
def ofExcept (outcome : Except Error α) : Traced α :=
  ⟨outcome, []⟩

/-- Goes on with the value of a computation. -/
def bind (first : Traced α) (next : α → Traced β) : Traced β :=
  match first.outcome with
  | .ok a =>
    let second := next a
    ⟨second.outcome, first.events ++ second.events⟩
  | .error e => ⟨.error e, first.events⟩

instance : Monad Traced where
  pure a := ⟨.ok a, []⟩
  bind := bind

/-- Reports an event. -/
def emit (event : Event) : Traced Unit :=
  ⟨.ok (), [event]⟩

@[simp] theorem outcome_pure (a : α) : (pure a : Traced α).outcome = .ok a :=
  rfl

@[simp] theorem events_pure (a : α) : (pure a : Traced α).events = [] :=
  rfl

/-- The outcome of two computations in a row; events do not matter to it. -/
theorem outcome_bind (first : Traced α) (next : α → Traced β) :
    (first >>= next).outcome = first.outcome >>= fun a => (next a).outcome := by
  simp only [Bind.bind, bind, Except.bind]
  cases first.outcome <;> rfl

instance : LawfulMonad Traced :=
  LawfulMonad.mk' Traced
    (by
      intro α x
      simp only [Functor.map, bind]
      cases x with
      | mk outcome events => cases outcome <;> simp)
    (by
      intro α β a f
      simp [Bind.bind, bind, pure])
    (by
      intro α β γ x f g
      simp only [Bind.bind, bind]
      cases x with
      | mk outcome events =>
        cases outcome with
        | error e => rfl
        | ok a => cases h : (f a).outcome <;> simp [h])

end Traced

end Relabel
