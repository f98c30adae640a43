import Mathlib.Algebra.Order.Field.Rat

/-!
# Runs of a machine

A machine is a step function on states and events; what is not determined by the
state (the call that is made, the faults that strike it) is part of the event.

* `runFrom` is the state after a list of events.
* `Along step ok s events` says that every step of the run meets `ok`.
* `Along.invariant` and `Along.relation` lift what holds for one step to runs.
-/

namespace RustDb.Lib

variable {σ ε : Type}

/-- The state after the events, in order. -/
def runFrom (step : σ → ε → σ) : σ → List ε → σ
  | s, [] => s
  | s, e :: events => runFrom step (step s e) events

/-- Every step of the run meets `ok`. -/
def Along (step : σ → ε → σ) (ok : σ → ε → Prop) : σ → List ε → Prop
  | _, [] => True
  | s, e :: events => ok s e ∧ Along step ok (step s e) events

section

variable {step : σ → ε → σ} {ok : σ → ε → Prop} {s : σ} {events : List ε}

theorem runFrom_append (events' : List ε) :
    runFrom step s (events ++ events') =
      runFrom step (runFrom step s events) events' := by
  induction events generalizing s with
  | nil => rfl
  | cons e events ih => exact ih

variable {I : σ → Prop}

/-- What every step keeps holds after the run. -/
theorem Along.invariant (h : Along step ok s events) (hs : I s)
    (hstep : ∀ s e, I s → ok s e → I (step s e)) :
    I (runFrom step s events) := by
  induction events generalizing s with
  | nil => exact hs
  | cons e events ih => exact ih h.2 (hstep s e hs h.1)

/-- What every step keeps, whatever the event, holds after the run. -/
theorem runFrom_invariant (hs : I s) (hstep : ∀ s e, I s → I (step s e)) :
    I (runFrom step s events) := by
  induction events generalizing s with
  | nil => exact hs
  | cons e events ih => exact ih (hstep s e hs)

/-- What every event of the run keeps holds after it. -/
theorem runFrom_invariant_of_mem (hs : I s)
    (hstep : ∀ s, ∀ e ∈ events, I s → I (step s e)) : I (runFrom step s events) := by
  induction events generalizing s with
  | nil => exact hs
  | cons e events ih =>
    exact ih (hstep s e List.mem_cons_self hs)
      fun s' e' he' => hstep s' e' (List.mem_cons_of_mem e he')

/-- A reflexive and transitive relation that every step from a state in `I`
respects holds between the ends of the run. -/
theorem Along.relation {R : σ → σ → Prop}
    (h : Along step ok s events) (hs : I s) (hrefl : ∀ s, R s s)
    (htrans : ∀ s₁ s₂ s₃, R s₁ s₂ → R s₂ s₃ → R s₁ s₃)
    (hstep : ∀ s e, I s → ok s e → I (step s e) ∧ R s (step s e)) :
    R s (runFrom step s events) := by
  induction events generalizing s with
  | nil => exact hrefl s
  | cons e events ih =>
    have hone := hstep s e hs h.1
    exact htrans _ _ _ hone.2 (ih h.2 hone.1)

end

end RustDb.Lib
