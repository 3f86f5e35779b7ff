import Mathlib.Tactic

/-!
# Runs of a step function

A system that takes one event at a time. What one event preserves, a whole run
preserves; where an event is only safe in some states, the run has to meet the
condition at each of its events.
-/

set_option autoImplicit false

namespace Yvex.Runs

variable {σ ι : Type} {step : σ → ι → σ}

@[simp] def run (step : σ → ι → σ) : σ → List ι → σ
  | s, [] => s
  | s, event :: rest => run step (step s event) rest

def Along (step : σ → ι → σ) (ok : σ → ι → Prop) : σ → List ι → Prop
  | _, [] => True
  | s, event :: rest => ok s event ∧ Along step ok (step s event) rest

theorem run_append (s : σ) (f rest : List ι) :
    run step s (f ++ rest) = run step (run step s f) rest := by
  induction f generalizing s with
  | nil => rfl
  | cons e r ih => exact ih (step s e)

variable {P : σ → Prop}

theorem run_invariant_mem {s : σ} {ev : List ι} (hp : ∀ s, ∀ e ∈ ev, P s → P (step s e))
    (st : P s) : P (run step s ev) := by
  induction ev generalizing s with
  | nil => exact st
  | cons e r ih =>
    exact ih (fun s e hm => hp s e (List.mem_cons_of_mem _ hm)) (hp s e List.mem_cons_self st)

theorem run_invariant (hp : ∀ s e, P s → P (step s e)) {s : σ}
    (st : P s) (ev : List ι) : P (run step s ev) := run_invariant_mem (fun s e _ => hp s e) st

/-- What each admissible event keeps holds after every run of such events. -/
theorem run_invariant_along {ok : σ → ι → Prop}
    (hp : ∀ s e, P s → ok s e → P (step s e)) {s : σ} (st : P s)
    {ev : List ι} (ha : Along step ok s ev) : P (run step s ev) := by
  induction ev generalizing s with
  | nil => exact st
  | cons e r ih => exact ih (hp s e st ha.1) ha.2

end Yvex.Runs
