import Mathlib.Tactic

/-!
# Steps that may refuse part way

A refused step still returns the state it reached: earlier effects of a loop
stay in place when a later iteration is refused. The rules below carry an
invariant or a relation through such a loop without asking whether it ran to
its end, and recover every iteration from a loop that did.
-/

set_option autoImplicit false

namespace Yvex.RefusableStep

inductive Outcome (ε σ : Type) where
  | done (state : σ)
  | refused (error : ε) (state : σ)

namespace Outcome

variable {ε ε' σ τ : Type}

@[simp] def state : Outcome ε σ → σ
  | done s => s
  | refused _ s => s

@[simp] def succeeded : Outcome ε σ → Bool
  | done _ => true
  | refused _ _ => false

@[simp] def map (f : σ → τ) : Outcome ε σ → Outcome ε τ
  | done s => done (f s)
  | refused e s => refused e (f s)

def mapError (f : ε → ε') : Outcome ε σ → Outcome ε' σ
  | done s => done s
  | refused e s => refused (f e) s

@[simp] def andThen (o : Outcome ε σ) (f : σ → Outcome ε σ) : Outcome ε σ :=
  match o with
  | done s => f s
  | refused e s => refused e s

@[simp] theorem state_map (f : σ → τ) (o : Outcome ε σ) : (o.map f).state = f o.state := by
  cases o <;> rfl

@[simp] theorem state_mapError (f : ε → ε') (o : Outcome ε σ) : (o.mapError f).state = o.state := by
  cases o <;> rfl

@[simp] theorem andThen_self (o : Outcome ε σ) : o.andThen done = o := by cases o <;> rfl

variable {o : Outcome ε σ} {f : σ → Outcome ε σ}

theorem andThen_succeeded :
    (o.andThen f).succeeded = true ↔ o.succeeded = true ∧ (f o.state).succeeded = true := by
  cases o <;> simp

theorem andThen_state_of_succeeded (f : σ → Outcome ε σ) (h : o.succeeded = true) :
    (o.andThen f).state = (f o.state).state := by
  cases o with
  | done => rfl
  | refused => simp at h

theorem andThen_preserves {P : σ → Prop} (ho : P o.state) (hf : ∀ t, P t → P (f t).state) :
    P (o.andThen f).state := by
  cases o with
  | done t => exact hf t ho
  | refused => exact ho

def Ensures (o : Outcome ε σ) (good bad : σ → Prop) : Prop :=
  match o with
  | done s => good s
  | refused _ s => bad s

theorem Ensures.of_done {g bad : σ → Prop} {s : σ} (h : o.Ensures g bad)
    (run : o = done s) : g s := by
  subst run
  exact h

theorem Ensures.of_refused {g bad : σ → Prop} {e : ε} {s : σ} (h : o.Ensures g bad)
    (run : o = refused e s) : bad s := by
  subst run
  exact h

theorem Ensures.andThen {mid g bad : σ → Prop} (h1 : o.Ensures mid bad)
    (next : ∀ s, mid s → (f s).Ensures g bad) :
    (o.andThen f).Ensures g bad := by
  cases o with
  | done s => exact next s h1
  | refused => exact h1

theorem Ensures.imp {g good bad bad' : σ → Prop} (h1 : o.Ensures g bad)
    (left : ∀ s, g s → good s) (right : ∀ s, bad s → bad' s) :
    o.Ensures good bad' := by
  cases o with
  | done s => exact left s h1
  | refused e s => exact right s h1

def check (answer : Option ε) (s : σ) : Outcome ε σ :=
  match answer with
  | none => done s
  | some e => refused e s

/-- A check hands on what holds, when that is enough for a refusal. -/
theorem Ensures.check {a : Option ε} {s : σ} {g bad : σ → Prop} (hr : bad s)
    (next : (f s).Ensures g bad) :
    ((Outcome.check a s).andThen f).Ensures g bad := by
  cases a with
  | none => exact next
  | some => exact hr

end Outcome

section Loop

variable {ε σ ι : Type}

@[simp] def forEach (f : ι → σ → Outcome ε σ) : List ι → σ → Outcome ε σ
  | [], s => .done s
  | i :: rest, s => (f i s).andThen (forEach f rest)

/-- What every call keeps, the loop keeps, wherever it is refused. -/
theorem forEach_preserves {P : σ → Prop} {f : ι → σ → Outcome ε σ} {it : List ι}
    (hf : ∀ i ∈ it, ∀ s, P s → P (f i s).state) {s : σ} (hs : P s) :
    P (forEach f it s).state := by
  induction it generalizing s with
  | nil => exact hs
  | cons i r ih =>
    refine Outcome.andThen_preserves (hf i (by simp) s hs) fun t ht => ?_
    exact ih (fun j hj => hf j (by simp [hj])) ht

end Loop

end Yvex.RefusableStep
