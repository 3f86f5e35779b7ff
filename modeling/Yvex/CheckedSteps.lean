import Mathlib.Tactic

/-!
# Checked steps

A function that refuses at its first failing check. The lemmas turn its success
into the conjunction of what each step found.
-/

set_option autoImplicit false

namespace Yvex.CheckedSteps

variable {ε α β : Type}

/-- A sequence succeeds when both of its steps do. -/
theorem bind_ok {f : Except ε α} {next : α → Except ε β} {r : β} :
    (f >>= next) = .ok r ↔ ∃ v, f = .ok v ∧ next v = .ok r := by
  cases f <;> simp [bind, Except.bind]

theorem andThen_ok {f : Except ε Unit} {next : Unit → Except ε β} {r : β} :
    (f >>= next) = .ok r ↔ f = .ok () ∧ next () = .ok r :=
  bind_ok.trans Unique.exists_iff

theorem pure_ok {v r : α} : (pure v : Except ε α) = .ok r ↔ r = v := by
  constructor
  · intro he
    cases he
    rfl
  · rintro rfl
    rfl

def ensure (condition : Prop) [Decidable condition] (error : ε) : Except ε Unit :=
  if condition then .ok () else .error error

theorem ensure_ok {condition : Prop} [Decidable condition] {e : ε} {done : Unit} :
    ensure condition e = .ok done ↔ condition := by
  unfold ensure
  split_ifs with hh <;> simp [hh]

def demand (error : ε) : Option α → Except ε α
  | some value => .ok value
  | none => .error error

theorem demand_ok {e : ε} {r : Option α} {v : α} : demand e r = .ok v ↔ r = some v := by
  cases r with
  | none => simp [demand]
  | some => simp [demand]

end Yvex.CheckedSteps
