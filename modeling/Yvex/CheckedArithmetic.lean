import Mathlib.Tactic

/-!
# Checked machine arithmetic

Counters are natural numbers; a checked operation refuses exactly when the
machine word would overflow. Every accepted result is therefore the exact
sum or product, and no theorem about a counter has to reason modulo a word.
-/

set_option autoImplicit false

namespace Yvex.CheckedArithmetic

def wordLimit : ℕ := 2^64

def uint32Max : ℕ := 2 ^ 32 - 1

def llongMax : ℕ := 2 ^ 63 - 1

def ullongMax : ℕ := wordLimit - 1

def sizeMax : ℕ := wordLimit - 1

def u64Add (a b : ℕ) : Option ℕ :=
  if a + b < wordLimit then some (a + b) else none

def u64Mul (a b : ℕ) : Option ℕ :=
  if a * b < wordLimit then some (a * b) else none

/-- A checked sum is the sum, unless a word cannot hold it. -/
@[simp] theorem u64Add_eq_some (a b c : ℕ) :
    u64Add a b = some c ↔ a + b < wordLimit ∧ c = a + b := by
  unfold u64Add
  split_ifs with h
  · simp [h, eq_comm]
  · simp [h]

@[simp] theorem u64Mul_eq_some (a b c : ℕ) :
    u64Mul a b = some c ↔ a * b < wordLimit ∧ c = a * b := by
  unfold u64Mul
  split_ifs with h
  · simp [h, eq_comm]
  · simp [h]

end Yvex.CheckedArithmetic
