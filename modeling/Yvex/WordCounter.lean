import Yvex.CheckedArithmetic
import Mathlib.Data.Nat.ModEq

/-!
# Counters in a machine word

Unchecked addition and subtraction wrap. A counter that names things skips zero
when it wraps, so it repeats a value only after all the others.
-/

set_option autoImplicit false

namespace Yvex.WordCounter

open CheckedArithmetic Nat

def wordAdd (a b : ℕ) : ℕ := (a + b) % wordLimit

def wordSub (a b : ℕ) : ℕ := (a + (wordLimit - b % wordLimit)) % wordLimit

theorem wordAdd_eq {a b : ℕ} (h : a + b < wordLimit) : wordAdd a b = a + b := mod_eq_of_lt h

theorem wordSub_eq {a b : ℕ} (le : b ≤ a) (h : a < wordLimit) : wordSub a b = a - b := by
  have hsm : b % wordLimit = b := mod_eq_of_lt (by omega)
  have hs : a + (wordLimit - b) = (a - b) + wordLimit := by omega
  rw [wordSub, hsm, hs, add_mod_right, mod_eq_of_lt (by omega)]

def generationAfter (generation : ℕ) : ℕ :=
  -- The next name: the counter is incremented once more if it has wrapped to zero.
  if wordAdd generation 1 = 0 then wordAdd (wordAdd generation 1) 1 else wordAdd generation 1

theorem generationAfter_ne_zero (g : ℕ) : generationAfter g ≠ 0 := by
  unfold generationAfter
  split_ifs with hw
  · rw [hw]
    decide
  · exact hw

def generationAt : ℕ → ℕ
  | 0 => 0
  | n + 1 => n % (wordLimit - 1) + 1

theorem generationAt_succ_ne_zero (n : ℕ) : generationAt (n + 1) ≠ 0 := succ_ne_zero _

theorem generationAfter_generationAt (n : ℕ) :
    generationAfter (generationAt n) = generationAt (n + 1) := by
  have limit : 2 < wordLimit := by decide
  cases n with
  | zero =>
    have h1 : wordAdd 0 1 = 1 := wordAdd_eq (by omega)
    simp [generationAt, generationAfter, h1]
  | succ n =>
    have hb : n % (wordLimit - 1) < wordLimit - 1 := mod_lt _ (by omega)
    have next := add_mod n 1 (wordLimit - 1)
    rw [mod_eq_of_lt (show 1 < wordLimit - 1 by omega)] at next
    simp only [generationAt]
    by_cases l : n % (wordLimit - 1) + 1 = wordLimit - 1
    · have hw : wordAdd (n % (wordLimit - 1) + 1) 1 = 0 := by
        rw [wordAdd, l, show wordLimit - 1 + 1 = wordLimit by omega, mod_self]
      rw [l, mod_self] at next
      rw [generationAfter, if_pos hw, hw, next]
      exact wordAdd_eq (by omega)
    · have hs : wordAdd (n % (wordLimit - 1) + 1) 1 = n % (wordLimit - 1) + 1 + 1 :=
        wordAdd_eq (by omega)
      have hin : (n % (wordLimit - 1) + 1) % (wordLimit - 1) = n % (wordLimit - 1) + 1 :=
        mod_eq_of_lt (by omega)
      rw [generationAfter, if_neg (by omega), hs, next, hin]

/-- Names come back only after the whole cycle of the counter. -/
theorem generationAt_ne {n m : ℕ} (hp : 0 < n) (hl : n < m)
    (near : m < n + (wordLimit - 1)) : generationAt n ≠ generationAt m := by
  obtain ⟨k, rfl⟩ : ∃ k, n = k + 1 := ⟨n - 1, by omega⟩
  obtain ⟨d, rfl⟩ : ∃ d, m = k + d + 1 := ⟨m - k - 1, by omega⟩
  intro hs
  simp only [generationAt, add_right_cancel_iff] at hs
  have hc : d ≡ 0 [MOD wordLimit - 1] := by
    have hsh : k + 0 ≡ k + d [MOD wordLimit - 1] := hs
    exact (Nat.ModEq.add_left_cancel' k hsh).symm
  have zero := hc.trans rfl
  rw [Nat.ModEq, zero_mod, mod_eq_of_lt (by omega)] at zero
  omega

/-- Before the first wrap the counter is the number of names. -/
theorem generationAt_of_lt {n : ℕ} (hsm : n < wordLimit) : generationAt n = n := by
  cases n with
  | zero => rfl
  | succ n => rw [generationAt, mod_eq_of_lt (by omega)]

theorem generationAfter_eq {n : ℕ} (hsm : n + 1 < wordLimit) : generationAfter n = n + 1 := by
  have next := generationAfter_generationAt n
  rwa [generationAt_of_lt (by omega), generationAt_of_lt hsm] at next

/-- The first name comes back after the last one. -/
theorem generationAt_wrap : generationAt (wordLimit - 1 + 1) = generationAt 1 := by
  simp only [generationAt, mod_self, zero_mod]

end Yvex.WordCounter
