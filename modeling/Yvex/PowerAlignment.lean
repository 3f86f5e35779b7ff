import Yvex.CheckedArithmetic

/-!
# Alignment to a power of two

Rounding a machine word up by masking. The alignment has to be a power of two, and
the sum must fit the word; the result is then the least multiple not below the value.
-/

set_option autoImplicit false

namespace Yvex.PowerAlignment

open CheckedArithmetic Nat

def alignUp (value alignment : ℕ) : Option ℕ :=
  if alignment = 0 ∨ alignment &&& (alignment - 1) ≠ 0 then none
  else (u64Add value (alignment - 1)).map fun sum => sum &&& (wordLimit - 1 - (alignment - 1))

theorem mask_complement {v p : ℕ} (hsm : v < 2 ^ 64) (hf : p ≤ 64) :
    v &&& (2 ^ 64 - 1 - (2 ^ p - 1)) = v / 2 ^ p * 2 ^ p := by
  have hb : 2 ^ p ≤ 2 ^ 64 := Nat.pow_le_pow_right (by decide) hf
  have hr : 2 ^ 64 - 1 - (2 ^ p - 1) = 2 ^ 64 - ((2 ^ p - 1) + 1) := by omega
  apply eq_of_testBit_eq
  intro i
  rw [hr, testBit_and, testBit_two_pow_sub_succ (by omega),
    testBit_two_pow_sub_one, testBit_mul_two_pow, testBit_div_two_pow]
  by_cases low : i < p
  · simp [low]
  have hh : v.testBit i = true → i < 64 := fun set =>
    (Nat.pow_lt_pow_iff_right (by decide)).mp ((ge_two_pow_of_testBit set).trans_lt hsm)
  have hs : i - p + p = i := by omega
  have hrc : p ≤ i := not_lt.mp low
  cases bit : v.testBit i with
  | false => simp [hs, bit]
  | true => simp [hs, bit, low, hrc, hh bit]

theorem power_fits {v p : ℕ} (hb : v + (2 ^ p - 1) < wordLimit) : p ≤ 64 := by
  by_contra beyond
  have large : 2 ^ 65 ≤ 2 ^ p := Nat.pow_le_pow_right (by decide) (by omega)
  unfold wordLimit at hb
  omega

/-- The aligned value is the least multiple that is not below the value. -/
theorem alignUp_least {v a r : ℕ} (h : alignUp v a = some r) :
    v ≤ r ∧ r < v + a ∧ a ∣ r ∧ r < wordLimit := by
  unfold alignUp at h
  split_ifs at h with ho
  push Not at ho
  obtain ⟨p, rfl⟩ := ne_zero_and_sub_one_eq_zero_iff_isPowerOfTwo.mp ho
  obtain ⟨sum, hf, rfl⟩ := Option.map_eq_some_iff.mp h
  obtain ⟨hb, rfl⟩ := (u64Add_eq_some _ _ _).mp hf
  have hm := mask_complement hb (power_fits hb)
  have pa := div_add_mod' (v + (2 ^ p - 1)) (2 ^ p)
  have hp := mod_lt (v + (2 ^ p - 1)) (show 0 < 2 ^ p by positivity)
  rw [show wordLimit = 2 ^ 64 from rfl, hm]
  exact ⟨by omega, by omega, Dvd.intro_left _ rfl, by unfold wordLimit at hb; omega⟩

end Yvex.PowerAlignment
