import Mathlib.Algebra.BigOperators.Fin
import Mathlib.Algebra.Order.BigOperators.Group.Finset
import Mathlib.Tactic

/-!
# Tables of slots

A table has a fixed number of slots, and a running counter is right when it is
the sum of a weight over them. Replacing one slot moves such a sum by exactly
the difference of the two weights.
-/

set_option autoImplicit false

namespace Yvex.SlotTable

open Finset

open scoped BigOperators

variable {α : Type}

def total (weight : α → ℕ) (slots : ℕ → α) (capacity : ℕ) : ℕ :=
  ∑ i ∈ Finset.range capacity, weight (slots i)

def tally (p : α → Bool) (slots : ℕ → α) (capacity : ℕ) : ℕ :=
  total (fun x => (p x).toNat) slots capacity

variable {c i : ℕ}

/-- What a slot holds after one was replaced. -/
theorem update_iff {ss : ℕ → α} {j : ℕ} {x y : α} :
    Function.update ss i x j = y ↔ j = i ∧ x = y ∨ j ≠ i ∧ ss j = y := by
  simp only [Function.update_apply, ite_eq_iff, ne_eq]

/-- A total moves by the difference of the slot that changes. -/
theorem total_update (w : α → ℕ) (ss : ℕ → α) (hb : i < c) (x : α) :
    total w (Function.update ss i x) c + w (ss i) = total w ss c + w x := by
  have hm : i ∈ range c := mem_range.mpr hb
  have r : ∑ j ∈ (range c).erase i, w (Function.update ss i x j) =
      ∑ j ∈ (range c).erase i, w (ss j) := by
    apply sum_congr rfl
    intro j hj
    rw [Function.update_of_ne (ne_of_mem_erase hj)]
  have b := add_sum_erase (range c) (fun j => w (ss j)) hm
  have a := add_sum_erase (range c) (fun j => w (Function.update ss i x j)) hm
  simp only [Function.update_self] at a
  unfold total
  omega

theorem tally_update (p : α → Bool) (ss : ℕ → α) (hb : i < c) (x : α) :
    tally p (Function.update ss i x) c + (p (ss i)).toNat = tally p ss c + (p x).toNat :=
  total_update (fun x => (p x).toNat) ss hb x

theorem weight_le_total (w : α → ℕ) (ss : ℕ → α) (hb : i < c) : w (ss i) ≤ total w ss c :=
  single_le_sum (fun j _ => Nat.zero_le (w (ss j))) (mem_range.mpr hb)

variable {p : α → Bool} {ss : ℕ → α}

theorem tally_pos (hb : i < c) (hh : p (ss i) = true) : 0 < tally p ss c := by
  have w := weight_le_total (fun x => (p x).toNat) ss hb
  rw [hh] at w
  exact w

theorem total_eq_zero {w : α → ℕ} (none : ∀ i, i < c → w (ss i) = 0) : total w ss c = 0 :=
  sum_eq_zero fun i hm => none i (mem_range.mp hm)

theorem tally_eq_zero (none : ∀ i, i < c → p (ss i) = false) : tally p ss c = 0 :=
  total_eq_zero fun i hb => by rw [none i hb]; rfl

theorem tally_le_capacity (p : α → Bool) (ss : ℕ → α) (c : ℕ) : tally p ss c ≤ c := by
  have each : ∀ i ∈ range c, (p (ss i)).toNat ≤ 1 := fun i _ => Bool.toNat_le (p (ss i))
  calc
    tally p ss c ≤ ∑ _i ∈ range c, 1 := sum_le_sum each
    _ = c := by simp

theorem total_congr {w w' : α → ℕ} {ss' : ℕ → α} (hs : ∀ i, i < c → w (ss i) = w' (ss' i)) :
    total w ss c = total w' ss' c :=
  sum_congr rfl fun i hm => hs i (mem_range.mp hm)

def firstWhere (p : α → Bool) (slots : ℕ → α) (capacity : ℕ) : Option ℕ :=
  (List.range capacity).find? fun i => p (slots i)

theorem firstWhere_some (h : firstWhere p ss c = some i) : i < c ∧ p (ss i) = true :=
  ⟨List.mem_range.mp (List.mem_of_find?_eq_some h), by simpa using List.find?_some h⟩

end Yvex.SlotTable
