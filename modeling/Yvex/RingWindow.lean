import Mathlib.Tactic

/-!
# A sliding window over a doubled ring buffer

A window of at most `cap` items lives in `2 * cap` cells: every item is stored
at its slot and again at `slot + cap`, so the newest items are always one
contiguous span that starts at `start`. Pushing onto a full ring overwrites the
oldest slot. The window law says that the span holds the newest items.
-/

set_option autoImplicit false

namespace Yvex.RingWindow

open Ring Nat List

variable {β : Type}

structure Ring (β : Type) where
  start : ℕ
  count : ℕ
  cells : ℕ → β

def store (cap slot : ℕ) (x : β) (cells : ℕ → β) : ℕ → β :=
  fun i => if i = slot ∨ i = slot + cap then x else cells i

def Ring.push (cap : ℕ) (ring : Ring β) (x : β) : Ring β :=
  if ring.count = cap then
    { start := (ring.start + 1) % cap
      count := ring.count
      cells := store cap (((ring.start + 1) % cap + cap - 1) % cap) x ring.cells }
  else
    { start := ring.start
      count := ring.count + 1
      cells := store cap ((ring.start + ring.count) % cap) x ring.cells }

def Ring.pushAll (cap : ℕ) (ring : Ring β) (xs : List β) : Ring β :=
  xs.foldl (Ring.push cap) ring

def Ring.window (ring : Ring β) : List β :=
  (List.range ring.count).map fun k => ring.cells (ring.start + k)

def newest (n : ℕ) (xs : List β) : List β := xs.drop (xs.length - n)

structure Ring.Mirrored (cap : ℕ) (ring : Ring β) : Prop where
  start_lt : ring.start < cap
  count_le : ring.count ≤ cap
  twin : ∀ k < ring.count,
    ring.cells ((ring.start + k) % cap + cap) = ring.cells ((ring.start + k) % cap)

theorem newest_of_length_le {n : ℕ} {xs : List β} (h : xs.length ≤ n) : newest n xs = xs := by
  simp [newest, Nat.sub_eq_zero_of_le h]

theorem length_newest (n : ℕ) (xs : List β) : (newest n xs).length = min n xs.length := by
  simp only [newest, length_drop]
  omega

theorem newest_newest_append (n : ℕ) (xs ys : List β) :
    newest n (newest n xs ++ ys) = newest n (xs ++ ys) := by
  rcases le_total xs.length n with h | h
  · rw [newest_of_length_le h]
  simp only [newest, length_append, length_drop, drop_append, drop_drop]
  congr 1
  · congr 1
    omega
  · congr 1
    omega

theorem wrap_slot {cap s : ℕ} (h : s < cap) : ((s + 1) % cap + cap - 1) % cap = s := by
  rcases lt_or_ge (s + 1) cap with h1 | h1
  · rw [mod_eq_of_lt h1, show s + 1 + cap - 1 = s + cap by omega, add_mod_right, mod_eq_of_lt h]
  · rw [show s + 1 = cap by omega, mod_self, zero_add]
    rw [show cap - 1 = s by omega, mod_eq_of_lt h]

theorem slot_ne (cap a d : ℕ) (hd : 0 < d) (hdc : d < cap) : (a + d) % cap ≠ a % cap := by
  intro h
  have hm : (a + d) ≡ (a + 0) [MOD cap] := by simpa [Nat.ModEq] using h
  have hz : d ≡ 0 [MOD cap] := Nat.ModEq.add_left_cancel' a hm
  rw [Nat.ModEq, mod_eq_of_lt hdc, zero_mod] at hz
  omega

theorem store_at_slot (cap s : ℕ) (x : β) (c : ℕ → β) : store cap s x c s = x := by
  simp [store]

theorem store_at_twin (cap s : ℕ) (x : β) (c : ℕ → β) : store cap s x c (s + cap) = x := by
  simp [store]

theorem store_other {cap s i : ℕ} {x : β} {c : ℕ → β} (h1 : i ≠ s)
    (h2 : i ≠ s + cap) : store cap s x c i = c i := by
  simp [store, h1, h2]

variable {cap : ℕ} {r : Ring β}

/-- A push writes at the slot after the newest item, whether or not it also
drops the oldest one. -/
theorem Ring.push_cells (h : r.start < cap) (x : β) :
    (r.push cap x).cells = store cap ((r.start + r.count) % cap) x r.cells := by
  unfold push
  split_ifs with hc
  · simp only [wrap_slot h, hc, add_mod_right, mod_eq_of_lt h]
  · rfl

theorem Ring.push_start (cap : ℕ) (r : Ring β) (x : β) :
    (r.push cap x).start = if r.count = cap then (r.start + 1) % cap else r.start := by
  unfold push
  split_ifs <;> rfl

theorem Ring.push_count (cap : ℕ) (r : Ring β) (x : β) :
    (r.push cap x).count = if r.count = cap then r.count else r.count + 1 := by
  unfold push
  split_ifs <;> rfl

theorem Ring.push_start_lt (h : r.start < cap) (x : β) : (r.push cap x).start < cap := by
  rw [push_start]
  split_ifs
  · exact mod_lt _ (by omega)
  · exact h

theorem Ring.push_count_le (h : r.count ≤ cap) (x : β) : (r.push cap x).count ≤ cap := by
  rw [push_count]
  split_ifs <;> omega

/-- The slot of the `k`-th visible item never is the slot a push writes, except
for the oldest item of a full ring. -/
theorem Ring.visible_slot_ne (cap m s k : ℕ) (hk : k < m)
    (hc : m < cap + k) : (s + k) % cap ≠ (s + m) % cap := by
  have h := slot_ne cap (s + k) (m - k) (by omega) (by omega)
  rw [show s + k + (m - k) = s + m by omega] at h
  exact fun he => h he.symm

/-- A push keeps both copies of the window equal. -/
theorem Ring.Mirrored.push (h : r.Mirrored cap) (x : β) : (r.push cap x).Mirrored cap := by
  obtain ⟨hs, hc, ht⟩ := h
  refine ⟨push_start_lt hs x, push_count_le hc x, fun k hk => ?_⟩
  rw [push_cells hs]
  rw [push_count] at hk
  -- The item `k` of the new window is item `k + 1` of the old one when the ring was full.
  obtain ⟨j, hj, hsl⟩ : ∃ j, j ≤ r.count ∧ ((r.push cap x).start + k) % cap =
      (r.start + j) % cap ∧ (j < r.count → 0 < j ∨ r.count < cap) := by
    rw [push_start]
    split_ifs at hk ⊢ with hf
    · exact ⟨k + 1, by omega, by rw [mod_add_mod]; congr 1; omega, by omega⟩
    · exact ⟨k, by omega, rfl, by omega⟩
  rw [hsl.1]
  rcases lt_or_ge j r.count with hlt | hge
  · have hne := visible_slot_ne cap r.count r.start j hlt (by have := hsl.2 hlt; omega)
    have hb : (r.start + j) % cap < cap := mod_lt _ (by omega)
    have hb' : (r.start + r.count) % cap < cap := mod_lt _ (by omega)
    have hht : (r.start + j) % cap + cap ≠ (r.start + r.count) % cap + cap := by omega
    have hh : (r.start + j) % cap + cap ≠ (r.start + r.count) % cap := by omega
    have hfar : (r.start + j) % cap ≠ (r.start + r.count) % cap + cap := by omega
    rw [store_other hh hht, store_other hne hfar, ht j hlt]
  · rw [show j = r.count by omega, store_at_twin, store_at_slot]

theorem Ring.Mirrored.pushAll (h : r.Mirrored cap) (xs : List β) :
    (r.pushAll cap xs).Mirrored cap := by
  induction xs generalizing r with
  | nil => exact h
  | cons x xs ih => exact ih (h.push x)

theorem Ring.Mirrored.cells_span (h : r.Mirrored cap) {k : ℕ} (hk : k < r.count) :
    r.cells (r.start + k) = r.cells ((r.start + k) % cap) := by
  have hs := h.start_lt
  have hc := h.count_le
  rcases lt_or_ge (r.start + k) cap with hlt | hge
  · rw [mod_eq_of_lt hlt]
  have hm : (r.start + k) % cap = r.start + k - cap := by
    rw [mod_eq_sub_mod hge, mod_eq_of_lt (by omega)]
  have := h.twin k hk
  rw [hm] at this ⊢
  rw [← this, Nat.sub_add_cancel hge]

theorem Ring.length_window (r : Ring β) : r.window.length = r.count := by
  simp [window]

theorem Ring.Mirrored.getElem_push (h : r.Mirrored cap) (x : β) {k : ℕ}
    (hk : k < (r.push cap x).count) :
    (r.window ++ [x])[k + (r.count + 1 - cap)]? =
      some ((r.push cap x).cells ((r.push cap x).start + k)) := by
  have hs := h.start_lt
  have hc := h.count_le
  rw [(h.push x).cells_span hk, push_cells hs]
  rw [push_count] at hk
  obtain ⟨j, hj, hsl⟩ : ∃ j, j = k + (r.count + 1 - cap) ∧
      ((r.push cap x).start + k) % cap = (r.start + j) % cap := by
    rw [push_start]
    split_ifs at hk ⊢ with hf
    · exact ⟨k + 1, by omega, by rw [mod_add_mod]; congr 1; omega⟩
    · exact ⟨k, by omega, rfl⟩
  rw [hsl, ← hj]
  have hjle : j ≤ r.count := by split_ifs at hk <;> omega
  rcases lt_or_ge j r.count with hlt | hge
  · have hne := visible_slot_ne cap r.count r.start j hlt (by split_ifs at hk <;> omega)
    have hb : (r.start + j) % cap < cap := mod_lt _ (by omega)
    have hfar : (r.start + j) % cap ≠ (r.start + r.count) % cap + cap := by omega
    rw [store_other hne hfar, ← h.cells_span hlt, getElem?_append_left (by rwa [length_window])]
    simp [window, hlt]
  · rw [show j = r.count by omega, store_at_slot]
    simp [window]

theorem Ring.Mirrored.window_push (h : r.Mirrored cap) (x : β) :
    (r.push cap x).window = newest cap (r.window ++ [x]) := by
  have hc := h.count_le
  have hco : (r.push cap x).count = min cap (r.count + 1) := by
    rw [push_count]
    split_ifs <;> omega
  apply ext_getElem?
  intro k
  rw [newest, getElem?_drop, length_append, length_window, length_singleton]
  rcases lt_or_ge k (r.push cap x).count with hk | hk
  · rw [add_comm, h.getElem_push x hk]
    simp [window, hk]
  · rw [getElem?_eq_none (by rwa [length_window]), getElem?_eq_none]
    simp only [length_append, length_window, length_singleton]
    omega

/-- The window law: after any batch the span holds the newest `cap` of the old
items followed by the batch. -/
theorem Ring.Mirrored.window_pushAll (h : r.Mirrored cap) (xs : List β) :
    (r.pushAll cap xs).window = newest cap (r.window ++ xs) := by
  induction xs generalizing r with
  | nil =>
    rw [append_nil, newest_of_length_le]
    · rfl
    · rw [length_window]
      exact h.count_le
  | cons x xs ih =>
    show ((r.push cap x).pushAll cap xs).window = _
    rw [ih (h.push x), h.window_push, newest_newest_append, append_assoc]
    rfl

end Yvex.RingWindow
