import Mathlib.Tactic

/-!
# Slots with a numeric key

A table of slots, each free when its key is zero. The loops over it look for the
first free slot, or for an admitted slot whose key is least; the second kind
starts from a limit and never sees keys that reach it.
-/

set_option autoImplicit false

namespace Yvex.KeyedSlots

open List

variable {α : Type} {ss : List α}

section Scanning

def scan (admits : α → Bool) (key : α → ℕ) : ℕ → ℕ → Option ℕ → List α → Option ℕ
  | _, _, found, [] => found
  | index, bound, found, slot :: rest =>
    if admits slot = true ∧ key slot < bound then
      scan admits key (index + 1) (key slot) (some index) rest
    else scan admits key (index + 1) bound found rest

def leastSlot (admits : α → Bool) (key : α → ℕ) (limit : ℕ) (slots : List α) : Option ℕ :=
  scan admits key 0 limit none slots

variable {a : α → Bool} {key : α → ℕ}

/-- The loop over the slots from `index` on: what was found before stays unless a
lower key turns up. -/
theorem scan_eq (ss : List α) (ix best : ℕ) (found : Option ℕ) :
    (scan a key ix best found ss = found ∧ ∀ s ∈ ss, a s = true → best ≤ key s) ∨
    ∃ p s, scan a key ix best found ss = some (ix + p) ∧ ss[p]? = some s ∧ a s = true ∧
      key s < best ∧ ∀ o ∈ ss, a o = true → key s ≤ key o := by
  induction ss generalizing ix best found with
  | nil => exact .inl ⟨rfl, by simp⟩
  | cons f r ih =>
    by_cases hfi : a f = true ∧ key f < best
    · right
      rw [scan, if_pos hfi]
      rcases ih (ix + 1) (key f) (some ix) with ⟨hk, ha⟩ | hl
      · refine ⟨0, f, hk, rfl, hfi.1, hfi.2, ?_⟩
        exact forall_mem_cons.mpr ⟨fun _ => le_rfl, ha⟩
      obtain ⟨p, s, hsc, hs, had, hke, ha⟩ := hl
      refine ⟨p + 1, s, ?_, hs, had, lt_trans hke hfi.2, ?_⟩
      · rw [hsc, Nat.add_assoc, Nat.add_comm 1]
      · exact forall_mem_cons.mpr ⟨fun _ => le_of_lt hke, ha⟩
    · rw [scan, if_neg hfi]
      have hh : a f = true → best ≤ key f := by
        intro had
        by_contra hless
        exact hfi ⟨had, by omega⟩
      rcases ih (ix + 1) best found with ⟨hk, ha⟩ | hl
      · exact .inl ⟨hk, forall_mem_cons.mpr ⟨hh, ha⟩⟩
      obtain ⟨p, s, hsc, hs, had, hke, ha⟩ := hl
      right
      refine ⟨p + 1, s, ?_, hs, had, hke, ?_⟩
      · rw [hsc, Nat.add_assoc, Nat.add_comm 1]
      · exact forall_mem_cons.mpr ⟨fun h => le_trans (le_of_lt hke) (hh h), ha⟩

/-- The slot found has the least key of those that are admitted. -/
theorem leastSlot_some {m p : ℕ} (h : leastSlot a key m ss = some p) :
    ∃ s, ss[p]? = some s ∧ a s = true ∧ key s < m ∧ ∀ o ∈ ss, a o = true → key s ≤ key o := by
  rcases scan_eq ss 0 m none with ⟨hn, _⟩ | ⟨f, s, hs, hr⟩
  · rw [leastSlot, hn] at h
    cases h
  · rw [leastSlot, hs, Nat.zero_add] at h
    cases h
    exact ⟨s, hr⟩

theorem leastSlot_none {m : ℕ} (h : leastSlot a key m ss = none) :
    ∀ s ∈ ss, a s = true → m ≤ key s := by
  rcases scan_eq ss 0 m none with ⟨_, ha⟩ | ⟨f, s, hs, _⟩
  · exact ha
  · rw [leastSlot, hs] at h
    cases h

end Scanning

section Occupancy

variable (key : α → ℕ)

def occupied (slots : List α) : ℕ := slots.countP fun slot => key slot != 0

def Distinct (slots : List α) : Prop :=
  ∀ (i j : ℕ) (first second : α), slots[i]? = some first → slots[j]? = some second →
    key first = key second → key first ≠ 0 → i = j

theorem occupied_le (ss : List α) : occupied key ss ≤ ss.length := countP_le_length

variable {i : ℕ} {e : α}

theorem occupied_set_free {s : α} (hs : ss[i]? = some s) (hf : key s = 0)
    (he : key e ≠ 0) : occupied key (ss.set i e) = occupied key ss + 1 := by
  obtain ⟨hi, hget⟩ := List.getElem?_eq_some_iff.mp hs
  simp [occupied, countP_set, hi, hget, hf, he]

theorem occupied_set_used {s : α} (hs : ss[i]? = some s) (hu : key s ≠ 0)
    (he : key e ≠ 0) : occupied key (ss.set i e) = occupied key ss := by
  obtain ⟨hi, hget⟩ := List.getElem?_eq_some_iff.mp hs
  have hp : 0 < occupied key ss := by
    rw [occupied, countP_pos_iff]
    exact ⟨s, mem_of_getElem? hs, by simpa using hu⟩
  simp only [occupied] at hp ⊢
  simp [countP_set, hi, hget, hu, he]
  omega

theorem all_occupied (h : occupied key ss = ss.length) : ∀ s ∈ ss, key s ≠ 0 := by
  intro s hs
  have ha := countP_eq_length.mp h s hs
  simpa using ha

theorem Distinct.set {key : α → ℕ} (h : Distinct key ss)
    (hn : ∀ slot ∈ ss, key slot ≠ key e) : Distinct key (ss.set i e) := by
  intro j k f s hf hs hsa hne
  rw [getElem?_set] at hf hs
  split_ifs at hf hs with hj hij hk hik hk
  · omega
  · cases hf
    exact absurd hsa.symm (hn s (mem_of_getElem? hs))
  · cases hs
    exact absurd hsa (hn f (mem_of_getElem? hf))
  · exact h j k f s hf hs hsa hne

end Occupancy

end Yvex.KeyedSlots
