import Mathlib.Tactic

/-!
# Scanning for a delimiter

A scanner that reads a text element by element keeps the longest end of the
text that begins the delimiter. The delimiter has been read exactly when this
end is the whole delimiter, and the first time is its first occurrence.
-/

set_option autoImplicit false

namespace Yvex.DelimiterScan
open List

variable {α : Type*}

def FirstAt (delimiter text : List α) (place : ℕ) : Prop :=
  delimiter <+: text.drop place ∧ ∀ earlier < place, ¬ delimiter <+: text.drop earlier

def Absent (delimiter text : List α) : Prop := ∀ place, ¬ delimiter <+: text.drop place

variable {d x y : List α} {b : α} {k : ℕ}

theorem prefix_drop_append (h : d <+: (x ++ y).drop k) (hk : k + d.length ≤ x.length) :
    d <+: x.drop k := by
  rw [drop_append_of_le_length (by omega)] at h
  exact prefix_of_prefix_length_le h (prefix_append _ _) (by rw [length_drop]; omega)

/-- What follows a first occurrence does not move it. -/
theorem FirstAt.append (h : FirstAt d x k) (hd : d ≠ []) (y : List α) : FirstAt d (x ++ y) k := by
  have hl := h.1.length_le
  have hpos := length_pos_of_ne_nil hd
  rw [length_drop] at hl
  refine ⟨?_, fun j hj hp => h.2 j hj (prefix_drop_append hp (by omega))⟩
  rw [drop_append_of_le_length (by omega)]
  exact h.1.trans (prefix_append _ _)

theorem FirstAt.unique {j : ℕ} (h : FirstAt d x k) (h' : FirstAt d x j) : k = j := by
  rcases lt_trichotomy k j with hlt | he | hlt
  · exact absurd h.1 (h'.2 k hlt)
  · exact he
  · exact absurd h'.1 (h.2 j hlt)

/-- One more element: the delimiter can only have been completed by it. -/
theorem Absent.suffix (h : Absent d x) (hp : d <+: (x ++ [b]).drop k) : d <:+ x ++ [b] := by
  have hl := hp.length_le
  have hlate : x.length < k + d.length := not_le.mp fun hle => h k (prefix_drop_append hp hle)
  rw [length_drop, length_append, length_singleton] at hl
  rw [hp.eq_of_length (by rw [length_drop, length_append, length_singleton]; omega)]
  exact drop_suffix _ _

theorem Absent.first (h : Absent d x) (hs : d <:+ x ++ [b]) :
    FirstAt d (x ++ [b]) (x.length + 1 - d.length) := by
  have hd := suffix_iff_eq_drop.mp hs
  rw [length_append, length_singleton] at hd
  refine ⟨by rw [← hd], fun j hj hp => h j (prefix_drop_append hp (by omega))⟩

section Pending

variable [DecidableEq α]

def pendingOf (delimiter : List α) : List α → List α
  | [] => []
  | first :: rest => if first :: rest <+: delimiter then first :: rest else pendingOf delimiter rest

theorem pendingOf_eq (h : x <+: d) : pendingOf d x = x := by
  cases x with
  | nil => rfl
  | cons => exact if_pos h

theorem pendingOf_append (x : List α) (b : α) :
    pendingOf d (pendingOf d x ++ [b]) = pendingOf d (x ++ [b]) := by
  induction x with
  | nil => rfl
  | cons c x ih =>
    by_cases h : c :: x <+: d
    · rw [pendingOf_eq h]
    · have hl : ¬ c :: (x ++ [b]) <+: d := fun hp => h ((prefix_append (c :: x) [b]).trans hp)
      rw [pendingOf, if_neg h, ih, cons_append, pendingOf, if_neg hl]

theorem pendingOf_length (x : List α) : (pendingOf d x).length = d.length ↔ d <:+ x := by
  induction x with
  | nil => simp [pendingOf, eq_comm]
  | cons c x ih =>
    rw [pendingOf]
    split_ifs with h
    · constructor
      · intro hl
        rw [h.eq_of_length hl]
      · intro hs
        exact le_antisymm h.length_le hs.length_le
    · rw [ih, suffix_cons_iff, or_iff_right]
      rintro rfl
      exact h (prefix_refl _)

end Pending

end Yvex.DelimiterScan
