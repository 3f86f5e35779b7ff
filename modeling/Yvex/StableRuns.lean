import Mathlib.Data.List.Sort

/-!
# Stable merging of runs

A list is sorted stably when it is a sorted permutation that keeps equivalent elements
in their order. Merging stably sorted neighbours sorts them together.
-/

set_option autoImplicit false

namespace Yvex.StableRuns

open List

variable {α : Type}

def equivalent (le : α → α → Bool) (a b : α) : Bool := le a b && le b a

structure Stable (le : α → α → Bool) (l r : List α) : Prop where
  perm : r ~ l
  sorted : r.Pairwise (le · ·)
  order : ∀ a, r.filter (equivalent le a) = l.filter (equivalent le a)

inductive Runs (le : α → α → Bool) (w : ℕ) : List α → List α → Prop where
  | last {l r : List α} (stable : Stable le l r) (short : l.length ≤ w) : Runs le w l r
  | cons {l r ls rs : List α} (stable : Stable le l r) (full : l.length = w)
      (rest : Runs le w ls rs) : Runs le w (l ++ ls) (r ++ rs)

variable {le : α → α → Bool} {l r l' r' : List α} {w : ℕ}

theorem runs_single (l : List α) : Runs le 1 l l := by
  induction l with
  | nil => exact .last ⟨.refl _, .nil, fun _ => rfl⟩ (Nat.zero_le 1)
  | cons x l ih => exact .cons ⟨.refl [x], pairwise_singleton _ _, fun _ => rfl⟩ rfl ih

theorem Runs.perm (h : Runs le w l r) : r ~ l := by
  induction h with
  | last stable short => exact stable.perm
  | cons stable full rest ih => exact stable.perm.append ih

theorem Runs.stable (h : Runs le w l r) (hw : l.length ≤ w) : Stable le l r := by
  cases h with
  | last stable short => exact stable
  | @cons l r ls rs stable full rest =>
    rw [length_append] at hw
    obtain rfl : ls = [] := length_eq_zero_iff.mp (by omega)
    rwa [rest.perm.eq_nil, append_nil, append_nil]

section Order

variable (ht : ∀ a b c, le a b → le b c → le a c) (hl : ∀ a b, le a b || le b a)
include ht

/-- A merge keeps the order of equivalent elements, those of the left run first. -/
theorem filter_merge (a : α) (h : l.Pairwise (le · ·)) :
    (merge l r le).filter (equivalent le a) =
      l.filter (equivalent le a) ++ r.filter (equivalent le a) := by
  induction l generalizing r with
  | nil => simp
  | cons x l ih =>
    induction r with
    | nil => simp
    | cons y r ihr =>
      obtain ⟨hx, hs⟩ := pairwise_cons.mp h
      rw [cons_merge_cons]
      split_ifs with hxy
      · rw [filter_cons, filter_cons, ih hs]
        split_ifs <;> rfl
      rw [filter_cons, ihr, filter_cons (x := y)]
      split_ifs with hy
      · -- what is equivalent to `y` comes before all of the left run
        have hn : (x :: l).filter (equivalent le a) = [] := by
          rw [filter_eq_nil_iff]
          intro z hz hza
          simp only [equivalent, Bool.and_eq_true] at hy hza
          have hzy := ht z a y hza.2 hy.1
          rcases mem_cons.mp hz with rfl | hz
          · exact hxy hzy
          · exact hxy (ht x z y (hx z hz) hzy)
        rw [hn]
        rfl
      · rfl

include hl

theorem Stable.merge (h : Stable le l r) (h' : Stable le l' r') :
    Stable le (l ++ l') (merge r r' le) where
  perm := (merge_perm_append le).trans (h.perm.append h'.perm)
  sorted := pairwise_merge ht hl r r' h.sorted h'.sorted
  order a := by rw [filter_merge ht a h.sorted, filter_append, h.order, h'.order]

end Order

end Yvex.StableRuns
