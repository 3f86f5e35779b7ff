import Mathlib.Tactic

/-!
# Streams of blocks

A function consumes blocks of one size. Applied to the blocks of a whole message it gives
the same as a stream that keeps the items behind the last whole block in a buffer.
-/

set_option autoImplicit false

namespace Yvex.BlockStream

open List

variable {α σ : Type} {n : ℕ} {f : σ → List α → σ} {s s' : σ} {l m b p : List α}

def chain (n : ℕ) (f : σ → List α → σ) (s : σ) (l : List α) : σ :=
  (range (l.length / n)).foldl (fun t i => f t ((l.drop (n * i)).take n)) s

/-- Whole blocks can be consumed before the rest of a message is known. -/
theorem chain_append (hn : 0 < n) (h : n ∣ l.length) :
    chain n f s (l ++ m) = chain n f (chain n f s l) m := by
  obtain ⟨k, hk⟩ := h
  have hd : (l ++ m).length / n = k + m.length / n := by rw [length_append, hk, Nat.mul_add_div hn]
  have hl : l.length / n = k := by rw [hk, Nat.mul_div_cancel_left _ hn]
  rw [chain, chain, chain, hd, hl, range_add, foldl_append, foldl_map]
  congr 1
  · funext t i
    rw [Nat.mul_add, ← hk, ← drop_drop, drop_left]
  · refine foldl_ext _ _ _ fun t i hi => ?_
    have hle : n * i + n ≤ l.length := by
      rw [hk, ← Nat.mul_succ]
      exact Nat.mul_le_mul_left n (mem_range.mp hi)
    rw [drop_append_of_le_length (by omega), take_append_of_le_length (by rw [length_drop]; omega)]

theorem chain_block (hn : 0 < n) (h : l.length = n) : chain n f s l = f s l := by
  subst h
  simp [chain, Nat.div_self hn]

/-- A map that commutes with the function on blocks commutes with it over a whole list. -/
theorem chain_map {τ : Type} {g : τ → List α → τ} (φ : σ → τ)
    (step : ∀ s b, b.length = n → φ (f s b) = g (φ s) b) :
    φ (chain n f s l) = chain n g (φ s) l := by
  refine foldl_rel (r := fun s t => φ s = t) rfl fun i hi s t same => ?_
  have inside : n * i + n ≤ l.length := by
    rw [← Nat.mul_succ]
    exact (Nat.mul_le_mul_left n (mem_range.mp hi)).trans (Nat.mul_div_le _ n)
  subst same
  exact step s _ (by rw [length_take, length_drop]; omega)

def Held (n : ℕ) (f : σ → List α → σ) (s : σ) (m : List α) (s' : σ) (b : List α) : Prop :=
  ∃ l, m = l ++ b ∧ n ∣ l.length ∧ s' = chain n f s l

theorem held_nil : Held n f s [] s [] := ⟨[], rfl, dvd_zero n, by simp [chain]⟩

theorem Held.keep (h : Held n f s m s' b) (p : List α) : Held n f s (m ++ p) s' (b ++ p) := by
  obtain ⟨l, rfl, hl, rfl⟩ := h
  exact ⟨l, append_assoc .., hl, rfl⟩

theorem Held.full (hn : 0 < n) (h : Held n f s m s' b) (hb : b.length = n) :
    Held n f s m (f s' b) [] := by
  obtain ⟨l, rfl, hl, rfl⟩ := h
  refine ⟨l ++ b, (append_nil _).symm, ?_, ?_⟩
  · rw [length_append, hb]
    exact (Nat.dvd_add_self_right).mpr hl
  · rw [chain_append hn hl, chain_block hn hb]

theorem Held.chain_eq (hn : 0 < n) (h : Held n f s m s' b) : chain n f s m = chain n f s' b := by
  obtain ⟨l, rfl, hl, rfl⟩ := h
  exact chain_append hn hl

end Yvex.BlockStream
