import Mathlib.Logic.Function.Iterate
import Mathlib.Tactic

/-!
# Draws from a generator

A generator advances one state per draw. Operations take runs of draws from it,
and a ledger lists, newest first, where each operation began and what it drew.
In a ledger the runs follow one another without a gap, so no draw belongs to two
of them.
-/

set_option autoImplicit false

namespace Yvex.DrawLedger

variable {σ β : Type} (advance : σ → σ) (output : σ → β)

def drawn : σ → ℕ → List β
  | _, 0 => []
  | s, count + 1 => output s :: drawn (advance s) count

theorem drawn_length (s : σ) (n : ℕ) : (drawn advance output s n).length = n := by
  induction n generalizing s with
  | zero => rfl
  | succ n ih => simp [drawn, ih]

theorem drawn_add (s : σ) (f more : ℕ) : drawn advance output s (f + more) =
      drawn advance output s f ++ drawn advance output (advance^[f] s) more := by
  induction f generalizing s with
  | zero => simp [drawn]
  | succ f ih => rw [Nat.succ_add, drawn, drawn, ih, List.cons_append, Function.iterate_succ_apply]

structure Entry (β : Type) where
  first : ℕ
  values : List β

inductive Ledger (seed : σ) : ℕ → List (Entry β) → Prop where
  | empty : Ledger seed 0 []
  | commit {total : ℕ} {log : List (Entry β)} (earlier : Ledger seed total log) (count : ℕ) :
      Ledger seed (total + count)
        (⟨total, drawn advance output (advance^[total] seed) count⟩ :: log)

section

variable {advance : σ → σ} {output : σ → β} {seed : σ} {total : ℕ} {log : List (Entry β)}

theorem Ledger.within (l : Ledger advance output seed total log) :
    ∀ e ∈ log, e.first + e.values.length ≤ total := by
  induction l with
  | empty => simp
  | commit hea n ih =>
    intro e hm
    rcases List.mem_cons.mp hm with rfl | hol
    · simp [drawn_length]
    · have hin := ih e hol
      omega

/-- Each entry holds the outputs of the generator at its own place. -/
theorem Ledger.values (l : Ledger advance output seed total log) : ∀ e ∈ log,
      e.values = drawn advance output (advance^[e.first] seed) e.values.length := by
  induction l with
  | empty => simp
  | commit hea n ih =>
    intro e hm
    rcases List.mem_cons.mp hm with rfl | hol
    · simp only [drawn_length]
    · exact ih e hol

theorem Ledger.apart (l : Ledger advance output seed total log) :
    log.Pairwise fun newer older => older.first + older.values.length ≤ newer.first := by
  induction l with
  | empty => exact .nil
  | commit hea n ih => exact List.pairwise_cons.mpr ⟨hea.within, ih⟩

end

end Yvex.DrawLedger
