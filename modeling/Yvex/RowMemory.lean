import Mathlib.Tactic

/-!
# Rows of a flat memory

A flat memory is a function from element index to value; rows of one width lie
back to back in it. Writing the block of one row changes that row only.
-/

set_option autoImplicit false

namespace Yvex.RowMemory

open List Nat

variable {α : Type}

def writeBlock (memory : ℕ → α) (base length : ℕ) (source : ℕ → α) : ℕ → α :=
  fun i => if base ≤ i ∧ i < base + length then source (i - base) else memory i

def row (width : ℕ) (memory : ℕ → α) (r : ℕ) : List α :=
  (List.range width).map fun j => memory (r * width + j)

theorem writeBlock_inside {m : ℕ → α} {b n i : ℕ} {src : ℕ → α} (h1 : b ≤ i) (h2 : i < b + n) :
    writeBlock m b n src i = src (i - b) := by
  simp [writeBlock, h1, h2]

theorem writeBlock_outside (m : ℕ → α) {b n i : ℕ} (src : ℕ → α)
    (h : ¬(b ≤ i ∧ i < b + n)) : writeBlock m b n src i = m i :=
  if_neg h

variable {w r : ℕ}

theorem row_congr {a b : ℕ → α}
    (h : ∀ j < w, a (r * w + j) = b (r * w + j)) : row w a r = row w b r :=
  map_congr_left fun j hj => h j (mem_range.mp hj)

theorem block_of_row {s j : ℕ} (hj : j < w) (h1 : s * w ≤ r * w + j)
    (h2 : r * w + j < s * w + w) : r = s := by
  have hr : (r * w + j) / w = r := Nat.div_eq_of_lt_le (by omega) (by rw [succ_mul]; omega)
  have hs : (r * w + j) / w = s := Nat.div_eq_of_lt_le h1 (by rwa [succ_mul])
  exact hr.symm.trans hs

theorem row_writeBlock_self (w : ℕ) (m : ℕ → α) (r : ℕ) (src : ℕ → α) :
    row w (writeBlock m (r * w) w src) r = (List.range w).map src := by
  apply map_congr_left
  intro j hj
  have hj' : j < w := mem_range.mp hj
  rw [writeBlock_inside (by omega) (by omega), Nat.add_sub_cancel_left]

theorem row_writeBlock_ne {s : ℕ} (m : ℕ → α) (src : ℕ → α) (h : r ≠ s) :
    row w (writeBlock m (s * w) w src) r = row w m r := by
  apply row_congr
  intro j hj
  apply writeBlock_outside
  rintro ⟨h1, h2⟩
  exact h (block_of_row hj h1 h2)

theorem map_range_rows (w c : ℕ) (m : ℕ → α) :
    (List.range (c * w)).map m = (List.range c).flatMap (row w m) := by
  induction c with
  | zero => simp
  | succ c ih =>
    rw [succ_mul, range_add, map_append, ih, range_succ, flatMap_append, flatMap_singleton, map_map]
    rfl

section Placed

variable {τ : Type}

def Placed (memory : ℕ → α) (base length : ℕ) (source : ℕ → α) : Prop :=
  ∀ j < length, memory (base + j) = source j

def PlacedAll (memory : ℕ → α) (base : ℕ) (length : τ → ℕ) (source : τ → ℕ → α)
    (items : List τ) : Prop :=
  ∀ before item later, items = before ++ item :: later →
    Placed memory (base + (before.map length).sum) (length item) (source item)

theorem placed_writeBlock {m : ℕ → α} {b n : ℕ} {src : ℕ → α} :
    Placed (writeBlock m b n src) b n src := by
  intro j hi
  rw [writeBlock_inside (by omega) (by omega), Nat.add_sub_cancel_left]

theorem Placed.keep {m after : ℕ → α} {bs n b : ℕ} {src : ℕ → α}
    (hpl : Placed m bs n src) (hi : bs + n ≤ b)
    (hs : ∀ i < b, after i = m i) : Placed after bs n src := by
  intro j hsh
  rw [hs _ (by omega), hpl j hsh]

/-- Rows that lie in a memory are read there by their numbers. -/
theorem Placed.row {m src : ℕ → α} {w fi c : ℕ}
    (hpl : Placed m (fi * w) (c * w) src) {i : ℕ} (hi : i < c) :
    row w m (fi + i) = row w src i := by
  apply map_congr_left
  intro j hm
  have hsh := mem_range.mp hm
  have hr : (i + 1) * w ≤ c * w := mul_le_mul_right w hi
  rw [succ_mul] at hr
  rw [add_mul, add_assoc, hpl (i * w + j) (by omega)]

variable {m : ℕ → α} {ba : ℕ} {n : τ → ℕ} {src : τ → ℕ → α}

theorem PlacedAll.nil : PlacedAll m ba n src [] := by
  intro b i hl hsp
  cases b <;> cases hsp

variable {fi : τ} {rest : List τ}

theorem PlacedAll.cons (hh : Placed m ba (n fi) (src fi))
    (hbh : PlacedAll m (ba + n fi) n src rest) :
    PlacedAll m ba n src (fi :: rest) := by
  intro b i l hsp
  cases b with
  | nil =>
    obtain ⟨rfl, rfl⟩ := cons.inj hsp
    exact hh
  | cons head b =>
    obtain ⟨rfl, rfl⟩ := cons.inj hsp
    have hpl := hbh b i l rfl
    rwa [map_cons, sum_cons, ← add_assoc]

theorem PlacedAll.head (hpl : PlacedAll m ba n src (fi :: rest)) :
    Placed m ba (n fi) (src fi) := hpl [] fi rest rfl

theorem PlacedAll.tail (hpl : PlacedAll m ba n src (fi :: rest)) :
    PlacedAll m (ba + n fi) n src rest := by
  intro b i hl hsp
  have hbh := hpl (fi :: b) i hl (by rw [hsp]; rfl)
  rwa [map_cons, sum_cons, ← add_assoc] at hbh

/-- Items that are placed one behind the other are the concatenation of their values. -/
theorem PlacedAll.concatenation {i : List τ} (hpl : PlacedAll m ba n src i) :
    ((List.range (i.map n).sum).map fun j => m (ba + j)) =
      i.flatMap fun it => (List.range (n it)).map (src it) := by
  induction i generalizing ba with
  | nil => rfl
  | cons fi rest ih =>
    rw [map_cons, sum_cons, range_add, map_append, map_map, flatMap_cons, ← ih hpl.tail]
    congr 1
    · exact map_congr_left fun j hi => hpl.head j (mem_range.mp hi)
    · simp only [Function.comp_def, add_assoc]

end Placed

end Yvex.RowMemory
