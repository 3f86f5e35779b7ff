import Mathlib.Tactic

/-!
# Regions of a byte store

Reading a range of a store and writing bytes at an offset. A write is read back
where it was made and leaves every range apart from it as it was.
-/

set_option autoImplicit false

namespace Yvex.ByteRegions

open List

abbrev Store := ℕ → UInt8

def contents (store : Store) (start length : ℕ) : List UInt8 :=
  (List.range length).map fun index => store (start + index)

def writeAt (store : Store) (offset : ℕ) (bytes : List UInt8) : Store := fun position =>
  if offset ≤ position then bytes[position - offset]?.getD (store position) else store position

variable {st other : Store}

@[simp] theorem contents_length (s n : ℕ) : (contents st s n).length = n := by simp [contents]

@[simp] theorem contents_zero (s : ℕ) : contents st s 0 = [] := rfl

theorem contents_append (s m n : ℕ) : contents st s (m + n) =
      contents st s m ++ contents st (s + m) n := by
  simp only [contents, range_add, map_append, map_map, Function.comp_def, Nat.add_assoc]

theorem contents_congr {s n : ℕ} (hs : ∀ p, s ≤ p → p < s + n → st p = other p) :
    contents st s n = contents other s n := by
  apply map_congr_left
  intro i hm
  have hi := mem_range.mp hm
  exact hs _ (by omega) (by omega)

theorem contents_const {s n : ℕ} {v : UInt8} (hs : ∀ p, s ≤ p → p < s + n → st p = v) :
    contents st s n = List.replicate n v := by
  have hc : contents st s n = contents (fun _ => v) s n := contents_congr hs
  rw [hc]
  simp [contents]

variable {bs : List UInt8}

/-- A write changes nothing outside its region. -/
theorem writeAt_apart {o p : ℕ} (hap : p < o ∨ o + bs.length ≤ p) : writeAt st o bs p = st p := by
  unfold writeAt
  split_ifs with hbh
  · rw [getElem?_eq_none (by omega)]
    rfl
  · rfl

theorem writeAt_inside {o i : ℕ} (hi : i < bs.length) : writeAt st o bs (o + i) = bs[i] := by
  unfold writeAt
  rw [if_pos (Nat.le_add_right _ _), Nat.add_sub_cancel_left, getElem?_eq_getElem hi]
  rfl

theorem contents_writeAt (o : ℕ) (bs : List UInt8) :
    contents (writeAt st o bs) o bs.length = bs := by
  apply ext_getElem
  · simp
  · intro i _ hi
    simp only [contents, getElem_map, getElem_range]
    exact writeAt_inside hi

theorem contents_writeAt_apart {o s n : ℕ} (hap : s + n ≤ o ∨ o + bs.length ≤ s) :
    contents (writeAt st o bs) s n = contents st s n := by
  apply contents_congr
  intro p h1 last
  apply writeAt_apart
  omega

theorem contents_extend (s n : ℕ) (bs : List UInt8) :
    contents (writeAt st (s + n) bs) s (n + bs.length) = contents st s n ++ bs := by
  rw [contents_append, contents_writeAt_apart (Or.inl le_rfl), contents_writeAt]

end Yvex.ByteRegions
