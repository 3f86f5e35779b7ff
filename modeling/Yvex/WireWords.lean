import Mathlib.Tactic

/-!
# Big-endian words in byte memory

A pointer into memory is the function that reads through it, so a definition
that looks past the bytes it was given depends on them visibly. Words are
stored most significant byte first.
-/

set_option autoImplicit false

namespace Yvex.WireWords

abbrev Memory := ℕ → UInt8

def Memory.advance (memory : Memory) (offset : ℕ) : Memory := fun i => memory (offset + i)

def Memory.ofBytes (bytes : List UInt8) : Memory := fun i => bytes.getD i 0

def Memory.slice (memory : Memory) : ℕ → List UInt8
  | 0 => []
  | count + 1 => memory.slice count ++ [memory count]

def Agree (count : ℕ) (memory other : Memory) : Prop := ∀ i < count, memory i = other i

def putWord : ℕ → ℕ → List UInt8
  | 0, _ => []
  | width + 1, value => putWord width (value / 256) ++ [UInt8.ofNat value]

def getWord (memory : Memory) : ℕ → ℕ
  | 0 => 0
  | width + 1 => getWord memory width * 256 + (memory width).toNat

@[simp] theorem putWord_length (w v : ℕ) : (putWord w v).length = w := by
  induction w generalizing v with
  | zero => rfl
  | succ w ih => simp [putWord, ih]

open Memory

@[simp] theorem slice_length (m : Memory) (n : ℕ) : (m.slice n).length = n := by
  induction n with
  | zero => rfl
  | succ n ih => simp [slice, ih]

variable {m o : Memory}

theorem Agree.mono {n k : ℕ} (h : Agree n m o) (hle : k ≤ n) : Agree k m o :=
  fun i hi => h i (lt_of_lt_of_le hi hle)

theorem Agree.advance {n ot len : ℕ} (h : Agree n m o) (hle : ot + len ≤ n) :
    Agree len (m.advance ot) (o.advance ot) := by
  intro i hi
  exact h (ot + i) (by omega)

theorem Agree.getWord_eq {w : ℕ} (h : Agree w m o) : getWord m w = getWord o w := by
  induction w with
  | zero => rfl
  | succ w ih => rw [getWord, getWord, ih (h.mono (Nat.le_succ w)), h w (Nat.lt_succ_self w)]

theorem Agree.slice_eq {n : ℕ} (h : Agree n m o) : m.slice n = o.slice n := by
  induction n with
  | zero => rfl
  | succ n ih => rw [slice, slice, ih (h.mono (Nat.le_succ n)), h n (Nat.lt_succ_self _)]

theorem slice_add (m : Memory) (k s : ℕ) :
    m.slice (k + s) = m.slice k ++ (m.advance k).slice s := by
  induction s with
  | zero => simp [slice]
  | succ s ih =>
    rw [← Nat.add_assoc, slice, ih, slice, List.append_assoc]
    rfl

@[simp] theorem advance_zero (m : Memory) : m.advance 0 = m := by
  funext i
  simp [advance]

@[simp] theorem advance_advance (m : Memory) (k n : ℕ) :
    (m.advance k).advance n = m.advance (k + n) := by
  funext i
  simp [advance, Nat.add_assoc]

theorem ofBytes_append_agree (bs r : List UInt8) :
    Agree bs.length (Memory.ofBytes (bs ++ r)) (Memory.ofBytes bs) := by
  intro i hi
  simp [ofBytes, List.getElem?_append_left hi]

@[simp] theorem slice_ofBytes (bs : List UInt8) : (Memory.ofBytes bs).slice bs.length = bs := by
  induction bs using List.reverseRecOn with
  | nil => rfl
  | append_singleton bs b ih =>
    rw [List.length_append, List.length_singleton, slice,
      (ofBytes_append_agree bs [b]).slice_eq, ih]
    simp [ofBytes]

theorem ofBytes_slice_agree (m : Memory) (n : ℕ) : Agree n (Memory.ofBytes (m.slice n)) m := by
  induction n with
  | zero => intro i hi; omega
  | succ n ih =>
    intro i hi
    by_cases hl : i = n
    · subst hl
      simp [slice, ofBytes]
    · have hp := ofBytes_append_agree (m.slice n) [m n] i (by rw [slice_length]; omega)
      rw [slice, hp, ih i (by omega)]

theorem getWord_lt (m : Memory) (w : ℕ) : getWord m w < 256 ^ w := by
  induction w with
  | zero => simp [getWord]
  | succ w ih =>
    have hb := (m w).toNat_lt
    rw [getWord, pow_succ]
    omega

theorem getWord_putWord (w v : ℕ) (r : List UInt8) :
    getWord (Memory.ofBytes (putWord w v ++ r)) w = v % 256 ^ w := by
  induction w generalizing v r with
  | zero => simp [getWord, Nat.mod_one]
  | succ w ih =>
    have hl : ofBytes (putWord (w + 1) v ++ r) w = UInt8.ofNat v := by simp [ofBytes, putWord]
    rw [getWord, hl, putWord, List.append_assoc, ih, pow_succ', Nat.mod_mul, UInt8.toNat_ofNat']
    ring_nf

/-- A word that is read is written back as the same bytes. -/
theorem putWord_getWord (m : Memory) (w : ℕ) : putWord w (getWord m w) = m.slice w := by
  induction w with
  | zero => rfl
  | succ w ih =>
    have hb := (m w).toNat_lt
    have hh : (getWord m w * 256 + (m w).toNat) / 256 = getWord m w := by omega
    have hl : UInt8.ofNat (getWord m w * 256 + (m w).toNat) = m w := by
      apply UInt8.toNat_inj.mp
      rw [UInt8.toNat_ofNat']
      omega
    rw [getWord, putWord, hh, ih, hl, slice]

def bytes64 (value : UInt64) : List UInt8 := putWord 8 value.toNat

@[simp] theorem bytes64_length (v : UInt64) : (bytes64 v).length = 8 := putWord_length 8 _

end Yvex.WireWords
