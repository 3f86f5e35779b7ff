import Mathlib.Data.List.GetD
import Mathlib.Data.Nat.NthRoot.Defs
import Mathlib.Data.Nat.Prime.Defs
import Yvex.BlockStream
import Yvex.CheckedArithmetic

/-!
# Streaming SHA-256

The incremental SHA-256 collects its input in a block of 64 bytes and consumes the block
when it is full. The digest of the standard is defined on the whole padded message, with
constants that are fractions of roots of the first primes.
-/

set_option autoImplicit false

namespace Yvex.Sha256Stream

open BlockStream CheckedArithmetic List

def sha256RotateRight (value bits : UInt32) : UInt32 := (value >>> bits) ||| (value <<< (32 - bits))

def constants : List UInt32 :=
  [0x428a2f98, 0x71374491, 0xb5c0fbcf, 0xe9b5dba5, 0x3956c25b, 0x59f111f1, 0x923f82a4, 0xab1c5ed5,
    0xd807aa98, 0x12835b01, 0x243185be, 0x550c7dc3, 0x72be5d74, 0x80deb1fe, 0x9bdc06a7, 0xc19bf174,
    0xe49b69c1, 0xefbe4786, 0x0fc19dc6, 0x240ca1cc, 0x2de92c6f, 0x4a7484aa, 0x5cb0a9dc, 0x76f988da,
    0x983e5152, 0xa831c66d, 0xb00327c8, 0xbf597fc7, 0xc6e00bf3, 0xd5a79147, 0x06ca6351, 0x14292967,
    0x27b70a85, 0x2e1b2138, 0x4d2c6dfc, 0x53380d13, 0x650a7354, 0x766a0abb, 0x81c2c92e, 0x92722c85,
    0xa2bfe8a1, 0xa81a664b, 0xc24b8b70, 0xc76c51a3, 0xd192e819, 0xd6990624, 0xf40e3585, 0x106aa070,
    0x19a4c116, 0x1e376c08, 0x2748774c, 0x34b0bcb5, 0x391c0cb3, 0x4ed8aa4a, 0x5b9cca4f, 0x682e6ff3,
    0x748f82ee, 0x78a5636f, 0x84c87814, 0x8cc70208, 0x90befffa, 0xa4506ceb, 0xbef9a3f7, 0xc67178f2]

structure State where
  (a b c d e f g h : UInt32)
deriving DecidableEq

def wordAt (block : List UInt8) (index : ℕ) : UInt32 :=
  ((block.getD (index * 4) 0).toUInt32 <<< 24) ||| ((block.getD (index * 4 + 1) 0).toUInt32 <<< 16)
    ||| ((block.getD (index * 4 + 2) 0).toUInt32 <<< 8) ||| (block.getD (index * 4 + 3) 0).toUInt32

def wordsExtend (words : List UInt32) : List UInt32 :=
  let word back := words.getD (words.length - back) 0
  let s0 := sha256RotateRight (word 15) 7 ^^^ sha256RotateRight (word 15) 18 ^^^ (word 15 >>> 3)
  let s1 := sha256RotateRight (word 2) 17 ^^^ sha256RotateRight (word 2) 19 ^^^ (word 2 >>> 10)
  words ++ [word 16 + s0 + word 7 + s1]

def round (words : List UInt32) (s : State) (index : ℕ) : State :=
  let s1 := sha256RotateRight s.e 6 ^^^ sha256RotateRight s.e 11 ^^^ sha256RotateRight s.e 25
  let choose := (s.e &&& s.f) ^^^ (~~~s.e &&& s.g)
  let first := s.h + s1 + choose + constants.getD index 0 + words.getD index 0
  let s0 := sha256RotateRight s.a 2 ^^^ sha256RotateRight s.a 13 ^^^ sha256RotateRight s.a 22
  let majority := (s.a &&& s.b) ^^^ (s.a &&& s.c) ^^^ (s.b &&& s.c)
  let second := s0 + majority
  ⟨first + second, s.a, s.b, s.c, s.d + first, s.e, s.f, s.g⟩

def State.add (s v : State) : State :=
  ⟨s.a + v.a, s.b + v.b, s.c + v.c, s.d + v.d, s.e + v.e, s.f + v.f, s.g + v.g, s.h + v.h⟩

def sha256Transform (state : State) (block : List UInt8) : State :=
  let words := wordsExtend^[48] ((range 16).map (wordAt block))
  state.add ((range 64).foldl (round words) state)

structure Buffer where
  state : State
  block : List UInt8
  room : block.length < 64

structure Context extends Buffer where
  length : ℕ
  finalized : Bool

def sha256Init : Context where
  state := ⟨0x6a09e667, 0xbb67ae85, 0x3c6ef372, 0xa54ff53a, 0x510e527f, 0x9b05688c, 0x1f83d9ab,
    0x5be0cd19⟩
  block := []
  room := by decide
  length := 0
  finalized := false

def fill (c : Buffer) (bytes : List UInt8) (fits : (c.block ++ bytes).length ≤ 64) : Buffer :=
  if full : (c.block ++ bytes).length = 64 then
    ⟨sha256Transform c.state (c.block ++ bytes), [], by decide⟩
  else ⟨c.state, c.block ++ bytes, lt_of_le_of_ne fits full⟩

def absorb (c : Buffer) (bytes : List UInt8) : Buffer :=
  if bytes = [] then c
  else absorb (fill c (bytes.take (64 - c.block.length)) (by
    have := c.room
    rw [length_append, length_take]
    omega)) (bytes.drop (64 - c.block.length))
termination_by bytes.length
decreasing_by
  have := c.room
  have := length_pos_iff.mpr ‹bytes ≠ []›
  rw [length_drop]
  omega

def lengthLimit : ℕ := (wordLimit - 1) / 8

def sha256Update (c : Context) (data : List UInt8) : Option Context :=
  if c.finalized ∨ lengthLimit - c.length < data.length then none
  else some ⟨absorb c.toBuffer data, c.length + data.length, c.finalized⟩

def wordBytes (w : UInt32) : List UInt8 :=
  [(w >>> 24).toUInt8, (w >>> 16).toUInt8, (w >>> 8).toUInt8, w.toUInt8]

def digestOf (s : State) : List UInt8 := [s.a, s.b, s.c, s.d, s.e, s.f, s.g, s.h].flatMap wordBytes

def lengthBytes (bitLength : ℕ) : List UInt8 :=
  (range 8).map fun index => .ofNat (bitLength >>> ((7 - index) * 8))

def finalState (c : Context) : State :=
  -- The state behind the padding; the length may need a block of its own.
  let block := c.block ++ [0x80]
  let last := if 56 < block.length then
      (sha256Transform c.state (block ++ replicate (64 - block.length) 0), [])
    else (c.state, block)
  sha256Transform last.1 (last.2 ++ replicate (56 - last.2.length) 0 ++ lengthBytes (c.length * 8))

def sha256Final (c : Context) : Option (Context × List UInt8) :=
  if c.finalized ∨ lengthLimit < c.length then none
  else some (⟨⟨finalState c, [], by decide⟩, c.length, true⟩, digestOf (finalState c))

namespace Fips

structure Variables where
  (a b c d e f g h : BitVec 32)
deriving DecidableEq

def primes : List ℕ := (range 312).filter Nat.Prime

-- the first 32 bits of the fraction of the `k`-th root
def fraction (k p : ℕ) : BitVec 32 := .ofNat 32 (Nat.nthRoot k (p * 2 ^ (32 * k)))

def number (bytes : List UInt8) : ℕ := bytes.foldl (fun n byte => 256 * n + byte.toNat) 0

def encoded : ℕ → ℕ → List UInt8
  | 0, _ => []
  | width + 1, value => encoded width (value / 256) ++ [.ofNat (value % 256)]

def rotations (x : BitVec 32) (i j k : ℕ) : BitVec 32 :=
  x.rotateRight i ^^^ x.rotateRight j ^^^ x.rotateRight k

def shifted (x : BitVec 32) (i j k : ℕ) : BitVec 32 :=
  x.rotateRight i ^^^ x.rotateRight j ^^^ (x >>> k)

def schedule (block : List UInt8) (t : ℕ) : BitVec 32 :=
  if t < 16 then .ofNat 32 (number ((block.drop (4 * t)).take 4))
  else shifted (schedule block (t - 2)) 17 19 10 + schedule block (t - 7) +
    shifted (schedule block (t - 15)) 7 18 3 + schedule block (t - 16)

def round (block : List UInt8) (v : Variables) (t : ℕ) : Variables :=
  let t1 := v.h + rotations v.e 6 11 25 + ((v.e &&& v.f) ^^^ (~~~v.e &&& v.g)) +
    (primes.map (fraction 3)).getD t 0 + schedule block t
  let t2 := rotations v.a 2 13 22 + ((v.a &&& v.b) ^^^ (v.a &&& v.c) ^^^ (v.b &&& v.c))
  ⟨t1 + t2, v.a, v.b, v.c, v.d + t1, v.e, v.f, v.g⟩

def compress (v : Variables) (block : List UInt8) : Variables :=
  let w := (range 64).foldl (round block) v
  ⟨v.a + w.a, v.b + w.b, v.c + w.c, v.d + w.d, v.e + w.e, v.f + w.f, v.g + w.g, v.h + w.h⟩

-- one bit and zeros, up to the length in the last eight bytes of a block
def pad (m : List UInt8) : List UInt8 :=
  m ++ 0x80 :: replicate ((119 - m.length % 64) % 64) 0 ++ encoded 8 (8 * m.length)

def start : Variables :=
  let word i := ((primes.take 8).map (fraction 2)).getD i 0
  ⟨word 0, word 1, word 2, word 3, word 4, word 5, word 6, word 7⟩

def digest (v : Variables) : List UInt8 :=
  [v.a, v.b, v.c, v.d, v.e, v.f, v.g, v.h].flatMap fun word => encoded 4 word.toNat

def sha256 (m : List UInt8) : List UInt8 := digest (chain 64 compress start (pad m))

end Fips

def State.variables (s : State) : Fips.Variables :=
  ⟨s.a.toBitVec, s.b.toBitVec, s.c.toBitVec, s.d.toBitVec, s.e.toBitVec, s.f.toBitVec,
    s.g.toBitVec, s.h.toBitVec⟩

theorem rotateRight_eq (x bits : UInt32) (some : 0 < bits.toNat) (few : bits.toNat < 32) :
    (sha256RotateRight x bits).toBitVec = x.toBitVec.rotateRight bits.toNat := by
  have rest : (32 - bits : UInt32).toNat = 32 - bits.toNat :=
    UInt32.toNat_sub_of_le _ _ (UInt32.le_iff_toNat_le.mpr few.le)
  apply BitVec.eq_of_toNat_eq
  rw [BitVec.rotateRight_def]
  simp only [sha256RotateRight, UInt32.toBitVec_or, BitVec.toNat_or, UInt32.toNat_toBitVec,
    UInt32.toNat_shiftRight, UInt32.toNat_shiftLeft, BitVec.toNat_ushiftRight,
    BitVec.toNat_shiftLeft, rest, Nat.mod_eq_of_lt few,
    Nat.mod_eq_of_lt (show 32 - bits.toNat < 32 by omega)]

theorem shiftRight_eq (x bits : UInt32) (few : bits.toNat < 32) :
    (x >>> bits).toBitVec = x.toBitVec >>> bits.toNat := by
  apply BitVec.eq_of_toNat_eq
  rw [UInt32.toNat_toBitVec, UInt32.toNat_shiftRight, Nat.mod_eq_of_lt few,
    BitVec.toNat_ushiftRight, UInt32.toNat_toBitVec]

theorem rotations_eq (x i j k : UInt32) (hi : 0 < i.toNat ∧ i.toNat < 32)
    (hj : 0 < j.toNat ∧ j.toNat < 32) (hk : 0 < k.toNat ∧ k.toNat < 32) :
    (sha256RotateRight x i ^^^ sha256RotateRight x j ^^^ sha256RotateRight x k).toBitVec =
      Fips.rotations x.toBitVec i.toNat j.toNat k.toNat := by
  rw [UInt32.toBitVec_xor, UInt32.toBitVec_xor, rotateRight_eq x i hi.1 hi.2,
    rotateRight_eq x j hj.1 hj.2, rotateRight_eq x k hk.1 hk.2]
  rfl

theorem shifted_eq (x i j k : UInt32) (hi : 0 < i.toNat ∧ i.toNat < 32)
    (hj : 0 < j.toNat ∧ j.toNat < 32) (hk : k.toNat < 32) :
    (sha256RotateRight x i ^^^ sha256RotateRight x j ^^^ (x >>> k)).toBitVec =
      Fips.shifted x.toBitVec i.toNat j.toNat k.toNat := by
  rw [UInt32.toBitVec_xor, UInt32.toBitVec_xor, rotateRight_eq x i hi.1 hi.2,
    rotateRight_eq x j hj.1 hj.2, shiftRight_eq x k hk]
  rfl

theorem constants_eq : constants.map UInt32.toBitVec = Fips.primes.map (Fips.fraction 3) := by
  decide +kernel

theorem constant_eq (t : ℕ) :
    (constants.getD t 0).toBitVec = (Fips.primes.map (Fips.fraction 3)).getD t 0 := by
  rw [← constants_eq]
  exact (getD_map _ _ _).symm

theorem init_eq : sha256Init.state.variables = Fips.start := by decide +kernel

-- bytes that are shifted apart do not overlap, so joining them is adding them
theorem joined_eq {b0 b1 b2 b3 : ℕ} (h1 : b1 < 2 ^ 8) (h2 : b2 < 2 ^ 8) (h3 : b3 < 2 ^ 8) :
    b0 * 2 ^ 24 ||| b1 * 2 ^ 16 ||| b2 * 2 ^ 8 ||| b3 =
      256 * (256 * (256 * b0 + b1) + b2) + b3 := by
  have j1 := Nat.two_pow_add_eq_or_of_lt (show b1 * 2 ^ 16 < 2 ^ 24 by omega) b0
  have j2 := Nat.two_pow_add_eq_or_of_lt (show b2 * 2 ^ 8 < 2 ^ 16 by omega) (256 * b0 + b1)
  have j3 := Nat.two_pow_add_eq_or_of_lt h3 (256 * (256 * b0 + b1) + b2)
  rw [Nat.mul_comm b0, ← j1,
    show 2 ^ 24 * b0 + b1 * 2 ^ 16 = 2 ^ 16 * (256 * b0 + b1) by omega, ← j2,
    show 2 ^ 16 * (256 * b0 + b1) + b2 * 2 ^ 8 = 2 ^ 8 * (256 * (256 * b0 + b1) + b2) by omega,
    ← j3]

theorem wordAt_eq {block : List UInt8} {t : ℕ} (inside : 4 * t + 4 ≤ block.length) :
    (wordAt block t).toBitVec = .ofNat 32 (Fips.number ((block.drop (4 * t)).take 4)) := by
  have four : (block.drop (4 * t)).take 4 = [block.getD (t * 4) 0, block.getD (t * 4 + 1) 0,
      block.getD (t * 4 + 2) 0, block.getD (t * 4 + 3) 0] := by
    refine ext_getElem (by simp; omega) fun i _ hi => ?_
    simp only [length_cons, length_nil] at hi
    rw [Nat.mul_comm t 4]
    interval_cases i <;> grind
  have b0 := (block.getD (t * 4) 0).toNat_lt
  have b1 := (block.getD (t * 4 + 1) 0).toNat_lt
  have b2 := (block.getD (t * 4 + 2) 0).toNat_lt
  have b3 := (block.getD (t * 4 + 3) 0).toNat_lt
  apply BitVec.eq_of_toNat_eq
  simp only [four, wordAt, UInt32.toBitVec_or, BitVec.toNat_or, UInt32.toNat_toBitVec,
    UInt32.toNat_shiftLeft, UInt8.toNat_toUInt32, Fips.number, foldl_cons, foldl_nil,
    BitVec.toNat_ofNat, Nat.shiftLeft_eq, UInt32.reduceToNat, Nat.reduceMod, Nat.mul_zero,
    Nat.zero_add]
  rw [Nat.mod_eq_of_lt (by omega), Nat.mod_eq_of_lt (by omega), Nat.mod_eq_of_lt (by omega),
    joined_eq b1 b2 b3, Nat.mod_eq_of_lt (by omega)]

/-- The extended words are the message schedule of the block. -/
theorem words_eq {block : List UInt8} (whole : block.length = 64) (k : ℕ) :
    (wordsExtend^[k] ((range 16).map (wordAt block))).map UInt32.toBitVec =
      (range (16 + k)).map (Fips.schedule block) := by
  induction k with
  | zero =>
    rw [Function.iterate_zero, id, map_map]
    refine map_congr_left fun t ht => ?_
    have ht := mem_range.mp ht
    rw [Fips.schedule, if_pos ht]
    exact wordAt_eq (by omega)
  | succ k ih =>
    rw [Function.iterate_succ_apply']
    generalize wordsExtend^[k] ((range 16).map (wordAt block)) = words at ih ⊢
    have length : words.length = 16 + k := by simpa using congrArg List.length ih
    have read : ∀ back, 0 < back → (words.getD (16 + k - back) 0).toBitVec =
        Fips.schedule block (16 + k - back) := by
      intro back some
      rw [← getD_map (f := UInt32.toBitVec), ih]
      simp [show 16 + k - back < 16 + k by omega]
    have next : Fips.schedule block (16 + k) = _ := Fips.schedule.eq_1 block (16 + k)
    rw [wordsExtend, map_append, ih, ← Nat.add_assoc, range_succ, map_append, map_singleton,
      map_singleton, next, if_neg (by omega)]
    simp only [length, UInt32.toBitVec_add]
    rw [shifted_eq _ 7 18 3 (by decide) (by decide) (by decide),
      shifted_eq _ 17 19 10 (by decide) (by decide) (by decide),
      read 16 (by decide), read 15 (by decide), read 7 (by decide), read 2 (by decide)]
    simp only [UInt32.reduceToNat]
    congr 2
    ac_rfl

theorem round_eq {block : List UInt8} {words : List UInt32} {t : ℕ}
    (word : (words.getD t 0).toBitVec = Fips.schedule block t) (s : State) :
    (round words s t).variables = Fips.round block s.variables t := by
  simp only [round, Fips.round, State.variables, UInt32.toBitVec_add, word, constant_eq]
  rw [rotations_eq _ 6 11 25 (by decide) (by decide) (by decide),
    rotations_eq _ 2 13 22 (by decide) (by decide) (by decide)]
  rfl

theorem transform_eq (s : State) {block : List UInt8} (whole : block.length = 64) :
    (sha256Transform s block).variables = Fips.compress s.variables block := by
  have rounds : ((range 64).foldl (round (wordsExtend^[48] ((range 16).map (wordAt block))))
      s).variables = (range 64).foldl (Fips.round block) s.variables := by
    refine foldl_rel (r := fun (s : State) v => s.variables = v) rfl fun t ht s v same => ?_
    subst same
    refine round_eq ?_ s
    rw [← getD_map (f := UInt32.toBitVec), words_eq whole 48]
    simp [mem_range.mp ht]
  unfold sha256Transform Fips.compress
  rw [← rounds]
  rfl

theorem wordBytes_eq (w : UInt32) : wordBytes w = Fips.encoded 4 w.toBitVec.toNat := by
  have byte : ∀ bits : UInt32, bits.toNat < 32 →
      (w >>> bits).toUInt8 = .ofNat (w.toNat / 2 ^ bits.toNat % 256) := by
    intro bits few
    apply UInt8.toNat_inj.mp
    simp [Nat.shiftRight_eq_div_pow, Nat.mod_eq_of_lt few]
  have low : w.toUInt8 = .ofNat (w.toNat % 256) := UInt8.toNat_inj.mp (by simp)
  rw [wordBytes, byte 24 (by decide), byte 16 (by decide), byte 8 (by decide), low]
  simp [Fips.encoded, Nat.div_div_eq_div_mul]

theorem digestOf_eq (s : State) : digestOf s = Fips.digest s.variables := by
  simp [digestOf, Fips.digest, wordBytes_eq, State.variables]

theorem lengthBytes_eq (n : ℕ) : lengthBytes n = Fips.encoded 8 n := by
  have byte : ∀ k, UInt8.ofNat (n >>> k) = .ofNat (n / 2 ^ k % 256) := by
    intro k
    apply UInt8.toNat_inj.mp
    simp [Nat.shiftRight_eq_div_pow]
  simp [lengthBytes, byte, Fips.encoded, Nat.div_div_eq_div_mul, range_succ]

def Holds (c : Buffer) (m : List UInt8) : Prop :=
  Held 64 sha256Transform sha256Init.state m c.state c.block

variable {m : List UInt8}

theorem absorb_holds (c : Buffer) (bs : List UInt8) (h : Holds c m) :
    Holds (absorb c bs) (m ++ bs) := by
  fun_induction absorb c bs generalizing m with
  | case1 c => simpa using h
  | case2 c bs some ih =>
    have hf := h.keep (bs.take (64 - c.block.length))
    rw [← take_append_drop (64 - c.block.length) bs, ← append_assoc, take_append_drop]
    apply ih
    unfold fill
    split_ifs with full
    · exact hf.full (by decide) full
    · exact hf

structure Reads (c : Context) (m : List UInt8) : Prop where
  holds : Holds c.toBuffer m
  length : c.length = m.length
  unfinished : c.finalized = false

variable {c : Context}

theorem Reads.update (h : Reads c m) (bs : List UInt8) (short : m.length + bs.length < 2 ^ 61) :
    ∃ c', sha256Update c bs = some c' ∧ Reads c' (m ++ bs) := by
  have hl : lengthLimit = 2 ^ 61 - 1 := by decide
  rw [sha256Update, if_neg (by simp [h.unfinished, h.length, hl]; omega)]
  exact ⟨_, rfl, absorb_holds _ bs h.holds, by rw [length_append, h.length], h.unfinished⟩

theorem Reads.updates (h : Reads c m) (p : List (List UInt8))
    (hs : m.length + p.flatten.length < 2 ^ 61) :
    ∃ c', p.foldlM sha256Update c = some c' ∧ Reads c' (m ++ p.flatten) := by
  induction p generalizing c m with
  | nil => exact ⟨c, rfl, by simpa using h⟩
  | cons bs r ih =>
    rw [flatten_cons, length_append] at hs
    obtain ⟨c1, h1, hr⟩ := h.update bs (by omega)
    obtain ⟨c2, h2, h3⟩ := ih hr (by rw [length_append]; omega)
    refine ⟨c2, ?_, by rwa [flatten_cons, ← append_assoc]⟩
    rw [foldlM_cons, h1]
    exact h2

theorem Reads.used (h : Reads c m) : m.length % 64 = c.block.length := by
  obtain ⟨l, rfl, ⟨k, hk⟩, -⟩ := h.holds
  have := c.room
  rw [length_append, hk]
  omega

/-- The buffered bytes and the padding are one block, or two. -/
theorem finalState_chain (c : Context) :
    chain 64 sha256Transform c.state (c.block ++ (0x80 :: replicate
      ((119 - c.block.length) % 64) 0 ++ lengthBytes (c.length * 8))) = finalState c := by
  have room := c.room
  have hn : (lengthBytes (c.length * 8)).length = 8 := by simp [lengthBytes]
  unfold finalState
  dsimp only
  split_ifs with hu
  · rw [length_append, length_singleton] at hu
    rw [← chain_block (f := sha256Transform) (n := 64) (by decide) (by simp [hn]),
      ← chain_block (f := sha256Transform) (n := 64) (by decide) (by simp; omega),
      ← chain_append (by decide) (by simp; omega), length_append, length_singleton,
      show (119 - c.block.length) % 64 = 64 - (c.block.length + 1) + 56 by omega, replicate_add]
    simp
  · rw [length_append, length_singleton] at hu
    rw [← chain_block (f := sha256Transform) (n := 64) (by decide) (by simp [hn]; omega),
      length_append, length_singleton,
      show (119 - c.block.length) % 64 = 56 - (c.block.length + 1) by omega]
    simp

theorem Reads.final (h : Reads c m) (short : m.length < 2 ^ 61) :
    (sha256Final c).map Prod.snd = some (Fips.sha256 m) := by
  have hl : lengthLimit = 2 ^ 61 - 1 := by decide
  have digested : digestOf (finalState c) = Fips.sha256 m := by
    rw [digestOf_eq, Fips.sha256, ← init_eq,
      ← chain_map State.variables fun s _ whole => transform_eq s whole, Fips.pad, append_assoc,
      ← lengthBytes_eq, Nat.mul_comm 8, (h.holds.keep _).chain_eq (by decide), h.used, ← h.length,
      finalState_chain]
  rw [sha256Final, if_neg (by simp [h.unfinished, h.length, hl]; omega), ← digested]
  rfl

/-- However a message is cut into updates, the digest is that of the whole message. -/
theorem sha256_streams (parts : List (List UInt8)) (short : parts.flatten.length < 2 ^ 61) :
    ((parts.foldlM sha256Update sha256Init).bind sha256Final).map Prod.snd =
      some (Fips.sha256 parts.flatten) := by
  have start : Reads sha256Init [] := ⟨held_nil, rfl, rfl⟩
  obtain ⟨c, run, read⟩ := start.updates parts (by simpa using short)
  rw [run]
  exact read.final short

-- a message of which the length needs a block of its own, with its published digest
def message : List UInt8 :=
  (range 14).flatMap fun i => (range 4).map fun j => .ofNat (0x61 + i + j)

def messageDigest : List UInt8 :=
  [0x24, 0x8d, 0x6a, 0x61, 0xd2, 0x06, 0x38, 0xb8, 0xe5, 0xc0, 0x26, 0x93, 0x0c, 0x3e,
    0x60, 0x39, 0xa3, 0x3c, 0xe4, 0x59, 0x64, 0xff, 0x21, 0x67, 0xf6, 0xec, 0xed, 0xd4,
    0x19, 0xdb, 0x06, 0xc1]

theorem cut_message_streams :
    (([message.take 5, [], message.drop 5].foldlM sha256Update sha256Init).bind
      sha256Final).map Prod.snd = some (Fips.sha256 message) ∧
    Fips.sha256 message = messageDigest := by
  have streamed := sha256_streams [message.take 5, [], message.drop 5] (by decide)
  have whole : [message.take 5, [], message.drop 5].flatten = message := by decide
  have computed : (([message.take 5, [], message.drop 5].foldlM sha256Update sha256Init).bind
      sha256Final).map Prod.snd = some messageDigest := by decide +kernel
  rw [whole] at streamed
  exact ⟨streamed, Option.some_inj.mp (streamed.symm.trans computed)⟩

end Yvex.Sha256Stream
