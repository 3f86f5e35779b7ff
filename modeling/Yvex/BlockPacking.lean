import Yvex.RowMemory

/-!
# Packing of quantized blocks

An encoder chooses integer codes for the elements of a block and packs them into bytes;
a decoder takes the codes out of the bytes. The numeric search behind the codes is left
open: every value it could round to is admitted.
-/

set_option autoImplicit false

namespace Yvex.BlockPacking

open RowMemory

def pack (w : ℕ) : List ℕ → ℕ
  | [] => 0
  | x :: xs => x ||| pack w xs <<< w

def field (w word j : ℕ) : ℕ := word >>> (w * j) &&& (2 ^ w - 1)

section

variable {w x j : ℕ} {xs : List ℕ}

theorem pack_cons (hx : x < 2 ^ w) : pack w (x :: xs) = x + 2 ^ w * pack w xs := by
  rw [pack, Nat.or_comm, Nat.shiftLeft_eq, mul_comm, ← Nat.two_pow_add_eq_or_of_lt hx, add_comm]

theorem pack_shift (h : ∀ x ∈ xs, x < 2 ^ w) : pack w xs >>> (w * j) = pack w (xs.drop j) := by
  induction xs generalizing j with
  | nil => simp [pack]
  | cons x xs ih =>
    obtain ⟨hx, hr⟩ := List.forall_mem_cons.mp h
    cases j with
    | zero => rfl
    | succ j =>
      rw [pack_cons hx, Nat.mul_succ, Nat.add_comm (w * j), Nat.shiftRight_add,
        Nat.shiftRight_eq_div_pow _ w, Nat.add_mul_div_left _ _ (by positivity),
        Nat.div_eq_of_lt hx, Nat.zero_add, ih hr, List.drop_succ_cons]

theorem field_pack (h : ∀ x ∈ xs, x < 2 ^ w) : field w (pack w xs) j = xs.getD j 0 := by
  rw [field, pack_shift h, Nat.and_two_pow_sub_one_eq_mod, List.getD_eq_getElem?_getD,
    ← List.head?_drop]
  cases hd : xs.drop j with
  | nil => simp [pack]
  | cons x =>
    have hx := h x (List.mem_of_mem_drop (hd ▸ List.mem_cons_self))
    rw [pack_cons hx, Nat.add_mul_mod_self_left, Nat.mod_eq_of_lt hx]
    rfl

theorem field_map (n : ℕ) {f : ℕ → ℕ} (hf : ∀ i, f i < 2 ^ w) (hj : j < n) :
    field w (pack w ((List.range n).map f)) j = f j := by
  rw [field_pack (List.forall_mem_map.mpr fun i _ ↦ hf i)]
  simp [hj]

theorem nibbles {a b : ℕ} (ha : a < 2 ^ 4) (hb : b < 2 ^ 4) :
    pack 4 [a, b] &&& 0x0f = a ∧ pack 4 [a, b] >>> 4 = b := by
  have h : ∀ x ∈ [a, b], x < 2 ^ 4 := by simpa using ⟨ha, hb⟩
  exact ⟨field_pack (j := 0) h, (pack_shift (j := 1) h).trans (by simp [pack])⟩

end

def clamp (low high value : ℤ) : ℤ := max low (min value high)

def code (high : ℕ) (value : ℤ) : ℕ := (clamp 0 high value).toNat

theorem code_lt (limit : ℕ) {w : ℕ} (h : limit < 2 ^ w) (v : ℤ) : code limit v < 2 ^ w := by
  unfold code clamp
  omega

theorem clamp_inside {low high v : ℤ} (hl : low ≤ v) (hh : v ≤ high) : clamp low high v = v := by
  rw [clamp, min_eq_left hh, max_eq_right hl]

theorem code_inside {high v : ℕ} (h : v ≤ high) : code high v = v := by
  rw [code, clamp_inside (Int.natCast_nonneg v) (Int.ofNat_le.mpr h), Int.toNat_natCast]

def storeU16 (memory : ℕ → ℕ) (base word : ℕ) : ℕ → ℕ := writeBlock memory base 2 (field 8 word)

/-! Q8_0: a scale and 32 signed bytes. -/

def encodeQ80 (scale : ℕ) (quantized : ℕ → ℤ) : ℕ → ℕ :=
  writeBlock (storeU16 (fun _ ↦ 0) 0 scale) 2 32 fun index ↦
    let value := clamp (-127) 127 (quantized index)
    (if value < 0 then 256 + value else value).toNat

def decodeQ80 (encoded : ℕ → ℕ) (index : ℕ) : ℤ :=
  if encoded (2 + index) ≤ 127 then encoded (2 + index) else encoded (2 + index) - 256

/-! MXFP4: an exponent and sixteen bytes of two codes. -/

def encodeMxfp4 (exponent : ℕ) (best : ℕ → Fin 16) : ℕ → ℕ :=
  writeBlock (fun _ ↦ exponent) 1 16 fun index ↦ pack 4 [best index, best (index + 16)]

def decodeMxfp4 (encoded : ℕ → ℕ) (index : ℕ) : ℕ :=
  if index < 16 then encoded (1 + index) &&& 0x0f else encoded (1 + (index - 16)) >>> 4

/-! Q2_K: sixteen bytes of scale and minimum codes, 64 bytes of four codes each and
two scales. -/

def encodeQ2k (scale minimum quants : ℕ → ℤ) (globalScale globalMinimum : ℕ) : ℕ → ℕ :=
  let encoded := storeU16 (storeU16 (fun _ ↦ 0) 80 globalScale) 82 globalMinimum
  let encoded := writeBlock encoded 0 16 fun subblock ↦
    pack 4 [code 15 (scale subblock), code 15 (minimum subblock)]
  writeBlock encoded 16 64 fun byte ↦
    pack 2 ((List.range 4).map fun g ↦ code 3 (quants (byte / 32 * 128 + byte % 32 + 32 * g)))

def decodeQ2k (encoded : ℕ → ℕ) (index : ℕ) : ℕ × ℕ × ℕ :=
  let subblock := index / 16
  let half := subblock / 8
  let group := subblock % 8 / 2
  let pair := subblock % 2
  (encoded subblock &&& 0x0f, encoded subblock >>> 4,
    encoded (16 + half * 32 + (pair * 16 + index % 16)) >>> (2 * group) &&& 3)

/-! IQ2_XXS: a scale and eight groups of two words. -/

def quantIq2SignMask (low : ℕ) : ℕ :=
  let rec parity : ℕ → ℕ → ℕ → ℕ
    | 0, _, parity => parity
    | turns + 1, value, sum =>
      if value = 0 then sum else parity turns (value >>> 1) (sum ^^^ (value &&& 1))
  low ||| parity low low 0 <<< 7

def negativeCount (mask : ℕ) : ℕ := ((List.range 8).filter mask.testBit).length

def evenMask (mask least : ℕ) : ℕ :=
  -- The signs of eight lanes, made even by turning the lane of least loss.
  if negativeCount mask &&& 1 ≠ 0 then mask ^^^ 1 <<< least else mask

def storedSigns (mask : ℕ) : ℕ → ℕ
  | 0 => mask &&& 127
  | turns + 1 => (0xffffffff ^^^ storedSigns mask turns) &&& 127

def laneSigns (mask : ℕ) : ℕ → ℕ
  | 0 => mask
  | turns + 1 => laneSigns mask turns ^^^ 0xff

structure Iq2Group where
  grid : ℕ → Fin 256
  mask : ℕ → Fin 256
  least : ℕ → Fin 8
  turns : ℕ

def Iq2Group.even (group : Iq2Group) (lane : ℕ) : ℕ := evenMask (group.mask lane) (group.least lane)

def Iq2Group.signs (group : Iq2Group) (lane : ℕ) : ℕ := storedSigns (group.even lane) group.turns

def groupScale (scale : Option (ℕ × (ℕ → ℤ))) (group : ℕ) : ℕ :=
  scale.elim 0 fun found ↦ code 15 (found.2 group)

def iq2Word (groups : ℕ → Iq2Group) (scale : Option (ℕ × (ℕ → ℤ))) (index : ℕ) : ℕ :=
  let group := groups (index / 2)
  if index % 2 = 0 then pack 8 ((List.range 4).map fun lane ↦ group.grid lane)
  else pack 7 ((List.range 4).map group.signs ++ [groupScale scale (index / 2)])

def encodeIq2Xxs (groups : ℕ → Iq2Group) (scale : Option (ℕ × (ℕ → ℤ))) : ℕ → ℕ :=
  -- Without a positive scale neither the scale nor the group codes are stored.
  let encoded := scale.elim (fun _ ↦ 0) fun found ↦ storeU16 (fun _ ↦ 0) 0 found.1
  writeBlock encoded 2 64 fun byte ↦ field 8 (iq2Word groups scale (byte / 4)) (byte % 4)

def loadU32 (encoded : ℕ → ℕ) (base : ℕ) : ℕ :=
  pack 8 [encoded base, encoded (base + 1), encoded (base + 2), encoded (base + 3)]

def decodeIq2Xxs (encoded : ℕ → ℕ) (group subgroup : ℕ) : ℕ × ℕ × ℕ :=
  let signsAndScale := loadU32 encoded (6 + group * 8)
  (loadU32 encoded (2 + group * 8) >>> (8 * subgroup) &&& 0xff, signsAndScale >>> 28,
    quantIq2SignMask (signsAndScale >>> (7 * subgroup) &&& 127))

/-! What the decoder extracts is what the encoder packed, for every assignment of codes. A
value in the range of the codes is its own code. -/

def CodesKept : Prop :=
  (∀ v : ℤ, -127 ≤ v → v ≤ 127 → clamp (-127) 127 v = v) ∧
  ∀ high v : ℕ, v ≤ high → code high v = v

def Q80Lossless : Prop := ∀ scale quantized, ∀ i < 32,
  decodeQ80 (encodeQ80 scale quantized) i = clamp (-127) 127 (quantized i)

def Mxfp4Lossless : Prop := ∀ exponent best, ∀ i < 32,
  decodeMxfp4 (encodeMxfp4 exponent best) i = best i

def Q2kLossless : Prop := ∀ scale minimum quants globalScale globalMinimum, ∀ i < 256,
  decodeQ2k (encodeQ2k scale minimum quants globalScale globalMinimum) i =
    (code 15 (scale (i / 16)), code 15 (minimum (i / 16)), code 3 (quants i))

def Iq2XxsLossless : Prop := ∀ groups scale, ∀ g < 8, ∀ l < 4,
  decodeIq2Xxs (encodeIq2Xxs groups scale) g l =
    (((groups g).grid l).1, groupScale scale g, laneSigns ((groups g).even l) (groups g).turns)

theorem q80_lossless : Q80Lossless := by
  intro s q i hi
  have hc : -127 ≤ clamp (-127) 127 (q i) ∧ clamp (-127) 127 (q i) ≤ 127 := by
    unfold clamp
    omega
  rw [decodeQ80, encodeQ80, writeBlock_inside (by omega) (by omega), Nat.add_sub_cancel_left]
  dsimp only
  split_ifs <;> omega

theorem mxfp4_lossless : Mxfp4Lossless := by
  intro e b i hi
  unfold decodeMxfp4 encodeMxfp4
  split_ifs with h
  · rw [writeBlock_inside (by omega) (by omega), Nat.add_sub_cancel_left]
    exact (nibbles (b i).2 (b (i + 16)).2).1
  · rw [writeBlock_inside (by omega) (by omega), Nat.add_sub_cancel_left,
      Nat.sub_add_cancel (by omega)]
    exact (nibbles (b (i - 16)).2 (b i).2).2

theorem q2k_lossless : Q2kLossless := by
  intro s m q gs gm i hi
  obtain ⟨hs, hm⟩ :=
    nibbles (code_lt 15 (by decide) (s (i / 16))) (code_lt 15 (by decide) (m (i / 16)))
  unfold decodeQ2k encodeQ2k
  dsimp only
  rw [writeBlock_outside _ _ (by omega), writeBlock_inside (by omega) (by omega),
    writeBlock_inside (by omega) (by omega), Nat.sub_zero, hs, hm]
  refine Prod.ext rfl (Prod.ext rfl ?_)
  refine (field_map 4 (w := 2) (fun g ↦ code_lt 3 (by decide) _) (by omega)).trans ?_
  -- the plane of an element is the place of its pair of sub-blocks in the half
  congr 2
  omega

theorem sign_recovered : ∀ m < 256, negativeCount m % 2 = 0 → quantIq2SignMask (m &&& 127) = m := by
  decide +kernel

theorem even_flip : ∀ m < 256, ∀ l < 8,
    negativeCount (evenMask m l) % 2 = 0 ∧ evenMask m l < 256 := by
  decide +kernel

theorem even_invert : ∀ m < 256, negativeCount m % 2 = 0 → negativeCount (m ^^^ 0xff) % 2 = 0 ∧
    m ^^^ 0xff < 256 ∧ (0xffffffff ^^^ (m &&& 127)) &&& 127 = (m ^^^ 0xff) &&& 127 := by
  decide +kernel

theorem storedSigns_lt (m n : ℕ) : storedSigns m n < 2 ^ 7 := by
  cases n with
  | zero | succ => exact Nat.and_le_right.trans_lt (by decide)

theorem groupScale_lt (c : Option (ℕ × (ℕ → ℤ))) (g : ℕ) : groupScale c g < 2 ^ 4 := by
  cases c with
  | none => exact Nat.two_pow_pos 4
  | some => exact code_lt 15 (by decide) _

section

variable (groups : ℕ → Iq2Group) (c : Option (ℕ × (ℕ → ℤ)))

theorem signs_recovered (group : Iq2Group) (l : ℕ) :
    quantIq2SignMask (group.signs l) = laneSigns (group.even l) group.turns := by
  obtain ⟨he, hm⟩ := even_flip _ (group.mask l).2 _ (group.least l).2
  have h : ∀ n, laneSigns (group.even l) n < 256 ∧
      negativeCount (laneSigns (group.even l) n) % 2 = 0 ∧
      storedSigns (group.even l) n = laneSigns (group.even l) n &&& 127 := by
    intro n
    induction n with
    | zero => exact ⟨hm, he, rfl⟩
    | succ n ih =>
      obtain ⟨hn, hl, hs⟩ := even_invert _ ih.1 ih.2.1
      exact ⟨hl, hn, by rw [storedSigns, ih.2.2, hs]; rfl⟩
  obtain ⟨hl, hn, hs⟩ := h group.turns
  rw [Iq2Group.signs, hs, sign_recovered _ hl hn]

theorem signs_lt (group : Iq2Group) (g : ℕ) :
    ∀ x ∈ (List.range 4).map group.signs ++ [groupScale c g], x < 2 ^ 7 := by
  rw [List.forall_mem_append, List.forall_mem_map, List.forall_mem_singleton]
  exact ⟨fun l _ ↦ storedSigns_lt _ _, (groupScale_lt c g).trans (by decide)⟩

theorem scale_shift (group : Iq2Group) (g : ℕ) :
    pack 7 ((List.range 4).map group.signs ++ [groupScale c g]) >>> 28 = groupScale c g :=
  (pack_shift (j := 4) (signs_lt c group g)).trans (by simp [pack])

theorem iq2Word_lt (i : ℕ) : iq2Word groups c i < 2 ^ 32 := by
  unfold iq2Word
  split_ifs
  · have h := pack_shift (w := 8) (j := 4) (List.forall_mem_map.mpr
      fun l (_ : l ∈ List.range 4) ↦ ((groups (i / 2)).grid l).2)
    rw [Nat.shiftRight_eq_div_pow] at h
    exact Nat.lt_of_div_eq_zero (by decide) h
  · have h := scale_shift c (groups (i / 2)) (i / 2)
    have hk := groupScale_lt c (i / 2)
    rw [Nat.shiftRight_eq_div_pow] at h
    dsimp only
    omega

theorem load_word {i : ℕ} (hi : i < 16) :
    loadU32 (encodeIq2Xxs groups c) (2 + 4 * i) = iq2Word groups c i := by
  have hb : ∀ j < 4, encodeIq2Xxs groups c (2 + 4 * i + j) =
      iq2Word groups c i / 2 ^ (8 * j) % 2 ^ 8 := by
    intro j hj
    rw [encodeIq2Xxs, writeBlock_inside (by omega) (by omega), field,
      Nat.and_two_pow_sub_one_eq_mod, Nat.shiftRight_eq_div_pow,
      show (2 + 4 * i + j - 2) / 4 = i by omega, show (2 + 4 * i + j - 2) % 4 = j by omega]
  have hw := iq2Word_lt groups c i
  have h0 : encodeIq2Xxs groups c (2 + 4 * i) = _ := hb 0 (by decide)
  rw [loadU32, h0, hb 1 (by decide), hb 2 (by decide), hb 3 (by decide)]
  iterate 4 rw [pack_cons (Nat.mod_lt _ (by decide))]
  rw [pack]
  omega

/-- Grid indices, group scales and lane signs come back from a packed block. -/
theorem iq2Xxs_lossless : Iq2XxsLossless := by
  intro hgr c g hg l hl
  have h0 : iq2Word hgr c (2 * g) = pack 8 ((List.range 4).map fun l ↦ (hgr g).grid l) := by
    simp [iq2Word]
  have h1 : iq2Word hgr c (2 * g + 1) =
      pack 7 ((List.range 4).map (hgr g).signs ++ [groupScale c g]) := by
    rw [iq2Word, if_neg (by omega), show (2 * g + 1) / 2 = g by omega]
  have hf : field 7 (pack 7 ((List.range 4).map (hgr g).signs ++ [groupScale c g])) l =
      (hgr g).signs l := by
    rw [field_pack (signs_lt c _ _)]
    interval_cases l <;> rfl
  unfold decodeIq2Xxs
  rw [show 2 + g * 8 = 2 + 4 * (2 * g) by omega, show 6 + g * 8 = 2 + 4 * (2 * g + 1) by omega,
    load_word _ _ (by omega), load_word _ _ (by omega), h0, h1]
  refine Prod.ext (field_map 4 (fun l ↦ ((hgr g).grid l).2) hl) (Prod.ext (scale_shift c _ g) ?_)
  exact (congrArg quantIq2SignMask hf).trans (signs_recovered _ _)

end

/-- Every decoder returns the codes its encoder packed, and values within the range of the
codes come back as they are. -/
theorem packing_lossless :
    CodesKept ∧ Q80Lossless ∧ Mxfp4Lossless ∧ Q2kLossless ∧ Iq2XxsLossless :=
  ⟨⟨fun _ ↦ clamp_inside, fun _ _ ↦ code_inside⟩, q80_lossless, mxfp4_lossless, q2k_lossless,
    iq2Xxs_lossless⟩

-- the signs of a group are turned as often as its number says
def mixedGroups (g : ℕ) : Iq2Group where
  grid l := .ofNat 256 (57 * g + l)
  mask l := .ofNat 256 (83 * g + 29 * l)
  least l := .ofNat 8 (g + l)
  turns := g

theorem mixed_blocks_recovered :
    (List.range 32).map (decodeQ80 (encodeQ80 15360 fun i ↦ 8 * i - 124)) =
      ((List.range 32).map fun i : ℕ ↦ 8 * (i : ℤ) - 124) ∧
    (List.range 32).map (decodeMxfp4 (encodeMxfp4 127 fun i ↦ .ofNat 16 (5 * i))) =
      ((List.range 32).map fun i ↦ 5 * i % 16) ∧
    (List.range 256).map (decodeQ2k (encodeQ2k (fun s ↦ s) (fun s ↦ (15 - s : ℕ))
      (fun i ↦ (i % 4 : ℕ)) 1 2)) =
      ((List.range 256).map fun i ↦ (i / 16, 15 - i / 16, i % 4)) ∧
    decodeIq2Xxs (encodeIq2Xxs mixedGroups (some (1, fun g ↦ 2 * g))) 3 2 =
      (173, 6, 204) := by
  obtain ⟨⟨signed, kept⟩, q80, mxfp4, q2k, iq2⟩ := packing_lossless
  refine ⟨List.map_congr_left fun i hi ↦ ?_, List.map_congr_left fun i hi ↦ ?_,
    List.map_congr_left fun i hi ↦ ?_, ?_⟩
  · have hi := List.mem_range.mp hi
    rw [q80 _ _ i hi, signed _ (by omega) (by omega)]
  · exact mxfp4 _ _ i (List.mem_range.mp hi)
  · have hi := List.mem_range.mp hi
    rw [q2k _ _ _ _ _ i hi, kept _ _ (by omega), kept _ _ (by omega), kept _ _ (by omega)]
  · rw [iq2 _ _ 3 (by decide) 2 (by decide)]
    decide

end Yvex.BlockPacking
