import Mathlib.Tactic

/-!
# UTF-8 in the tokenizer

The scanner reads one code point after the other. It accepts exactly the
encodings of Unicode scalar values, and a text cut off inside a code point
leaves a tail of at most three bytes that the scanner can tell from malformed
bytes.
-/

set_option autoImplicit false

namespace Yvex.TokenizerUtf8

open List Nat

variable (p : ℕ) (byte : UInt8) (ch : Char) (t : List Char)

def unitLead (first : UInt8) : Option (ℕ × ℕ) :=
  if 0xc2 ≤ first ∧ first ≤ 0xdf then some ((first &&& 0x1f).toNat, 1)
  else if 0xe0 ≤ first ∧ first ≤ 0xef then some ((first &&& 0x0f).toNat, 2)
  else if 0xf0 ≤ first ∧ first ≤ 0xf4 then some ((first &&& 0x07).toNat, 3)
  else none

def continuation (byte : UInt8) : Bool := byte &&& 0xc0 == 0x80

def takeUnits : ℕ → ℕ → List UInt8 → Option (ℕ × List UInt8)
  | 0, value, rest => some (value, rest)
  | _ + 1, _, [] => none
  | needed + 1, value, byte :: rest =>
    if continuation byte then takeUnits needed (value <<< 6 ||| (byte &&& 0x3f).toNat) rest
    else none

def refusedValue (needed value : ℕ) : Bool :=
  -- Overlong forms, values above the last code point and surrogates.
  (needed == 2 && decide (value < 0x800)) || (needed == 3 && decide (value < 0x10000)) ||
    decide (value > 0x10ffff) || (decide (0xd800 ≤ value) && decide (value ≤ 0xdfff))

def utf8Next : List UInt8 → Option (ℕ × List UInt8)
  | [] => none
  | first :: rest =>
    if first ≤ 0x7f then some (first.toNat, rest)
    else match unitLead first with
      | none => none
      | some (payload, needed) =>
        match takeUnits needed payload rest with
        | none => none
        | some (value, after) => if refusedValue needed value then none else some (value, after)

def utf8Scan : ℕ → List UInt8 → List UInt8
  | 0, rest => rest
  | fuel + 1, rest =>
    match utf8Next rest with
    | none => rest
    | some (_, after) => utf8Scan fuel after

def utf8Validate (bytes : List UInt8) : Bool := (utf8Scan bytes.length bytes).isEmpty

def utf8TailValid : List UInt8 → Bool
  | [] => false
  | first :: rest =>
    decide (rest.length + 1 ≤ 3) &&
      match unitLead first with
      | none => false
      | some (_, needed) => decide (rest.length < needed) && rest.all continuation

def utf8Prefix (bytes : List UInt8) : Option ℕ :=
  let rest := utf8Scan bytes.length bytes
  if rest.isEmpty || utf8TailValid rest then some (bytes.length - rest.length) else none

variable {v : ℕ}

def joined (payload : ℕ) (units : List UInt8) : ℕ :=
  units.foldl (fun value byte => value * 64 + byte.toNat % 64) payload

inductive Encoded : List UInt8 → ℕ → Prop where
  | single (first : UInt8) (hfirst : first ≤ 0x7f) : Encoded [first] first.toNat
  | several (first : UInt8) (units : List UInt8) (payload : ℕ)
      (hlead : unitLead first = some (payload, units.length))
      (hunits : ∀ byte ∈ units, continuation byte = true)
      (hvalue : refusedValue units.length (joined payload units) = false) :
      Encoded (first :: units) (joined payload units)

theorem low_bits : (byte &&& 0x3f).toNat = byte.toNat % 64 ∧
    (byte &&& 0x1f).toNat = byte.toNat % 32 ∧ (byte &&& 0x0f).toNat = byte.toNat % 16 ∧
    (byte &&& 0x07).toNat = byte.toNat % 8 := by
  refine ⟨?_, ?_, ?_, ?_⟩ <;> rw [UInt8.toNat_and]
  · exact and_two_pow_sub_one_eq_mod byte.toNat 6
  · exact and_two_pow_sub_one_eq_mod byte.toNat 5
  · exact and_two_pow_sub_one_eq_mod byte.toNat 4
  · exact and_two_pow_sub_one_eq_mod byte.toNat 3

theorem shifted (v : ℕ) (b : UInt8) : v <<< 6 ||| (b &&& 0x3f).toNat = v * 64 + b.toNat % 64 := by
  have hl : b.toNat % 64 < 2 ^ 6 := mod_lt _ (by decide)
  rw [(low_bits b).1, ← shiftLeft_add_eq_or_of_lt hl, shiftLeft_eq]

variable {rs bs f : List UInt8}

theorem takeUnits_iff {n p : ℕ} {a : List UInt8} :
    takeUnits n p rs = some (v, a) ↔ ∃ us, us.length = n ∧ rs = us ++ a ∧
        (∀ b ∈ us, continuation b = true) ∧ v = joined p us := by
  induction n generalizing p rs with
  | zero =>
    constructor
    · intro h
      cases h
      exact ⟨[], rfl, rfl, by simp, rfl⟩
    · rintro ⟨us, hl, rfl, _, rfl⟩
      rw [eq_nil_of_length_eq_zero hl]
      rfl
  | succ n ih =>
    cases rs with
    | nil =>
      constructor
      · nofun
      · rintro ⟨us, hl, hr, _, _⟩
        have hnil := (append_eq_nil_iff.mp hr.symm).1
        rw [hnil] at hl
        cases hl
    | cons b rs =>
      rw [takeUnits, shifted]
      split
      · rename_i hb
        rw [ih]
        constructor
        · rintro ⟨us, hl, hr, hu, hv⟩
          refine ⟨b :: us, by simp [hl], by simp [hr], ?_, hv⟩
          simpa [hb] using hu
        · rintro ⟨us, hl, hr, hu, hv⟩
          cases us with
          | nil => cases hl
          | cons f us =>
            obtain ⟨rfl, hbeh⟩ := cons.inj hr
            exact ⟨us, succ.inj hl, hbeh, fun o ho => hu o (mem_cons_of_mem _ ho), hv⟩
      · rename_i hb
        constructor
        · nofun
        · rintro ⟨us, hl, hr, hu, hv⟩
          cases us with
          | nil => cases hl
          | cons =>
            obtain ⟨rfl, _⟩ := cons.inj hr
            exact absurd (hu _ mem_cons_self) hb

theorem unitLead_high {f : UInt8} {p n : ℕ} (h : unitLead f = some (p, n)) : ¬f ≤ 0x7f := by
  intro hl
  have hle : f.toNat ≤ 0x7f := hl
  simp only [unitLead, UInt8.le_iff_toNat_le] at h
  rw [if_neg, if_neg, if_neg] at h
  · cases h
  all_goals
    rintro ⟨hge, _⟩
    have : _ ≤ f.toNat := hge
    simp at this
    omega

/-- The scanner reads exactly one encoded code point. -/
theorem utf8Next_iff {a : List UInt8} : utf8Next bs = some (v, a) ↔
      ∃ u, Encoded u v ∧ bs = u ++ a := by
  cases bs with
  | nil =>
    constructor
    · nofun
    · rintro ⟨u, hh, hb⟩
      have hnil := (append_eq_nil_iff.mp hb.symm).1
      subst hnil
      cases hh
  | cons f rs =>
    by_cases hf : f ≤ 0x7f
    · rw [utf8Next, if_pos hf]
      constructor
      · intro h
        cases h
        exact ⟨[f], .single f hf, rfl⟩
      · rintro ⟨u, hh, hb⟩
        cases hh with
        | single =>
          obtain ⟨rfl, rfl⟩ := cons.inj hb
          rfl
        | several o us p hl =>
          obtain ⟨rfl, _⟩ := cons.inj hb
          exact absurd hf (unitLead_high hl)
    · rw [utf8Next, if_neg hf]
      constructor
      · intro h
        split at h
        · cases h
        rename_i p n hl
        split at h
        · cases h
        rename_i ht
        split at h
        · cases h
        rename_i hv
        cases h
        obtain ⟨us, rfl, rfl, hu, rfl⟩ := takeUnits_iff.mp ht
        exact ⟨f :: us, .several f us p hl hu (by simpa using hv), rfl⟩
      · rintro ⟨u, hh, hb⟩
        cases hh with
        | single o ho =>
          obtain ⟨rfl, _⟩ := cons.inj hb
          exact absurd ho hf
        | several o us p hl hu hv =>
          obtain ⟨rfl, rfl⟩ := cons.inj hb
          have ht : takeUnits us.length p (us ++ a) = some (joined p us, a) :=
            takeUnits_iff.mpr ⟨us, rfl, rfl, hu, rfl⟩
          simp [hl, ht, hv]

section Scalars

theorem continuation_iff : continuation byte = true ↔ 0x80 ≤ byte.toNat ∧ byte.toNat < 0xc0 := by
  have ha : ∀ n < 256, continuation (UInt8.ofNat n) = true ↔
      0x80 ≤ (UInt8.ofNat n).toNat ∧ (UInt8.ofNat n).toNat < 0xc0 := by
    decide +kernel
  simpa using ha byte.toNat byte.toNat_lt

theorem unitLead_iff (first : UInt8) (p n : ℕ) : unitLead first = some (p, n) ↔
      (0xc2 ≤ first.toNat ∧ first.toNat ≤ 0xdf ∧ p = first.toNat % 32 ∧ n = 1) ∨
      (0xe0 ≤ first.toNat ∧ first.toNat ≤ 0xef ∧ p = first.toNat % 16 ∧ n = 2) ∨
      (0xf0 ≤ first.toNat ∧ first.toNat ≤ 0xf4 ∧ p = first.toNat % 8 ∧ n = 3) := by
  obtain ⟨_, h32, h16, h8⟩ := low_bits first
  have hc2 : (0xc2 : UInt8).toNat = 0xc2 := rfl
  have hdf : (0xdf : UInt8).toNat = 0xdf := rfl
  have he0 : (0xe0 : UInt8).toNat = 0xe0 := rfl
  have hef : (0xef : UInt8).toNat = 0xef := rfl
  have hf0 : (0xf0 : UInt8).toNat = 0xf0 := rfl
  have hf4 : (0xf4 : UInt8).toNat = 0xf4 := rfl
  simp only [unitLead, UInt8.le_iff_toNat_le, hc2, hdf, he0, hef, hf0, hf4, h32, h16, h8]
  split_ifs <;> simp only [Option.some.injEq, Prod.mk.injEq, false_iff] <;> omega

def encodeScalar (value : ℕ) : List UInt8 :=
  if value ≤ 0x7f then [UInt8.ofNat value]
  else if value ≤ 0x7ff then
    [UInt8.ofNat (value / 64 % 32 + 192), UInt8.ofNat (value % 64 + 128)]
  else if value ≤ 0xffff then
    [UInt8.ofNat (value / 4096 % 16 + 224), UInt8.ofNat (value / 64 % 64 + 128),
      UInt8.ofNat (value % 64 + 128)]
  else
    [UInt8.ofNat (value / 262144 % 8 + 240), UInt8.ofNat (value / 4096 % 64 + 128),
      UInt8.ofNat (value / 64 % 64 + 128), UInt8.ofNat (value % 64 + 128)]

theorem byte_eq {b : UInt8} (h : b.toNat = v) : UInt8.ofNat v = b := by
  rw [← h]
  exact UInt8.ofNat_toNat

theorem refusedValue_iff {n : ℕ} : refusedValue n v = false ↔
    (n = 2 → 0x800 ≤ v) ∧ (n = 3 → 0x10000 ≤ v) ∧ v ≤ 0x10ffff ∧ ¬(0xd800 ≤ v ∧ v ≤ 0xdfff) := by
  simp [refusedValue, and_assoc]

variable {unit : List UInt8}

/-- What the scanner accepts is the shortest encoding of a scalar value. -/
theorem Encoded.scalar (h : Encoded unit v) : v.isValidChar ∧ encodeScalar v = unit := by
  cases h with
  | single f hf =>
    have hle : f.toNat ≤ 0x7f := hf
    refine ⟨by omega, ?_⟩
    rw [encodeScalar, if_pos hle, UInt8.ofNat_toNat]
  | several f us p hld hu hv =>
    obtain ⟨htwo, ht, hm, hsur⟩ := refusedValue_iff.mp hv
    refine ⟨by omega, ?_⟩
    rcases (unitLead_iff _ _ _).mp hld with ⟨hlo, hh, rfl, hl⟩ |
      ⟨hlo, hh, rfl, hl⟩ | ⟨hlo, hh, rfl, hl⟩
    · obtain ⟨b, rfl⟩ := length_eq_one_iff.mp hl
      have hb := (continuation_iff b).mp (hu b (by simp))
      simp only [joined, foldl_cons, foldl_nil]
      rw [encodeScalar, if_neg (by omega), if_pos (by omega)]
      simp only [cons.injEq, and_true]
      exact ⟨byte_eq (by omega), byte_eq (by omega)⟩
    · obtain ⟨b, c, rfl⟩ := length_eq_two.mp hl
      have hb := (continuation_iff b).mp (hu b (by simp))
      have hc := (continuation_iff c).mp (hu c (by simp))
      have hs := htwo rfl
      simp only [joined, foldl_cons, foldl_nil] at hs ⊢
      rw [encodeScalar, if_neg (by omega), if_neg (by omega), if_pos (by omega)]
      simp only [cons.injEq, and_true]
      exact ⟨byte_eq (by omega), byte_eq (by omega), byte_eq (by omega)⟩
    · obtain ⟨b, c, d, rfl⟩ := length_eq_three.mp hl
      have hb := (continuation_iff b).mp (hu b (by simp))
      have hc := (continuation_iff c).mp (hu c (by simp))
      have hd := (continuation_iff d).mp (hu d (by simp))
      have hs := ht rfl
      simp only [joined, foldl_cons, foldl_nil] at hs hm ⊢
      rw [encodeScalar, if_neg (by omega), if_neg (by omega), if_neg (by omega)]
      simp only [cons.injEq, and_true]
      exact ⟨byte_eq (by omega), byte_eq (by omega), byte_eq (by omega), byte_eq (by omega)⟩

theorem ofNat_toNat (h : v < 256) : (UInt8.ofNat v).toNat = v := by
  exact mod_eq_of_lt h

theorem continuation_unit (v : ℕ) : continuation (UInt8.ofNat (v % 64 + 128)) = true := by
  rw [continuation_iff, ofNat_toNat (by omega)]
  omega

theorem joined_cons (v : ℕ) (us : List UInt8) : joined p (UInt8.ofNat (v % 64 + 128) :: us) =
      joined (p * 64 + v % 64) us := by
  have hl : (UInt8.ofNat (v % 64 + 128)).toNat % 64 = v % 64 := by
    rw [ofNat_toNat (by omega)]
    omega
  rw [joined, foldl_cons, hl]
  rfl

theorem joined_nil : joined p [] = p := rfl

theorem encoded_of_joined {p : ℕ} {lead : UInt8} {us : List UInt8}
    (hl : unitLead lead = some (p, us.length)) (hu : ∀ byte ∈ us, continuation byte = true)
    (hjoi : joined p us = v) (hv : refusedValue us.length v = false) :
    Encoded (lead :: us) v := by
  subst hjoi
  exact .several lead us p hl hu hv

theorem encoded_scalar (h : v.isValidChar) : Encoded (encodeScalar v) v := by
  unfold encodeScalar
  split_ifs with ho htwo hthree
  · have hf : UInt8.ofNat v ≤ 0x7f := by
      rw [UInt8.le_iff_toNat_le, ofNat_toNat (by omega)]
      exact ho
    have hs := Encoded.single (UInt8.ofNat v) hf
    rw [ofNat_toNat (by omega)] at hs
    exact hs
  · refine encoded_of_joined ((unitLead_iff _ (v / 64) 1).mpr ?_) ?_ ?_ ?_
    · rw [ofNat_toNat (by omega)]
      omega
    · simp only [mem_singleton, forall_eq, continuation_unit]
    · rw [joined_cons, joined_nil]
      omega
    · exact refusedValue_iff.mpr (by simp; omega)
  · refine encoded_of_joined ((unitLead_iff _ (v / 4096) 2).mpr ?_) ?_ ?_ ?_
    · rw [ofNat_toNat (by omega)]
      omega
    · simp only [mem_cons, not_mem_nil, or_false, forall_eq_or_imp, forall_eq,
        continuation_unit, and_self]
    · rw [joined_cons, joined_cons, joined_nil]
      omega
    · exact refusedValue_iff.mpr (by simp; omega)
  · refine encoded_of_joined ((unitLead_iff _ (v / 262144) 3).mpr ?_) ?_ ?_ ?_
    · rw [ofNat_toNat (by omega)]
      omega
    · simp only [mem_cons, not_mem_nil, or_false, forall_eq_or_imp, forall_eq,
        continuation_unit, and_self]
    · rw [joined_cons, joined_cons, joined_cons, joined_nil]
      omega
    · exact refusedValue_iff.mpr (by simp; omega)

/-- The encodings are those of the characters. -/
theorem encoded_iff_char :
    Encoded unit v ↔ ∃ ch : Char, ch.toNat = v ∧ String.utf8EncodeChar ch = unit := by
  constructor
  · intro h
    obtain ⟨hv, hu⟩ := h.scalar
    exact ⟨Char.ofNatAux v hv, rfl, hu⟩
  · rintro ⟨ch, rfl, rfl⟩
    exact encoded_scalar ch.valid

end Scalars

def encodeText (text : List Char) : List UInt8 := text.flatMap String.utf8EncodeChar

def Utf8 (bytes : List UInt8) : Prop := ∃ text, encodeText text = bytes

@[simp] theorem encodeText_nil : encodeText [] = [] := rfl

theorem encodeText_cons : encodeText (ch :: t) = String.utf8EncodeChar ch ++ encodeText t :=
  flatMap_cons

theorem encodeText_append (f rest : List Char) :
    encodeText (f ++ rest) = encodeText f ++ encodeText rest :=
  flatMap_append

theorem utf8_nil : Utf8 [] := ⟨[], rfl⟩

theorem Utf8.append {s : List UInt8} (h : Utf8 f) (hs : Utf8 s) : Utf8 (f ++ s) := by
  obtain ⟨t, rfl⟩ := h
  obtain ⟨b, rfl⟩ := hs
  exact ⟨t ++ b, encodeText_append t b⟩

theorem utf8Next_char (a : List UInt8) :
    utf8Next (String.utf8EncodeChar ch ++ a) = some (ch.toNat, a) :=
  utf8Next_iff.mpr ⟨_, encoded_iff_char.mpr ⟨ch, rfl, rfl⟩, rfl⟩

theorem utf8Next_some {a : List UInt8} (h : utf8Next bs = some (v, a)) :
    ∃ ch : Char, ch.toNat = v ∧ bs = String.utf8EncodeChar ch ++ a := by
  obtain ⟨unit, hu, rfl⟩ := utf8Next_iff.mp h
  obtain ⟨ch, hv, rfl⟩ := encoded_iff_char.mp hu
  exact ⟨ch, hv, rfl⟩

theorem utf8EncodeChar_ne_nil : String.utf8EncodeChar ch ≠ [] := by
  intro hnil
  have hn := utf8Next_char ch []
  rw [hnil] at hn
  cases hn

theorem utf8Scan_text (hr : utf8Next rs = none)
    {f : ℕ} (hf : t.length ≤ f) : utf8Scan f (encodeText t ++ rs) = rs := by
  induction t generalizing f with
  | nil =>
    cases f with
    | zero => rfl
    | succ => simp [utf8Scan, hr]
  | cons ch t ih =>
    cases f with
    | zero => cases hf
    | succ =>
      rw [encodeText_cons, append_assoc, utf8Scan, utf8Next_char]
      exact ih (le_of_succ_le_succ hf)

theorem utf8Scan_spec {f : ℕ} (hf : bs.length ≤ f) :
    ∃ t, bs = encodeText t ++ utf8Scan f bs ∧ utf8Next (utf8Scan f bs) = none := by
  induction f generalizing bs with
  | zero =>
    rw [eq_nil_of_length_eq_zero (le_zero.mp hf)]
    exact ⟨[], rfl, rfl⟩
  | succ f ih =>
    unfold utf8Scan
    split
    · rename_i hn
      exact ⟨[], rfl, hn⟩
    rename_i a hso
    obtain ⟨ch, _, rfl⟩ := utf8Next_some hso
    have hlon := length_pos_of_ne_nil (utf8EncodeChar_ne_nil ch)
    rw [length_append] at hf
    obtain ⟨t, ht, hs⟩ := ih (by omega : a.length ≤ f)
    refine ⟨ch :: t, ?_, hs⟩
    rw [encodeText_cons, append_assoc, ← ht]

theorem encodeText_length : t.length ≤ (encodeText t).length := by
  induction t with
  | nil => exact le_refl _
  | cons ch t ih =>
    have hlon := length_pos_of_ne_nil (utf8EncodeChar_ne_nil ch)
    rw [encodeText_cons, length_append, length_cons]
    omega

theorem utf8Validate_iff (bs : List UInt8) : utf8Validate bs = true ↔ Utf8 bs := by
  rw [utf8Validate, List.isEmpty_iff]
  constructor
  · intro h
    obtain ⟨t, ht, _⟩ := utf8Scan_spec (le_refl bs.length)
    rw [h, List.append_nil] at ht
    exact ⟨t, ht.symm⟩
  · rintro ⟨t, rfl⟩
    have hs : utf8Scan (encodeText t).length (encodeText t ++ []) = [] :=
      utf8Scan_text t rfl (encodeText_length t)
    rwa [List.append_nil] at hs

theorem Utf8.cancel (hf : Utf8 f) (h : Utf8 (f ++ rs)) :
    Utf8 rs := by
  obtain ⟨t, rfl⟩ := hf
  induction t with
  | nil => exact h
  | cons ch t ih =>
    apply ih
    obtain ⟨w, hw⟩ := h
    rw [encodeText_cons, append_assoc] at hw
    cases w with
    | nil =>
      have hnil := (append_eq_nil_iff.mp hw.symm).1
      exact absurd hnil (utf8EncodeChar_ne_nil ch)
    | cons o w =>
      have hn := utf8Next_char o (encodeText w)
      rw [← encodeText_cons, hw, utf8Next_char] at hn
      obtain ⟨_, ha⟩ := Prod.mk.inj (Option.some.inj hn)
      exact ⟨w, ha.symm⟩

section Tails

variable {tl : List UInt8}

/-- The beginning of a code point holds no code point. -/
theorem utf8Next_tail (h : utf8TailValid tl = true) : utf8Next tl = none := by
  rw [Option.eq_none_iff_forall_not_mem]
  rintro ⟨v, a⟩ hn
  obtain ⟨unit, hu, rfl⟩ := utf8Next_iff.mp hn
  cases hu with
  | single f hf =>
    rcases hl : unitLead f with _ | ⟨p, n⟩
    · simp [utf8TailValid, hl] at h
    · exact unitLead_high hl hf
  | several f us p hl => simp [utf8TailValid, hl] at h

theorem utf8TailValid_of_cut {ch : Char} {m : List UInt8} (ht : tl ≠ []) (hm : m ≠ [])
    (h : String.utf8EncodeChar ch = tl ++ m) : utf8TailValid tl = true := by
  obtain ⟨v, hu⟩ : ∃ v, Encoded (tl ++ m) v := ⟨ch.toNat, encoded_iff_char.mpr ⟨ch, rfl, h⟩⟩
  cases tl with
  | nil => exact absurd rfl ht
  | cons f rs =>
    have hlon := length_pos_of_ne_nil hm
    generalize hw : f :: rs ++ m = w at hu
    cases hu with
    | single o ho =>
      have hh := congrArg length hw
      rw [length_append, length_cons, length_singleton] at hh
      omega
    | several o us p hl hun hv =>
      rw [cons_append] at hw
      obtain ⟨rfl, rfl⟩ := cons.inj hw
      have hnee : (rs ++ m).length ≤ 3 := by
        rcases (unitLead_iff _ _ _).mp hl with ⟨_, _, _, hh⟩ | ⟨_, _, _, hh⟩ |
          ⟨_, _, _, hh⟩ <;> omega
      rw [length_append] at hnee hl
      simp only [utf8TailValid, hl, Bool.and_eq_true, decide_eq_true_eq, all_eq_true]
      refine ⟨by omega, by omega, ?_⟩
      intro byte hb
      exact hun byte (mem_append_left _ hb)

theorem utf8TailValid_length (h : utf8TailValid tl = true) : tl.length ≤ 3 := by
  cases tl with
  | nil => cases h
  | cons =>
    simp only [utf8TailValid, Bool.and_eq_true, decide_eq_true_eq] at h
    exact h.1

def Pending (tail : List UInt8) : Prop := tail = [] ∨ utf8TailValid tail = true

theorem Pending.utf8Next (h : Pending tl) : utf8Next tl = none := by
  rcases h with rfl | ht
  · rfl
  · exact utf8Next_tail ht

theorem Pending.length (h : Pending tl) : tl.length ≤ 3 := by
  rcases h with rfl | ht
  · exact zero_le _
  · exact utf8TailValid_length ht

theorem Pending.nil_of_utf8 (h : Pending tl) (ht : Utf8 tl) : tl = [] := by
  obtain ⟨t, rfl⟩ := ht
  cases t with
  | nil => rfl
  | cons =>
    have hn := h.utf8Next
    rw [encodeText_cons, utf8Next_char] at hn
    cases hn

theorem utf8Prefix_iff (bs : List UInt8) (m : ℕ) : utf8Prefix bs = some m ↔
      ∃ front tl, bs = front ++ tl ∧ m = front.length ∧ Utf8 front ∧ Pending tl := by
  unfold utf8Prefix
  constructor
  · intro h
    obtain ⟨t, ht, _⟩ := utf8Scan_spec (le_refl bs.length)
    dsimp only at h
    split_ifs at h with hp
    refine ⟨encodeText t, utf8Scan bs.length bs, ht, ?_, ⟨t, rfl⟩, ?_⟩
    · have hl := congrArg length ht
      rw [length_append] at hl
      have hc := Option.some.inj h
      omega
    · simpa [Pending] using hp
  · rintro ⟨front, tl, rfl, rfl, ⟨t, rfl⟩, hp⟩
    have hs := utf8Scan_text t hp.utf8Next (show t.length ≤ (encodeText t ++ tl).length by
        rw [length_append]
        exact (encodeText_length t).trans (le_add_right _ _))
    have hh : (tl.isEmpty || utf8TailValid tl) = true := by simpa [Pending] using hp
    rw [hs, if_pos hh, length_append, Nat.add_sub_cancel]

/-- The front of a text consists of code points and the beginning of one. -/
theorem front_of_utf8 {f rs : List UInt8} (h : Utf8 (f ++ rs)) :
    ∃ front tl, f = front ++ tl ∧ Utf8 front ∧ Pending tl := by
  obtain ⟨t, ht⟩ := h
  induction t generalizing f with
  | nil =>
    have hnil := (append_eq_nil_iff.mp ht.symm).1
    exact ⟨[], [], hnil, utf8_nil, .inl rfl⟩
  | cons ch t ih =>
    rcases append_eq_append_iff.mp ht with ⟨mid, rfl, hb⟩ | ⟨mid, hc, hr⟩
    · obtain ⟨front, tl, rfl, hcom, hta⟩ := ih hb
      refine ⟨String.utf8EncodeChar ch ++ front, tl, by simp, ?_, hta⟩
      have ho : Utf8 (String.utf8EncodeChar ch) := ⟨[ch], by simp [encodeText]⟩
      exact ho.append hcom
    by_cases hf : f = []
    · exact ⟨[], [], hf, utf8_nil, .inl rfl⟩
    by_cases hm : mid = []
    · refine ⟨f, [], by simp, ⟨[ch], ?_⟩, .inl rfl⟩
      simp [encodeText, hc, hm]
    · exact ⟨[], f, rfl, utf8_nil, .inr (utf8TailValid_of_cut hf hm hc)⟩

end Tails

end Yvex.TokenizerUtf8
