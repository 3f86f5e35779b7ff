import Yvex.WireWords

/-!
# Sequential wire formats

A value is written piece by piece into a bounded buffer and read piece by piece
from a bounded input. What a reader accepts is described once, by the format of
its values: it returns a value exactly when the bytes at its offset are that
value's format and the value is admitted. The round trip, the exactness of what
is accepted and the bound on the bytes looked at all follow from this one
description, which the rules below assemble field by field.
-/

set_option autoImplicit false

namespace Yvex.SequentialWire
open WireWords List Option

variable {bs : List UInt8}

section Reading

structure Input where
  memory : Memory
  count : ℕ

abbrev Read (α : Type) := ReaderT Input (StateT ℕ Option) α

variable {α β : Type}

def refuse : Read α := fun _ _ => none

def require (condition : Bool) : Read Unit := if condition then pure () else refuse

def readWord (width : ℕ) : Read ℕ := fun input offset =>
  if offset > input.count ∨ input.count - offset < width then none
  else some (getWord (input.memory.advance offset) width, offset + width)

def readBytes (count : ℕ) : Read (List UInt8) := fun input offset =>
  if offset > input.count ∨ count > input.count - offset then none
  else some ((input.memory.advance offset).slice count, offset + count)

def readU32 : Read UInt32 := do return UInt32.ofNat (← readWord 4)

def readU64 : Read UInt64 := do return UInt64.ofNat (← readWord 8)

def readSpan (maximum : ℕ) : Read (List UInt8) := do
  let count ← readU32
  require (decide (count.toNat ≤ maximum))
  readBytes count.toNat

def readMany (read : Read α) : ℕ → Read (List α)
  | 0 => pure []
  | count + 1 => do
    let value ← read
    let rest ← readMany read count
    return value :: rest

def readCounted (limit : ℕ) (read : Read α) : Read (List α) := do
  let count ← readU32
  require (decide (count.toNat ≤ limit))
  readMany read count.toNat

def readOptional (condition : Prop) [Decidable condition] (read : Read α) (unset : α) : Read α :=
  if condition then read else pure unset

structure Holds (input : Input) (offset : ℕ) (bytes : List UInt8) (next : ℕ) : Prop where
  length : next = offset + bytes.length
  inside : next ≤ input.count
  same : (input.memory.advance offset).slice bytes.length = bytes

/-- What a reader accepts: the admitted values, each in its format. -/
def Parses (read : Read α) (format : α → List UInt8) (admits : α → Prop) : Prop :=
  ∀ input offset value next, offset ≤ input.count →
    (read input offset = some (value, next) ↔
      admits value ∧ Holds input offset (format value) next)

theorem read_bind (rd : Read α) (next : α → Read β) (x : Input) (o : ℕ) : (rd >>= next) x o =
      (rd x o).bind fun r => next r.1 x r.2 := rfl

theorem Holds.nil_iff {x : Input} {o next : ℕ} (h : o ≤ x.count) :
    Holds x o [] next ↔ next = o := by
  constructor
  · intro hh
    exact hh.length
  · rintro rfl
    exact ⟨rfl, h, rfl⟩

theorem Holds.append_iff {x : Input} {o next : ℕ} {xs ys : List UInt8} : Holds x o (xs ++ ys) next ↔
      ∃ mid, Holds x o xs mid ∧ Holds x mid ys next := by
  have hhs : (x.memory.advance o).slice (xs ++ ys).length =
      (x.memory.advance o).slice xs.length ++
        (x.memory.advance (o + xs.length)).slice ys.length := by
    rw [length_append, slice_add, advance_advance]
  constructor
  · intro hh
    have hs := hh.same
    have hl := hh.length
    have hins := hh.inside
    rw [length_append] at hl
    rw [hhs] at hs
    have hp := append_inj hs (slice_length _ _)
    exact ⟨o + xs.length, ⟨rfl, by omega, hp.1⟩, ⟨by omega, hins, hp.2⟩⟩
  · rintro ⟨mid, hf, hse⟩
    have hmid := hf.length
    subst hmid
    refine ⟨?_, hse.inside, ?_⟩
    · rw [length_append, ← Nat.add_assoc]
      exact hse.length
    · rw [hhs, hf.same, hse.same]

theorem Holds.congr {m other : Memory} {n o next : ℕ} (ha : Agree n m other)
    (h : Holds ⟨m, n⟩ o bs next) : Holds ⟨other, n⟩ o bs next := by
  refine ⟨h.length, h.inside, ?_⟩
  have hins : o + bs.length ≤ n := by
    rw [← h.length]
    exact h.inside
  rw [← (ha.advance hins).slice_eq]
  exact h.same

theorem Holds.all {m : Memory} (ha : Agree bs.length (Memory.ofBytes bs) m) :
    Holds ⟨m, bs.length⟩ 0 bs bs.length := by
  refine ⟨(Nat.zero_add _).symm, le_rfl, ?_⟩
  rw [advance_zero, ← ha.slice_eq, slice_ofBytes]

end Reading

section Rules

variable {α β : Type}

variable {rd : Read α} {fmt : α → List UInt8}

theorem Parses.last {admits all : α → Prop} (h : Parses rd fmt admits)
    (hs : ∀ v, admits v ↔ all v) :
    Parses rd (fun v => [fmt v].flatten) all := by
  intro x o v next ho
  rw [h x o v next ho, hs]
  simp only [flatten_cons, flatten_nil, append_nil]

theorem Parses.congr {fmt other : α → List UInt8} {admits all : α → Prop}
    (h : Parses rd fmt admits) (hs : ∀ v, admits v ↔ all v)
    (hf : ∀ v, all v → fmt v = other v) : Parses rd other all := by
  intro x o v next hoff
  rw [h x o v next hoff, hs]
  apply and_congr_right
  intro ha
  rw [hf v ha]

theorem Parses.single {all : α → Prop} (h : Parses rd (fun v => [fmt v].flatten) all) :
    Parses rd fmt all := by
  simpa only [flatten_cons, flatten_nil, append_nil] using h

variable {ad : α → Prop}

/-- A reader looks at no byte outside its input. -/
theorem Parses.inside (h : Parses rd fmt ad) {m other : Memory} {n o : ℕ}
    (ha : Agree n m other) (hof : o ≤ n) :
    rd ⟨m, n⟩ o = rd ⟨other, n⟩ o := by
  apply ext
  rintro ⟨v, next⟩
  rw [h ⟨m, n⟩ o v next hof, h ⟨other, n⟩ o v next hof]
  have hb : Agree n other m := fun i hi => (ha i hi).symm
  exact and_congr_right fun _ => ⟨Holds.congr ha, Holds.congr hb⟩

open Holds

theorem Parses.pure_of {v : α} (h : ∀ ot, ad ot ↔ ot = v) :
    Parses (pure v) (fun _ => [].flatten) ad := by
  intro x o ot next ho
  rw [h ot, flatten_nil, nil_iff ho]
  change some (v, o) = some (ot, next) ↔ _
  rw [some.injEq, Prod.mk.injEq]
  exact and_congr eq_comm eq_comm

variable {all : β → Prop}

/-- One field of a larger value, read first; the rest of the reader is told the
field and returns values that have it. -/
theorem Parses.field {next : α → Read β} {rs : β → List (List UInt8)} (p : β → α)
    (h : Parses rd fmt ad) (hn : ∀ v, ad v →
      Parses (next v) (fun wh => (rs wh).flatten) (fun wh => p wh = v ∧ all wh))
    (hall : ∀ wh, all wh → ad (p wh)) :
    Parses (rd >>= next) (fun wh => (fmt (p wh) :: rs wh).flatten) all := by
  intro x o wh hfi ho
  simp only [read_bind, bind_eq_some_iff, flatten_cons, append_iff]
  constructor
  · rintro ⟨⟨v, hm⟩, hre, hr⟩
    obtain ⟨ha, hh⟩ := (h x o v hm ho).mp hre
    obtain ⟨⟨rfl, hw⟩, hb⟩ := (hn v ha x hm wh hfi hh.inside).mp hr
    exact ⟨hw, hm, hh, hb⟩
  · rintro ⟨hw, hm, hh, hb⟩
    have ha := hall wh hw
    exact ⟨(p wh, hm), (h x o _ hm ho).mpr ⟨ha, hh⟩,
      (hn _ ha x hm wh hfi hh.inside).mpr ⟨⟨rfl, hw⟩, hb⟩⟩

theorem Parses.require {c : Bool} {next : Read β} {fmt : β → List UInt8}
    (hn : c = true → Parses next fmt all)
    (ha : ∀ wh, all wh → c = true) :
    Parses (do SequentialWire.require c; next) fmt all := by
  intro x o wh hfi ho
  cases c with
  | true => exact hn rfl x o wh hfi ho
  | false =>
    constructor
    · nofun
    · rintro ⟨hw, _⟩
      exact absurd (ha wh hw) Bool.false_ne_true

open Parses

theorem Parses.optional (c : Prop) [Decidable c] (unset : α) (h : Parses rd fmt ad) :
    Parses (readOptional c rd unset) (fun v => if c then fmt v else [].flatten)
      (fun v => if c then ad v else v = unset) := by
  unfold readOptional
  by_cases hc : c
  · simpa only [if_pos hc] using h
  · simpa only [if_neg hc] using pure_of fun _ => Iff.rfl

theorem Parses.map (f : α → β) (back : β → α) (h : Parses rd fmt ad)
    (ha : ∀ v wh, ad v ∧ wh = f v ↔ back wh = v ∧ all wh) :
    Parses (do return f (← rd)) (fun wh => fmt (back wh)) all := by
  apply single
  apply field back h
  · intro v hadm
    apply pure_of
    intro wh
    rw [← ha]
    exact and_iff_right hadm
  · intro wh hw
    exact ((ha (back wh) wh).mpr ⟨rfl, hw⟩).1

theorem parses_word (w : ℕ) : Parses (readWord w) (putWord w) (fun v => v < 256 ^ w) := by
  intro x o v next hoff
  unfold readWord
  constructor
  · intro hre
    split at hre
    · cases hre
    cases hre
    refine ⟨getWord_lt _ _, ?_, ?_, ?_⟩
    · rw [putWord_length]
    · omega
    · rw [putWord_length, putWord_getWord]
  · rintro ⟨hv, hh⟩
    have hl := hh.length
    have hins := hh.inside
    have hs := hh.same
    rw [putWord_length] at hl hs
    rw [if_neg (by omega), hl]
    have hw : getWord (x.memory.advance o) w = v := by
      have ha := ofBytes_slice_agree (x.memory.advance o) w
      rw [hs] at ha
      have hp := getWord_putWord w v []
      rw [append_nil, Nat.mod_eq_of_lt hv] at hp
      rw [← hp, ha.getWord_eq]
    rw [hw]

theorem parses_bytes (n : ℕ) : Parses (readBytes n) (fun bs => bs) (fun bs => bs.length = n) := by
  intro x o bs next hoff
  unfold readBytes
  constructor
  · intro hre
    split at hre
    · cases hre
    cases hre
    refine ⟨slice_length _ _, ?_, ?_, ?_⟩
    · rw [slice_length]
    · omega
    · rw [slice_length]
  · rintro ⟨rfl, hl, hins, hs⟩
    dsimp only at hl hs
    rw [if_neg (by omega), hs, hl]

def u32Bytes (value : UInt32) : List UInt8 := putWord 4 value.toNat

@[simp] theorem u32Bytes_length (v : UInt32) : (u32Bytes v).length = 4 := putWord_length 4 _

theorem parses_u32 : Parses readU32 u32Bytes (fun _ => True) := by
  apply map _ UInt32.toNat (parses_word 4)
  intro v wh
  have hw := wh.toNat_lt
  constructor
  · rintro ⟨hv, rfl⟩
    exact ⟨by rw [UInt32.toNat_ofNat', Nat.mod_eq_of_lt (by omega)], trivial⟩
  · rintro ⟨rfl, _⟩
    exact ⟨by omega, UInt32.ofNat_toNat.symm⟩

theorem parses_u64 : Parses readU64 bytes64 (fun _ => True) := by
  apply map _ UInt64.toNat (parses_word 8)
  intro v wh
  have hw := wh.toNat_lt
  constructor
  · rintro ⟨hv, rfl⟩
    exact ⟨by rw [UInt64.toNat_ofNat', Nat.mod_eq_of_lt (by omega)], trivial⟩
  · rintro ⟨rfl, _⟩
    exact ⟨by omega, UInt64.ofNat_toNat.symm⟩

theorem toNat_ofNat32 {v : ℕ} (h : v < 2 ^ 32) : (UInt32.ofNat v).toNat = v := by
  rw [UInt32.toNat_ofNat', Nat.mod_eq_of_lt h]

def spanBytes (bytes : List UInt8) : List UInt8 :=
  [u32Bytes (UInt32.ofNat bytes.length), bytes].flatten

@[simp] theorem spanBytes_length (bs : List UInt8) : (spanBytes bs).length = 4 + bs.length := by
  simp [spanBytes]

theorem parses_span {m : ℕ} (hm : m < 2 ^ 32) :
    Parses (readSpan m) spanBytes (fun bs => bs.length ≤ m) := by
  have ht : ∀ bs : List UInt8, bs.length ≤ m → (UInt32.ofNat bs.length).toNat = bs.length :=
    fun bs hb => toNat_ofNat32 (lt_of_le_of_lt hb hm)
  refine field (fun bs : List UInt8 => UInt32.ofNat bs.length) parses_u32 ?_ (fun _ _ => trivial)
  intro n _
  apply Parses.require
  · intro hc
    apply (parses_bytes n.toNat).last
    intro bs
    constructor
    · intro hl
      rw [hl]
      exact ⟨UInt32.ofNat_toNat, of_decide_eq_true hc⟩
    · rintro ⟨rfl, hl⟩
      exact (ht bs hl).symm
  · rintro bs ⟨rfl, hl⟩
    rw [ht bs hl]
    exact decide_eq_true hl

/-- A counted list is read back from the encodings of its items. -/
theorem parses_many (h : Parses rd fmt ad) (n : ℕ) :
    Parses (readMany rd n) (fun vs => (vs.map fmt).flatten)
      (fun vs => vs.length = n ∧ ∀ v ∈ vs, ad v) := by
  induction n with
  | zero =>
    intro x o vs next ho
    change some ([], o) = some (vs, next) ↔ _
    rw [some.injEq, Prod.mk.injEq]
    constructor
    · rintro ⟨rfl, rfl⟩
      exact ⟨⟨rfl, by simp⟩, (nil_iff ho).mpr rfl⟩
    · rintro ⟨⟨hl, _⟩, hh⟩
      obtain rfl := length_eq_zero_iff.mp hl
      exact ⟨rfl, ((nil_iff ho).mp hh).symm⟩
  | succ n ih =>
    intro x o vs next ho
    simp only [readMany, read_bind, bind_eq_some_iff]
    constructor
    · rintro ⟨⟨v, mid⟩, hv, ⟨rs, hfi⟩, hr, hd⟩
      obtain ⟨rfl, rfl⟩ := Prod.mk.inj (some.inj hd)
      obtain ⟨hadm, hh⟩ := (h x o v mid ho).mp hv
      obtain ⟨⟨hl, ha⟩, hb⟩ := (ih x mid rs hfi hh.inside).mp hr
      refine ⟨⟨by simp [hl], ?_⟩, ?_⟩
      · exact forall_mem_cons.mpr ⟨hadm, ha⟩
      · rw [map_cons, flatten_cons, append_iff]
        exact ⟨mid, hh, hb⟩
    · rintro ⟨⟨hl, ha⟩, hh⟩
      cases vs with
      | nil => simp at hl
      | cons v rs =>
        rw [map_cons, flatten_cons, append_iff] at hh
        obtain ⟨mid, hf, hb⟩ := hh
        have hm := forall_mem_cons.mp ha
        refine ⟨(v, mid), (h x o v mid ho).mpr ⟨hm.1, hf⟩, (rs, next), ?_, rfl⟩
        exact (ih x mid rs next hf.inside).mpr ⟨⟨by simpa using hl, hm.2⟩, hb⟩

def countedBytes (format : α → List UInt8) (values : List α) : List UInt8 :=
  [u32Bytes (UInt32.ofNat values.length), (values.map format).flatten].flatten

@[simp] theorem countedBytes_length (fmt : α → List UInt8) (vs : List α) :
    (countedBytes fmt vs).length = 4 + (vs.map fun v => (fmt v).length).sum := by
  simp [countedBytes, length_flatten, Function.comp_def]

theorem parses_counted {m : ℕ} (hli : m < 2 ^ 32) (h : Parses rd fmt ad) :
    Parses (readCounted m rd) (countedBytes fmt) (fun vs => vs.length ≤ m ∧ ∀ v ∈ vs, ad v) := by
  have ht : ∀ vs : List α, vs.length ≤ m → (UInt32.ofNat vs.length).toNat = vs.length :=
    fun vs hval => toNat_ofNat32 (lt_of_le_of_lt hval hli)
  refine field (fun vs : List α => UInt32.ofNat vs.length) parses_u32 ?_ (fun _ _ => trivial)
  intro n _
  apply Parses.require
  · intro hc
    apply (parses_many h n.toNat).last
    intro vs
    constructor
    · rintro ⟨hl, ha⟩
      rw [hl]
      exact ⟨UInt32.ofNat_toNat, of_decide_eq_true hc, ha⟩
    · rintro ⟨rfl, hl, ha⟩
      exact ⟨(ht vs hl).symm, ha⟩
  · rintro vs ⟨rfl, hl, _⟩
    rw [ht vs hl]
    exact decide_eq_true hl

end Rules

section Writing

structure Writer where
  capacity : ℕ
  bytes : List UInt8

abbrev Write := StateT Writer Option Unit

def writeWord (width value : ℕ) : Write := fun writer =>
  if writer.bytes.length > writer.capacity ∨ writer.capacity - writer.bytes.length < width then none
  else some ((), { writer with bytes := writer.bytes ++ putWord width value })

def writeU32 (value : UInt32) : Write := writeWord 4 value.toNat

def writeU64 (value : UInt64) : Write := writeWord 8 value.toNat

def writeBytes (bytes : List UInt8) : Write := fun writer =>
  if writer.bytes.length > writer.capacity ∨ bytes.length > writer.capacity - writer.bytes.length
  then none
  else some ((), { writer with bytes := writer.bytes ++ bytes })

def writeSpan (bytes : List UInt8) : Write :=
  if bytes.length > 2 ^ 32 - 1 then failure
  else do
    writeU32 (UInt32.ofNat bytes.length)
    writeBytes bytes

def writeMany {α : Type} (write : α → Write) : List α → Write
  | [] => pure ()
  | value :: values => do
    write value
    writeMany write values

def writeCounted {α : Type} (write : α → Write) (values : List α) : Write := do
  writeU32 (UInt32.ofNat values.length)
  writeMany write values

def writeOptional (condition : Prop) [Decidable condition] (write : Write) : Write :=
  if condition then write else pure ()

def Writes (write : Write) (bytes : List UInt8) : Prop :=
  ∀ writer : Writer, writer.bytes.length ≤ writer.capacity →
    write writer = if writer.bytes.length + bytes.length ≤ writer.capacity then
      some ((), { writer with bytes := writer.bytes ++ bytes }) else none

theorem writes_pure : Writes (pure ()) [].flatten := by
  intro wr h
  change some ((), wr) = _
  simp [h]

variable {w : Write}

theorem Writes.append {next : Write} {rs : List UInt8} (h : Writes w bs)
    (hn : Writes next rs) : Writes (w >>= fun _ => next) (bs ++ rs) := by
  intro wr hwri
  change (w wr).bind (fun r => next r.2) = _
  rw [h wr hwri]
  by_cases hf : wr.bytes.length + bs.length ≤ wr.capacity
  · rw [if_pos hf, bind_some, hn _ (by simpa only [length_append] using hf)]
    simp only [length_append, append_assoc, Nat.add_assoc]
  · rw [if_neg hf, bind_none, if_neg (by rw [length_append]; omega)]

theorem Writes.next {next : Write} {rs : List (List UInt8)} (h : Writes w bs)
    (hn : Writes next rs.flatten) :
    Writes (w >>= fun _ => next) (bs :: rs).flatten := h.append hn

theorem Writes.last (h : Writes w bs) : Writes w [bs].flatten := by
  simpa only [flatten_cons, flatten_nil, append_nil] using h

theorem writes_word (w v : ℕ) : Writes (writeWord w v) (putWord w v) := by
  intro wr hwri
  rw [putWord_length]
  unfold writeWord
  by_cases hf : wr.bytes.length + w ≤ wr.capacity
  · rw [if_pos hf, if_neg (by omega)]
  · rw [if_neg hf, if_pos (by omega)]

theorem writes_u32 {v : UInt32} : Writes (writeU32 v) (u32Bytes v) := writes_word 4 _

theorem writes_u64 {v : UInt64} : Writes (writeU64 v) (bytes64 v) := writes_word 8 _

theorem writes_bytes (bs : List UInt8) : Writes (writeBytes bs) bs := by
  intro wr hwri
  unfold writeBytes
  by_cases hf : wr.bytes.length + bs.length ≤ wr.capacity
  · rw [if_pos hf, if_neg (by omega)]
  · rw [if_neg hf, if_pos (by omega)]

theorem writes_span (h : bs.length < 2 ^ 32) : Writes (writeSpan bs) (spanBytes bs) := by
  unfold writeSpan spanBytes
  rw [if_neg (by omega)]
  exact writes_u32.next (writes_bytes bs).last

theorem writes_many {α : Type} {w : α → Write} {fmt : α → List UInt8} {vs : List α}
    (h : ∀ v ∈ vs, Writes (w v) (fmt v)) :
    Writes (writeMany w vs) (vs.map fmt).flatten := by
  induction vs with
  | nil => exact writes_pure
  | cons v vs ih =>
    have hm := forall_mem_cons.mp h
    exact hm.1.append (ih hm.2)

theorem writes_counted {α : Type} {w : α → Write} {fmt : α → List UInt8} {vs : List α}
    (h : ∀ v ∈ vs, Writes (w v) (fmt v)) :
    Writes (writeCounted w vs) (countedBytes fmt vs) :=
  writes_u32.next (writes_many h).last

theorem Writes.optional (c : Prop) [Decidable c] (h : c → Writes w bs) :
    Writes (writeOptional c w) (if c then bs else [].flatten) := by
  unfold writeOptional
  by_cases hc : c
  · simpa only [if_pos hc] using h hc
  · simpa only [if_neg hc] using writes_pure

end Writing

end Yvex.SequentialWire
