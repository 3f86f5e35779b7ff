import Yvex.CheckedArithmetic
import Yvex.CheckedSteps

/-!
# Qtype geometry

The pinned table of tensor element types and the storage of a tensor: its first
dimension is a row of whole blocks, the other dimensions count rows. An accepted
tensor has the exact number of bytes, with no product wrapped.
-/

set_option autoImplicit false

namespace Yvex.GgufQtype

open CheckedArithmetic CheckedSteps

inductive IdentityStatus where
  | admitted | removed | reserved | outsideBaseline | unknown
  deriving DecidableEq, Repr

inductive StorageClass where
  | unknown | scalarFloat | scalarInteger | blockQuantized
  deriving DecidableEq, Repr

structure Geometry where
  name : String
  identityStatus : IdentityStatus
  storageClass : StorageClass
  blockSize : ℕ
  bytesPerBlock : ℕ
  deriving DecidableEq, Repr

def qtypeGeometry : List Geometry := [
  ⟨"F32", .admitted, .scalarFloat, 1, 4⟩,
  ⟨"F16", .admitted, .scalarFloat, 1, 2⟩,
  ⟨"Q4_0", .admitted, .blockQuantized, 32, 18⟩,
  ⟨"Q4_1", .admitted, .blockQuantized, 32, 20⟩,
  ⟨"Q4_2", .removed, .unknown, 0, 0⟩,
  ⟨"Q4_3", .removed, .unknown, 0, 0⟩,
  ⟨"Q5_0", .admitted, .blockQuantized, 32, 22⟩,
  ⟨"Q5_1", .admitted, .blockQuantized, 32, 24⟩,
  ⟨"Q8_0", .admitted, .blockQuantized, 32, 34⟩,
  ⟨"Q8_1", .admitted, .blockQuantized, 32, 36⟩,
  ⟨"Q2_K", .admitted, .blockQuantized, 256, 84⟩,
  ⟨"Q3_K", .admitted, .blockQuantized, 256, 110⟩,
  ⟨"Q4_K", .admitted, .blockQuantized, 256, 144⟩,
  ⟨"Q5_K", .admitted, .blockQuantized, 256, 176⟩,
  ⟨"Q6_K", .admitted, .blockQuantized, 256, 210⟩,
  ⟨"Q8_K", .admitted, .blockQuantized, 256, 292⟩,
  ⟨"IQ2_XXS", .admitted, .blockQuantized, 256, 66⟩,
  ⟨"IQ2_XS", .admitted, .blockQuantized, 256, 74⟩,
  ⟨"IQ3_XXS", .admitted, .blockQuantized, 256, 98⟩,
  ⟨"IQ1_S", .admitted, .blockQuantized, 256, 50⟩,
  ⟨"IQ4_NL", .admitted, .blockQuantized, 32, 18⟩,
  ⟨"IQ3_S", .admitted, .blockQuantized, 256, 110⟩,
  ⟨"IQ2_S", .admitted, .blockQuantized, 256, 82⟩,
  ⟨"IQ4_XS", .admitted, .blockQuantized, 256, 136⟩,
  ⟨"I8", .admitted, .scalarInteger, 1, 1⟩,
  ⟨"I16", .admitted, .scalarInteger, 1, 2⟩,
  ⟨"I32", .admitted, .scalarInteger, 1, 4⟩,
  ⟨"I64", .admitted, .scalarInteger, 1, 8⟩,
  ⟨"F64", .admitted, .scalarFloat, 1, 8⟩,
  ⟨"IQ1_M", .admitted, .blockQuantized, 256, 56⟩,
  ⟨"BF16", .admitted, .scalarFloat, 1, 2⟩,
  ⟨"Q4_0_4_4", .removed, .unknown, 0, 0⟩,
  ⟨"Q4_0_4_8", .removed, .unknown, 0, 0⟩,
  ⟨"Q4_0_8_8", .removed, .unknown, 0, 0⟩,
  ⟨"TQ1_0", .admitted, .blockQuantized, 256, 54⟩,
  ⟨"TQ2_0", .admitted, .blockQuantized, 256, 66⟩,
  ⟨"IQ4_NL_4_4", .removed, .unknown, 0, 0⟩,
  ⟨"IQ4_NL_4_8", .removed, .unknown, 0, 0⟩,
  ⟨"IQ4_NL_8_8", .removed, .unknown, 0, 0⟩,
  ⟨"MXFP4", .admitted, .blockQuantized, 32, 17⟩,
  ⟨"NVFP4", .outsideBaseline, .blockQuantized, 64, 36⟩,
  ⟨"Q1_0", .outsideBaseline, .blockQuantized, 128, 18⟩,
  ⟨"Q2_0", .outsideBaseline, .blockQuantized, 64, 18⟩]

def geometryFind (qtype : ℕ) : Option Geometry := qtypeGeometry[qtype]?

def qtypeName (qtype : ℕ) : String := ((geometryFind qtype).map Geometry.name).getD "UNKNOWN"

inductive StorageStatus where
  | unknownId | removedId | reservedId | outsideBaseline | geometryUnavailable | invalidRank
  | invalidDimension | rowBlockMismatch | elementCountOverflow | rowByteOverflow
  | rowCountOverflow | totalByteOverflow
  deriving DecidableEq, Repr

def StorageStatus.reason : StorageStatus → String
  | unknownId => "unknown GGUF qtype ID"
  | removedId => "GGUF qtype ID was removed from the pinned on-disk ABI"
  | reservedId => "GGUF qtype ID is reserved by the pinned on-disk ABI"
  | outsideBaseline => "GGUF qtype ID is outside the pinned on-disk ABI"
  | geometryUnavailable => "admitted GGUF qtype has no storage geometry"
  | invalidRank => "GGUF tensor rank is outside the admitted range"
  | invalidDimension => "GGUF tensor dimension is zero"
  | rowBlockMismatch => "GGUF row width is not divisible by qtype block width"
  | elementCountOverflow => "GGUF tensor element count overflows"
  | rowByteOverflow => "GGUF qtype row byte count overflows"
  | rowCountOverflow => "GGUF tensor row count overflows"
  | totalByteOverflow => "GGUF tensor total byte count overflows"

def admissionStatus : Option Geometry → Except StorageStatus Geometry
  | none => .error .unknownId
  | some geometry =>
    match geometry.identityStatus with
    | .admitted =>
      if geometry.storageClass = .unknown ∨ geometry.blockSize = 0 ∨ geometry.bytesPerBlock = 0
      then .error .geometryUnavailable
      else .ok geometry
    | .removed => .error .removedId
    | .reserved => .error .reservedId
    | .outsideBaseline => .error .outsideBaseline
    | .unknown => .error .unknownId

def maxDims : ℕ := 4

def rowCount : ℕ → List ℕ → Option ℕ
  | rows, [] => some rows
  | rows, dim :: rest => (u64Mul rows dim).bind fun rows => rowCount rows rest

structure Storage where
  rowWidth : ℕ
  rowBytes : ℕ
  rowCount : ℕ
  elementCount : ℕ
  totalBytes : ℕ
  deriving DecidableEq, Repr

def tensorStorage (qtype : ℕ) (dims : List ℕ) : Except StorageStatus Storage := do
  let geometry ← admissionStatus (geometryFind qtype)
  ensure (0 < dims.length ∧ dims.length ≤ maxDims) .invalidRank
  ensure (0 ∉ dims) .invalidDimension
  let width := dims.headD 0
  ensure (width % geometry.blockSize = 0) .rowBlockMismatch
  let rowBytes ← demand .rowByteOverflow
    (u64Mul (width / geometry.blockSize) geometry.bytesPerBlock)
  let rows ← demand .rowCountOverflow (rowCount 1 dims.tail)
  let elements ← demand .elementCountOverflow (u64Mul width rows)
  let total ← demand .totalByteOverflow (u64Mul rowBytes rows)
  return ⟨width, rowBytes, rows, elements, total⟩

theorem rowCount_some {ds : List ℕ} (hp : 0 ∉ ds) (rs : ℕ) (hsm : rs < wordLimit) (r : ℕ) :
    rowCount rs ds = some r ↔ rs * ds.prod < wordLimit ∧ r = rs * ds.prod := by
  induction ds generalizing rs with
  | nil => simp [rowCount, hsm, eq_comm]
  | cons dim re ih =>
    simp only [List.mem_cons, not_or] at hp
    have hl : 1 ≤ re.prod := by
      apply Nat.one_le_iff_ne_zero.mpr
      rw [Ne, List.prod_eq_zero_iff]
      exact hp.2
    rw [rowCount, Option.bind_eq_some_iff, List.prod_cons, ← Nat.mul_assoc]
    constructor
    · rintro ⟨next, p, rs'⟩
      obtain ⟨hf, rfl⟩ := (u64Mul_eq_some _ _ _).mp p
      exact (ih hp.2 _ hf).mp rs'
    · rintro ⟨hf, heq⟩
      have hpr : rs * dim < wordLimit := lt_of_le_of_lt (Nat.le_mul_of_pos_right _ hl) hf
      refine ⟨rs * dim, (u64Mul_eq_some _ _ _).mpr ⟨hpr, rfl⟩, ?_⟩
      exact (ih hp.2 _ hpr).mpr ⟨hf, heq⟩

structure Prescribed (qtype : ℕ) (dims : List ℕ) (bytes : ℕ) : Prop where
  rank : 0 < dims.length ∧ dims.length ≤ maxDims
  positive : 0 ∉ dims
  elements : dims.prod < wordLimit
  size : ∃ geometry, admissionStatus (geometryFind qtype) = .ok geometry ∧
    geometry.blockSize ∣ dims.headD 0 ∧
    bytes = dims.headD 0 / geometry.blockSize * geometry.bytesPerBlock * dims.tail.prod
  small : bytes < wordLimit

/-- The storage of a tensor is the one its format prescribes, or refused. -/
theorem tensorStorage_ok {q : ℕ} {ds : List ℕ} {bs : ℕ} :
    (∃ s, tensorStorage q ds = .ok s ∧ s.totalBytes = bs) ↔
      Prescribed q ds bs := by
  cases ds with
  | nil =>
    simp only [tensorStorage, bind_ok, ensure_ok]
    constructor
    · rintro ⟨_, ⟨_, _, _, rn, _⟩, _⟩
      simp at rn
    · rintro ⟨rn, _⟩
      simp at rn
  | cons w r =>
    simp only [tensorStorage, bind_ok, ensure_ok, demand_ok, pure_ok, List.headD_cons,
      List.tail_cons, u64Mul_eq_some]
    constructor
    · rintro ⟨_, ⟨g, hf, _, rn, _, hp, _, hw, _, ⟨_, rfl⟩, rs, hct, _,
        ⟨e, rfl⟩, _, ⟨total, rfl⟩, rfl⟩, rfl⟩
      have hl : 0 ∉ r := fun hm => hp (List.mem_cons_of_mem _ hm)
      obtain ⟨-, rfl⟩ := (rowCount_some hl 1 (by decide) rs).mp hct
      rw [Nat.one_mul] at e total ⊢
      exact ⟨rn, hp, by simpa using e,
        ⟨g, hf, Nat.dvd_of_mod_eq_zero (ensure_ok.mp hw), rfl⟩, total⟩
    · rintro ⟨rn, hp, e, ⟨g, hf, hw, rfl⟩, hsm⟩
      have hl : 0 ∉ r := fun hm => hp (List.mem_cons_of_mem _ hm)
      have h1 : 0 < w := by
        apply Nat.pos_of_ne_zero
        rintro rfl
        exact hp (List.mem_cons_self)
      have p : 0 < r.prod := by
        apply Nat.pos_of_ne_zero
        rw [Ne, List.prod_eq_zero_iff]
        exact hl
      have rs : r.prod < wordLimit := lt_of_le_of_lt (Nat.le_mul_of_pos_left _ h1) e
      have row : w / g.blockSize * g.bytesPerBlock < wordLimit :=
        lt_of_le_of_lt (Nat.le_mul_of_pos_right _ p) hsm
      have hct : rowCount 1 r = some r.prod :=
        (rowCount_some hl 1 (by decide) _).mpr ⟨by rwa [Nat.one_mul], by rw [Nat.one_mul]⟩
      have hd := Nat.mod_eq_zero_of_dvd hw
      exact ⟨_, ⟨g, hf, (), rn, (), hp, (), ensure_ok.mpr hd, _,
        ⟨row, rfl⟩, _, hct, _, ⟨e, rfl⟩, _, ⟨hsm, rfl⟩, rfl⟩, rfl⟩

end Yvex.GgufQtype
