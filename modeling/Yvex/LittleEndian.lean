import Yvex.ReaderFailures

/-!
# Little-endian words

Words are stored least significant byte first. Reading a word is taking so many
bytes, and its format is the bytes of its value.
-/

set_option autoImplicit false

namespace Yvex.LittleEndian

open MeteredReader ReaderFailures

def leBytes : ℕ → ℕ → List UInt8
  | 0, _ => []
  | width + 1, value => UInt8.ofNat value :: leBytes width (value / 256)

def leValue : List UInt8 → ℕ
  | [] => 0
  | byte :: rest => byte.toNat + 256 * leValue rest

@[simp] theorem leBytes_length (w v : ℕ) : (leBytes w v).length = w := by
  induction w generalizing v with
  | zero => rfl
  | succ w ih => simp [leBytes, ih]

theorem leValue_lt (bs : List UInt8) : leValue bs < 256 ^ bs.length := by
  induction bs with
  | nil => simp [leValue]
  | cons b r ih =>
    have hsm := b.toNat_lt
    rw [leValue, List.length_cons, pow_succ]
    omega

theorem leValue_leBytes (w v : ℕ) : leValue (leBytes w v) = v % 256 ^ w := by
  induction w generalizing v with
  | zero => simp [leBytes, leValue, Nat.mod_one]
  | succ w ih => rw [leBytes, leValue, ih, pow_succ', Nat.mod_mul, UInt8.toNat_ofNat']

theorem leBytes_leValue (bs : List UInt8) : leBytes bs.length (leValue bs) = bs := by
  induction bs with
  | nil => rfl
  | cons b r ih =>
    have hsm := b.toNat_lt
    have low : UInt8.ofNat (b.toNat + 256 * leValue r) = b := by
      apply UInt8.toNat_inj.mp
      rw [UInt8.toNat_ofNat']
      omega
    have hh : (b.toNat + 256 * leValue r) / 256 = leValue r := by omega
    rw [List.length_cons, leValue, leBytes, low, hh, ih]

variable {ρ ε : Type} [DecidableEq ρ] {src : Source ρ}

def readWord (source : Source ρ) (meter : ρ) (width : ℕ) (short excess : Cursor ρ → ε) :
    Reader ρ ε ℕ := do
  let bytes ← take source meter width short excess
  return leValue bytes

/-- A word is read back from its bytes, least significant first. -/
theorem reads_word (m : ρ) (w : ℕ) (short excess : Cursor ρ → ε) :
    Reads src (readWord src m w short excess) (fun v => v)
      (leBytes w) (fun _ => one m w) (· < 256 ^ w) := by
  refine ((reads_take m w short excess).map leValue).along leValue ?_ ?_
  · intro bs n
    refine ⟨rfl, ?_, rfl⟩
    rw [← n, leBytes_leValue]
  · intro v
    constructor
    · rintro ⟨bs, rfl, rfl⟩
      exact leValue_lt bs
    · intro hsm
      refine ⟨leBytes w v, leBytes_length w v, ?_⟩
      rw [leValue_leBytes, Nat.mod_eq_of_lt hsm]

theorem clean_word (m : ρ) (w : ℕ) {f : ε → Prop} {short excess : Cursor ρ → ε}
    (hs : ∀ cursor, f (short cursor)) (he : ∀ cursor, f (excess cursor)) :
    Clean src (readWord src m w short excess) f :=
  (clean_take m w hs he).bind fun _ => clean_pure _

end Yvex.LittleEndian
