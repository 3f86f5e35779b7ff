import Yvex.WireWords

/-!
# Values of the local protocol

A double is kept as its bit pattern, and a text as the bytes before its
terminator in a fixed array.
-/

set_option autoImplicit false

namespace Yvex.WireCodecs

abbrev Double := UInt64

def isFinite (value : Double) : Bool := value.toNat / 2 ^ 52 % 2048 != 2047

def isZero (value : Double) : Bool := value.toNat % 2 ^ 63 == 0

def rank (value : Double) : ℤ :=
  if value.toNat < 2 ^ 63 then value.toNat else -((value.toNat - 2 ^ 63 : ℕ) : ℤ)

def doubleLe (value other : Double) : Bool := decide (rank value ≤ rank other)

def doubleOne : Double := 0x3ff0000000000000

def doubleTwo : Double := 0x4000000000000000

structure CText (capacity : ℕ) where
  bytes : List UInt8
  fits : bytes.length ≤ capacity - 1
  terminated : (0 : UInt8) ∉ bytes
  deriving DecidableEq

def CText.empty (capacity : ℕ) : CText capacity := ⟨[], Nat.zero_le _, by simp⟩

def CText.isEmpty {capacity : ℕ} (text : CText capacity) : Bool := text.bytes.isEmpty

def isHexByte (byte : UInt8) : Bool :=
  (decide (48 ≤ byte) && decide (byte ≤ 57)) || (decide (97 ≤ byte) && decide (byte ≤ 102)) ||
    (decide (65 ≤ byte) && decide (byte ≤ 70))

def CText.hexValid {capacity : ℕ} (text : CText capacity) : Bool :=
  text.bytes.length == 64 && text.bytes.all isHexByte

end Yvex.WireCodecs
