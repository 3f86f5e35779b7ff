import Yvex.AttentionData
import Yvex.CheckedArithmetic
import Yvex.FloatWidths
import Yvex.LittleEndian

/-!
# GGUF metadata values

Types, limits and refusals of the GGUF reader, and the two forms of a metadata
value: a datum is what stands in a file, a value is what the reader builds from
it. A value may be incomplete: an array whose items were never allocated keeps its
element type and its count.
-/

set_option autoImplicit false

namespace Yvex.GgufData

open AttentionData CheckedArithmetic MeteredReader LittleEndian

inductive ValueType where
  | uint8 | int8 | uint16 | int16 | uint32 | int32 | float32 | bool | string | array
  | uint64 | int64 | float64 | invalid
  deriving DecidableEq, Repr

namespace ValueType

def code : ValueType → ℕ
  | uint8 => 0
  | int8 => 1
  | uint16 => 2
  | int16 => 3
  | uint32 => 4
  | int32 => 5
  | float32 => 6
  | bool => 7
  | string => 8
  | array => 9
  | uint64 => 10
  | int64 => 11
  | float64 => 12
  | invalid => 13

def ofCode : ℕ → ValueType
  | 0 => uint8
  | 1 => int8
  | 2 => uint16
  | 3 => int16
  | 4 => uint32
  | 5 => int32
  | 6 => float32
  | 7 => bool
  | 8 => string
  | 9 => array
  | 10 => uint64
  | 11 => int64
  | 12 => float64
  | _ => invalid

theorem ofCode_code (t : ValueType) : ofCode t.code = t := by
  cases t <;> rfl

theorem code_ofCode {raw : ℕ} (hkn : raw ≤ float64.code) : (ofCode raw).code = raw := by
  rw [code] at hkn
  interval_cases raw <;> rfl

theorem code_le (t : ValueType) (hkn : t ≠ invalid) : t.code ≤ float64.code := by
  cases t with
  | invalid => exact absurd rfl hkn
  | _ => decide

/-- The codes up to the last one name a type. -/
theorem ofCode_known {raw : ℕ} (hkn : raw ≤ float64.code) : ofCode raw ≠ invalid := by
  rw [code] at hkn
  interval_cases raw <;> decide

end ValueType

inductive ScalarKind where
  | unsigned | signed | float | bool
  deriving DecidableEq, Repr

structure ScalarSpec where
  bytes : ℕ
  kind : ScalarKind
  truncated : String

def scalarSpecs : ValueType → ScalarSpec
  | .uint8 => ⟨1, .unsigned, "truncated uint8 metadata value"⟩
  | .int8 => ⟨1, .signed, "truncated int8 metadata value"⟩
  | .uint16 => ⟨2, .unsigned, "truncated uint16 metadata value"⟩
  | .int16 => ⟨2, .signed, "truncated int16 metadata value"⟩
  | .uint32 => ⟨4, .unsigned, "truncated uint32 metadata value"⟩
  | .int32 => ⟨4, .signed, "truncated int32 metadata value"⟩
  | .float32 => ⟨4, .float, "truncated float32 metadata value"⟩
  | .bool => ⟨1, .bool, "truncated bool metadata value"⟩
  | .uint64 => ⟨8, .unsigned, "truncated uint64 metadata value"⟩
  | .int64 => ⟨8, .signed, "truncated int64 metadata value"⟩
  | .float64 => ⟨8, .float, "truncated float64 metadata value"⟩
  | .string | .array | .invalid => ⟨0, .unsigned, ""⟩

def ValueType.Scalar (type : ValueType) : Prop := (scalarSpecs type).bytes ≠ 0

instance (type : ValueType) : Decidable type.Scalar := inferInstanceAs (Decidable (_ ≠ _))

inductive ParseSection where
  | none | file | container | metadata | tensorInfo | qtype | range | resource
  deriving DecidableEq, Repr

inductive ParseCode where
  | invalidArgument | shortRead | invalidMagic | unsupportedVersion | invalidCount
  | resourceLimit | malformedKey | duplicateMetadataKey | unsupportedMetadataType
  | malformedValue | malformedString | invalidAlignment | malformedTensorName
  | duplicateTensorName | invalidRank | invalidDimension | refusedQtype | offsetOverflow
  | incompleteDirectory | allocationFailure | emptyMetadataKey | emptyTensorName
  | elementCountOverflow | rowCountOverflow | rowByteOverflow | totalByteOverflow
  deriving DecidableEq, Repr

def parseCodeError : ParseCode → Status
  | .invalidArgument => .invalidArg
  | .shortRead => .bounds
  | .unsupportedVersion | .unsupportedMetadataType | .refusedQtype => .unsupported
  | .resourceLimit | .offsetOverflow | .incompleteDirectory | .elementCountOverflow
  | .rowCountOverflow | .rowByteOverflow | .totalByteOverflow => .bounds
  | .allocationFailure => .nomem
  | _ => .format

def noRecord : ℕ := ullongMax

structure Refusal where
  code : ParseCode
  part : ParseSection
  byteOffset : ℕ
  recordIndex : ℕ
  site : String
  reason : String
  deriving DecidableEq, Repr

def Refusal.status (refusal : Refusal) : Status := parseCodeError refusal.code

structure ReaderOptions where
  maxMetadataEntries : UInt64
  maxTensorEntries : UInt64
  maxArrayEntries : UInt64
  maxTotalArrayEntries : UInt64
  maxStringBytes : UInt64
  maxTotalStringBytes : UInt64
  maxOwnedBytes : UInt64
  maxStructuralBytes : UInt64
  maxArrayDepth : UInt32

def readerOptionsDefault : ReaderOptions where
  maxMetadataEntries := 1048576
  maxTensorEntries := 1048576
  maxArrayEntries := 16777216
  maxTotalArrayEntries := 33554432
  maxStringBytes := 67108864
  maxTotalStringBytes := 1073741824
  maxOwnedBytes := 2147483648
  maxStructuralBytes := 2147483648
  maxArrayDepth := 16

def ReaderOptions.Nonzero (options : ReaderOptions) : Prop :=
  options.maxMetadataEntries ≠ 0 ∧ options.maxTensorEntries ≠ 0 ∧
  options.maxArrayEntries ≠ 0 ∧ options.maxTotalArrayEntries ≠ 0 ∧
  options.maxStringBytes ≠ 0 ∧ options.maxTotalStringBytes ≠ 0 ∧
  options.maxOwnedBytes ≠ 0 ∧ options.maxStructuralBytes ≠ 0 ∧ options.maxArrayDepth ≠ 0

instance (options : ReaderOptions) : Decidable options.Nonzero :=
  inferInstanceAs (Decidable (_ ∧ _))

inductive Meter where
  | structural | owned | strings | arrays
  deriving DecidableEq, Repr

def ReaderOptions.limit (options : ReaderOptions) : Meter → ℕ
  -- A counter is a 64-bit word, and so is its limit: an amount that would wrap the counter
  -- also exceeds the limit.
  | .structural => options.maxStructuralBytes.toNat
  | .owned => options.maxOwnedBytes.toNat
  | .strings => options.maxTotalStringBytes.toNat
  | .arrays => options.maxTotalArrayEntries.toNat

structure Input where
  -- A file, the reader's limits and which of its allocations succeed. The length of a file
  -- is a signed 64-bit offset.
  file : List UInt8
  options : ReaderOptions
  grants : ℕ → Bool
  sized : file.length < 2 ^ 63

def Input.source (input : Input) : Source Meter := ⟨input.file, input.options.limit, input.grants⟩

inductive Value where
  | invalid
  | unsigned (type : ValueType) (u64 : ℕ)
  | signed (type : ValueType) (i64 : ℤ)
  | float (type : ValueType) (f64 : ℕ)
  | bool (value : Bool)
  | string (data : Option (List UInt8))
  | bare (element : ValueType) (count : ℕ)
  | array (element : ValueType) (items : List Value)

def valueBytes : ℕ := 32
def entryBytes : ℕ := 48
def tensorBytes : ℕ := 112
def slotBytes : ℕ := 8
def viewBytes : ℕ := 152

def Value.blank : Value := .unsigned .uint8 0

def Value.start (type : ValueType) : Value :=
  match type with
  | .string => .string none
  | .array => .bare .uint8 0
  | .invalid => .invalid
  | _ =>
    match (scalarSpecs type).kind with
    | .unsigned => .unsigned type 0
    | .signed => .signed type 0
    | .float => .float type 0
    | .bool => .bool false

def Value.typeOf : Value → ValueType
  | .invalid => .invalid
  | .unsigned type _ | .signed type _ | .float type _ => type
  | .bool _ => .bool
  | .string _ => .string
  | .bare _ _ | .array _ _ => .array

def Value.asU64 : Value → Option ℕ
  | .unsigned _ u64 => some u64
  | _ => none

def signExtend (bytes bits : ℕ) : ℤ :=
  if bits < 2 ^ (8 * bytes - 1) then bits else (bits : ℤ) - 2 ^ (8 * bytes)

def scalarValue (type : ValueType) (bits : ℕ) : Option Value :=
  let spec := scalarSpecs type
  match spec.kind with
  | .unsigned => some (.unsigned type bits)
  | .signed => some (.signed type (signExtend spec.bytes bits))
  | .float => some (.float type (if spec.bytes = 4 then FloatWidths.widen bits else bits))
  | .bool => if bits ≤ 1 then some (.bool (bits != 0)) else none

inductive Datum where
  | scalar (type : ValueType) (bits : ℕ)
  | string (bytes : List UInt8)
  | array (element : ValueType) (items : List Datum)

def Datum.typeOf : Datum → ValueType
  | .scalar type _ => type
  | .string _ => .string
  | .array _ _ => .array

def encodeString (bytes : List UInt8) : List UInt8 := leBytes 8 bytes.length ++ bytes

mutual

def Datum.encode : Datum → List UInt8
  | .scalar type bits => leBytes (scalarSpecs type).bytes bits
  | .string bytes => encodeString bytes
  | .array element items => leBytes 4 element.code ++ (leBytes 8 items.length ++ encodeAll items)

def encodeAll : List Datum → List UInt8
  | [] => []
  | datum :: rest => datum.encode ++ encodeAll rest

end

mutual

def Datum.value : Datum → Value
  | .scalar type bits => (scalarValue type bits).getD .invalid
  | .string bytes => .string (some bytes)
  | .array element [] => .bare element 0
  | .array element (item :: rest) => .array element (item.value :: valueAll rest)

def valueAll : List Datum → List Value
  | [] => []
  | datum :: rest => datum.value :: valueAll rest

end

end Yvex.GgufData
