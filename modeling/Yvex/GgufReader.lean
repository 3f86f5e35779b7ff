import Yvex.GgufNames
import Yvex.GgufQtype

/-!
# The GGUF reader

The structural reader walks once through the header, the metadata and the tensor
directory of a file. Every read, string, array entry and allocation is counted
against a limit. A refusal says where the reader stood, and what it leaves behind:
the values in the metadata table when the view is closed, and the arrays that were
released on the way.
-/

set_option autoImplicit false

namespace Yvex.GgufReader

open CheckedArithmetic GgufData GgufNames GgufQtype MeteredReader LittleEndian

inductive Stop where
  -- A parse stops with a refusal, or never, when a walk through an index does not end.
  | refused (refusal : Refusal)
  | endless

structure Place where
  part : ParseSection
  record : ℕ

def cursorFail (place : Place) (code : ParseCode) (part : ParseSection) (site reason : String)
    (cursor : Cursor Meter) : Stop :=
  .refused ⟨code, part, cursor.offset, place.record, site, reason⟩

def resourceFail (place : Place) (code : ParseCode) (reason : String) : Cursor Meter → Stop :=
  cursorFail place code .resource "gguf.resource" reason

section Reading

variable (input : Input)

def reserveOwned (place : Place) (bytes : ℕ) : Reader Meter Stop Unit :=
  charge input.source .owned bytes
    (resourceFail place .resourceLimit "GGUF owned-memory budget exceeded")

def readExact (place : Place) (count : ℕ) (site field : String) :
    Reader Meter Stop (List UInt8) :=
  take input.source .structural count (cursorFail place .shortRead place.part site field)
    (resourceFail place .resourceLimit "GGUF structural-read budget exceeded")

def readLe (place : Place) (width : ℕ) (site field : String) : Reader Meter Stop ℕ :=
  readWord input.source .structural width (cursorFail place .shortRead place.part site field)
    (resourceFail place .resourceLimit "GGUF structural-read budget exceeded")

def readU32 (place : Place) (site field : String) : Reader Meter Stop ℕ :=
  readLe input place 4 site field

def readU64 (place : Place) (site field : String) : Reader Meter Stop ℕ :=
  readLe input place 8 site field

def identifierParseCode (place : Place) : ParseCode :=
  if place.part = .metadata then .malformedKey else .malformedTensorName

def emptyIdentifierParseCode (place : Place) : ParseCode :=
  if place.part = .metadata then .emptyMetadataKey else .emptyTensorName

def stringParseCode (place : Place) (formatMax : ℕ) : ParseCode :=
  if formatMax = 0 then .malformedString else identifierParseCode place

def readStringCopy (place : Place) (formatMax len : ℕ) (site field : String) :
    Reader Meter Stop (List UInt8) :=
  if len = 0 then pure []
  else onError (fun cursor _ => cursorFail place (stringParseCode place formatMax) place.part site
    field cursor) (readExact input place len site field)

def readStringBytes (place : Place) (formatMax : ℕ) (rejectNul : Bool) (len : ℕ)
    (site field : String) : Reader Meter Stop (List UInt8) := do
  reserveOwned input place (len + 1)
  request input.source (resourceFail place .allocationFailure "failed to allocate GGUF string")
  let copy ← readStringCopy input place formatMax len site field
  require (!(rejectNul && copy.contains 0)) (cursorFail place (identifierParseCode place)
    place.part site "GGUF identifier contains an embedded null byte")
  require (utf8Valid copy) (cursorFail place (stringParseCode place formatMax) place.part site
    "GGUF string is not valid UTF-8")
  return copy

def readStringOf (place : Place) (formatMax : ℕ) (rejectEmpty rejectNul : Bool) (len : ℕ)
    (site field : String) : Reader Meter Stop (List UInt8) := do
  require (!(rejectEmpty && len == 0)) (cursorFail place (emptyIdentifierParseCode place)
    place.part site "GGUF identifier string is empty")
  require (formatMax == 0 || decide (len ≤ formatMax)) (cursorFail place
    (identifierParseCode place) place.part site "GGUF identifier exceeds the pinned format limit")
  require (decide (len ≤ input.options.maxStringBytes.toNat)) (resourceFail place .resourceLimit
    "GGUF string exceeds configured limit")
  require (decide (len ≤ sizeMax - 1)) (resourceFail place .resourceLimit
    "GGUF cumulative string budget exceeded")
  charging input.source .strings len (resourceFail place .resourceLimit
    "GGUF cumulative string budget exceeded")
    (readStringBytes input place formatMax rejectNul len site field)

def readString (place : Place) (formatMax : ℕ) (rejectEmpty rejectNul : Bool)
    (site field : String) : Reader Meter Stop (List UInt8) := do
  let len ← readU64 input place site field
  readStringOf input place formatMax rejectEmpty rejectNul len site field

def parseValueType (place : Place) (raw : ℕ) : Reader Meter Stop ValueType := do
  require (decide (raw ≤ ValueType.float64.code)) (cursorFail place .unsupportedMetadataType
    .metadata "gguf.metadata.type" "unsupported GGUF metadata value type")
  return ValueType.ofCode raw

def readValueType (place : Place) (site field : String) : Reader Meter Stop ValueType := do
  let raw ← readU32 input place site field
  parseValueType place raw

def parseScalar (place : Place) (type : ValueType) : Reader Meter Stop Value := do
  let bits ← readLe input place (scalarSpecs type).bytes "gguf.metadata.value"
    (scalarSpecs type).truncated
  match scalarValue type bits with
  | some value => return value
  | none => fail (cursorFail place .malformedValue .metadata "gguf.metadata.value"
      "GGUF bool metadata value must be zero or one")

structure Broken where
  stop : Stop
  leftover : Value
  released : List Value

def leaving {α : Type} (leftover : Value) (read : Reader Meter Stop α) : Reader Meter Broken α :=
  onError (fun _ stop => ⟨stop, leftover, []⟩) read

def countEntries (place : Place) (count : ℕ) : Reader Meter Stop Unit := do
  -- The entries of an array are counted once they fit the address space.
  require (decide (count ≤ input.options.maxArrayEntries.toNat)) (resourceFail place
    .resourceLimit "GGUF array entry budget exceeded")
  charging input.source .arrays count (resourceFail place .resourceLimit
    "GGUF array entry budget exceeded") (require (decide (count ≤ sizeMax / valueBytes))
    (resourceFail place .resourceLimit "GGUF array allocation exceeds address space"))

def parseArrayCount (place : Place) : Reader Meter Stop ℕ := do
  let count ← readU64 input place "gguf.metadata.array" "truncated GGUF array count"
  countEntries input place count
  return count

def parseArrayHead (place : Place) : Reader Meter Stop (ValueType × ℕ) := do
  let element ← readValueType input place "gguf.metadata.array"
    "truncated GGUF array element type"
  let count ← parseArrayCount input place
  return (element, count)

def allocateItems (place : Place) (count : ℕ) : Reader Meter Stop Unit := do
  reserveOwned input place (count * valueBytes)
  request input.source (resourceFail place .allocationFailure
    "failed to allocate GGUF array items")

def parseItems (element : ValueType) (parse : Reader Meter Broken Value) :
    ℕ → List Value → Reader Meter Broken (List Value)
  -- The items of an array. When one fails, the array is released as it stands: the items
  -- done, the failed one, and blank ones behind it.
  | 0, done => pure done
  | remaining + 1, done => do
    let item ← onError (fun _ broken => ⟨broken.stop, .invalid, broken.released ++
      [.array element (done ++ broken.leftover :: List.replicate remaining .blank)]⟩) parse
    parseItems element parse remaining (done ++ [item])

def parseArray (place : Place) (parse : ValueType → Reader Meter Broken Value)
    (element : ValueType) (count : ℕ) : Reader Meter Broken Value :=
  if count = 0 then return .bare element 0
  else do
    leaving (.bare element count) (allocateItems input place count)
    let items ← parseItems element (parse element) count []
    return .array element items

def parseValue (place : Place) (levels : ℕ) (type : ValueType) : Reader Meter Broken Value :=
  match type with
  | .string => leaving (.start .string) do
    let data ← readString input place 0 false false "gguf.metadata.value"
      "truncated GGUF metadata string"
    return .string (some data)
  | .array =>
    match levels with
    | 0 => leaving (.start .array) (fail (resourceFail place .resourceLimit
        "GGUF array nesting depth exceeds configured limit"))
    | levels + 1 => do
      let (element, count) ← leaving (.start .array) (parseArrayHead input place)
      parseArray input place (parseValue place levels) element count
  | .invalid => leaving .invalid (fail (cursorFail place .unsupportedMetadataType .metadata
      "gguf.metadata.type" "unsupported GGUF metadata value type"))
  | _ => leaving (.start type) (parseScalar input place type)

def magic : ℕ := 0x46554747
def supportedVersion : ℕ := 3
def defaultAlignment : ℕ := 32
def maxKeyLen : ℕ := 65535
def maxTensorNameLen : ℕ := 64

structure Header where
  version : ℕ
  metadataCount : ℕ
  tensorCount : ℕ

def parseHeader : Reader Meter Stop Header := do
  let place : Place := ⟨.container, noRecord⟩
  let word ← readU32 input place "core.container" "truncated GGUF magic"
  require (word == magic) (cursorFail place .invalidMagic .container "core.container"
    "invalid GGUF magic")
  let version ← readU32 input place "core.container" "truncated GGUF version"
  require (version == supportedVersion) (cursorFail place .unsupportedVersion .container
    "core.container" "unsupported GGUF container version")
  let tensorCount ← readU64 input place "core.container" "truncated GGUF tensor count"
  let metadataCount ← readU64 input place "core.container" "truncated GGUF metadata count"
  require (decide (metadataCount ≤ input.options.maxMetadataEntries.toNat ∧
    tensorCount ≤ input.options.maxTensorEntries.toNat)) (resourceFail place .resourceLimit
    "GGUF directory count exceeds configured limit")
  return ⟨version, metadataCount, tensorCount⟩

def nameIndexAllocate (place : Place) (count : ℕ) : Reader Meter Stop NameIndex :=
  if count = 0 then pure .empty
  else do
    require (decide (count ≤ ullongMax / 2)) (resourceFail place .invalidCount
      "GGUF identifier count overflows index sizing")
    match growCapacity (count * 2) 64 8 with
    | none => fail (resourceFail place .resourceLimit
        "GGUF identifier index exceeds address space")
    | some capacity =>
      require (decide (capacity ≤ sizeMax / slotBytes)) (resourceFail place .resourceLimit
        "GGUF identifier index allocation overflows")
      reserveOwned input place (capacity * slotBytes)
      request input.source (resourceFail place .allocationFailure
        "failed to allocate GGUF identifier index")
      return ⟨fun _ => none, capacity⟩

def nameIndexInsert (index : NameIndex) (names : List (List UInt8)) (name : List UInt8)
    (duplicate : Cursor Meter → Stop) : Reader Meter Stop NameIndex :=
  match index.walk names name with
  | some (slot, none) => pure (index.put slot names.length)
  | some (_, some _) => fail duplicate
  | none => fail fun _ => .endless

structure MetadataEntry where
  key : List UInt8
  value : Value

def parseKey (place : Place) (index : NameIndex) (keys : List (List UInt8)) :
    Reader Meter Stop (List UInt8 × ValueType × NameIndex) := do
  let key ← readString input place maxKeyLen true true "gguf.metadata.key"
    "truncated GGUF metadata key"
  require (metadataKeyValid key) (cursorFail place .malformedKey .metadata "gguf.metadata.key"
    "GGUF metadata key violates pinned key grammar")
  let index ← nameIndexInsert index keys key (cursorFail place .duplicateMetadataKey .metadata
    "gguf.metadata.key" "duplicate GGUF metadata key")
  let type ← readValueType input place "gguf.metadata.type"
    "truncated GGUF metadata value type"
  return (key, type, index)

def parseEntry (place : Place) (index : NameIndex) (keys : List (List UInt8)) :
    Reader Meter Broken (MetadataEntry × NameIndex) := do
  let (key, type, index) ← leaving .blank (parseKey input place index keys)
  let value ← parseValue input place input.options.maxArrayDepth.toNat type
  return (⟨key, value⟩, index)

structure Failure where
  -- A failed parse: why it stopped, the values that closing the view finds in the metadata
  -- table, and the arrays released before.
  stop : Stop
  metadata : List Value
  released : List Value

def keeping {α : Type} (metadata : List Value) (read : Reader Meter Stop α) :
    Reader Meter Failure α :=
  onError (fun _ stop => ⟨stop, metadata, []⟩) read

def parseEntries : ℕ → List MetadataEntry → NameIndex →
    Reader Meter Failure (List MetadataEntry × NameIndex)
  | 0, done, index => pure (done, index)
  | remaining + 1, done, index => do
    let (entry, index) ← onError (fun _ broken => ⟨broken.stop, done.map MetadataEntry.value ++
        broken.leftover :: List.replicate remaining .blank, broken.released⟩)
      (parseEntry input ⟨.metadata, done.length⟩ index (done.map MetadataEntry.key))
    parseEntries remaining (done ++ [entry]) index

def allocateTable (place : Place) (count rowBytes : ℕ) (excess missing : String) :
    Reader Meter Stop Unit := do
  require (decide (count ≤ sizeMax / rowBytes)) (resourceFail place .invalidCount excess)
  reserveOwned input place (count * rowBytes)
  request input.source (resourceFail place .allocationFailure missing)

def parseMetadata (count : ℕ) : Reader Meter Failure (List MetadataEntry × NameIndex) :=
  if count = 0 then pure ([], .empty)
  else do
    let place : Place := ⟨.metadata, noRecord⟩
    keeping [] (allocateTable input place count entryBytes
      "GGUF metadata count exceeds address space" "failed to allocate GGUF metadata table")
    let index ← keeping (List.replicate count .blank) (nameIndexAllocate input place count)
    parseEntries input count [] index

end Reading

def metadataFind (entries : List MetadataEntry) (index : NameIndex) (key : List UInt8) :
    Option (Option Value) :=
  (index.lookup (entries.map MetadataEntry.key) key).map fun record =>
    record.bind fun record => entries[record]?.map MetadataEntry.value

def alignmentKey : List UInt8 :=
  [103, 101, 110, 101, 114, 97, 108, 46, 97, 108, 105, 103, 110, 109, 101, 110, 116]

def deriveAlignment (entries : List MetadataEntry) (index : NameIndex) : Reader Meter Stop ℕ :=
  match metadataFind entries index alignmentKey with
  | none => fail fun _ => .endless
  | some none => pure defaultAlignment
  | some (some value) =>
    let refusal := cursorFail ⟨.metadata, noRecord⟩ .invalidAlignment .metadata
      "gguf.metadata.alignment" "general.alignment must be uint32 and nonzero"
    if value.typeOf ≠ .uint32 then fail refusal
    else match value.asU64 with
      | none => fail refusal
      | some alignment =>
        if alignment = 0 ∨ 2 ^ 32 - 1 < alignment then fail refusal else pure alignment

def alignOffset (place : Place) (offset alignment : ℕ) : Reader Meter Stop ℕ := do
  require (alignment != 0) (cursorFail place .invalidAlignment .range "gguf.range"
    "GGUF alignment is zero")
  let padding := if offset % alignment = 0 then 0 else alignment - offset % alignment
  require (decide (offset + padding ≤ ullongMax)) (cursorFail place .offsetOverflow .range
    "gguf.range" "GGUF tensor-data alignment overflows")
  return offset + padding

def qtypeParseCode : StorageStatus → ParseCode
  | .invalidRank => .invalidRank
  | .invalidDimension => .invalidDimension
  | .elementCountOverflow => .elementCountOverflow
  | .rowCountOverflow => .rowCountOverflow
  | .rowByteOverflow => .rowByteOverflow
  | .totalByteOverflow => .totalByteOverflow
  | _ => .refusedQtype

structure TensorRow where
  name : List UInt8
  dims : List ℕ
  ggmlType : ℕ
  relativeOffset : ℕ
  storageBytes : ℕ

structure TensorInfo extends TensorRow where
  ggmlTypeName : String
  absoluteOffset : ℕ
  absoluteEndOffset : ℕ
  rangeAddressable : Bool

section Tensors

variable (input : Input)

def parseDims (place : Place) : ℕ → Reader Meter Stop (List ℕ)
  | 0 => pure []
  | remaining + 1 => do
    let dim ← readU64 input place "gguf.tensor.dimension" "truncated GGUF tensor dimension"
    require (dim != 0) (cursorFail place .invalidDimension .tensorInfo "gguf.tensor.dimension"
      "GGUF tensor dimension is zero")
    let rest ← parseDims place remaining
    return dim :: rest

def parseShape (place : Place) : Reader Meter Stop (List ℕ × ℕ) := do
  let rank ← readU32 input place "gguf.tensor.rank" "truncated GGUF tensor rank"
  require (decide (0 < rank ∧ rank ≤ maxDims)) (cursorFail place .invalidRank .tensorInfo
    "gguf.tensor.rank" "GGUF tensor rank is outside the admitted range")
  let dims ← parseDims input place rank
  let type ← readU32 input place "gguf.tensor.qtype" "truncated GGUF tensor qtype"
  return (dims, type)

def storageOrFail (place : Place) (type : ℕ) (dims : List ℕ) : Reader Meter Stop ℕ :=
  match tensorStorage type dims with
  | .ok storage => pure storage.totalBytes
  | .error status => fail (cursorFail place (qtypeParseCode status) .qtype "gguf.tensor.qtype"
      status.reason)

def parseRow (place : Place) (alignment : ℕ) (index : NameIndex) (names : List (List UInt8)) :
    Reader Meter Stop (TensorRow × NameIndex) := do
  let name ← readString input place maxTensorNameLen true true "gguf.tensor.name"
    "truncated GGUF tensor name"
  let index ← nameIndexInsert index names name (cursorFail place .duplicateTensorName
    .tensorInfo "gguf.tensor.name" "duplicate GGUF tensor name")
  let (dims, type) ← parseShape input place
  let bytes ← storageOrFail place type dims
  let relative ← readU64 input place "gguf.tensor.offset" "truncated GGUF tensor relative offset"
  require (relative % alignment == 0) (cursorFail place .invalidAlignment .tensorInfo
    "gguf.tensor.offset" "GGUF tensor relative offset is misaligned")
  return (⟨name, dims, type, relative, bytes⟩, index)

def parseRows (alignment : ℕ) : ℕ → List TensorRow → NameIndex →
    Reader Meter Stop (List TensorRow × NameIndex)
  | 0, done, index => pure (done, index)
  | remaining + 1, done, index => do
    let (row, index) ← parseRow input ⟨.tensorInfo, done.length⟩ alignment index
      (done.map TensorRow.name)
    parseRows alignment remaining (done ++ [row]) index

def parseTensors (alignment count : ℕ) : Reader Meter Stop (List TensorRow × NameIndex) :=
  if count = 0 then pure ([], .empty)
  else do
    let place : Place := ⟨.tensorInfo, noRecord⟩
    allocateTable input place count tensorBytes
      "GGUF tensor count exceeds address space" "failed to allocate GGUF tensor directory"
    let index ← nameIndexAllocate input place count
    parseRows input alignment count [] index

def locateTensor (place : Place) (dataOffset : ℕ) (row : TensorRow) :
    Reader Meter Stop TensorInfo := do
  require (decide (dataOffset + row.relativeOffset ≤ ullongMax)) (cursorFail place
    .offsetOverflow .range "gguf.range" "GGUF tensor absolute offset overflows")
  let absolute := dataOffset + row.relativeOffset
  require (decide (absolute + row.storageBytes ≤ ullongMax)) (cursorFail place .offsetOverflow
    .range "gguf.range" "GGUF tensor absolute range overflows")
  return { row with
    ggmlTypeName := qtypeName row.ggmlType
    absoluteOffset := absolute
    absoluteEndOffset := absolute + row.storageBytes
    rangeAddressable := decide (absolute + row.storageBytes ≤ input.file.length) }

def locateTensors (dataOffset : ℕ) : ℕ → List TensorRow → Reader Meter Stop (List TensorInfo)
  | _, [] => pure []
  | record, row :: rest => do
    let info ← locateTensor input ⟨.range, record⟩ dataOffset row
    let infos ← locateTensors dataOffset (record + 1) rest
    return info :: infos

-- The tensor data begin at the next aligned offset behind the directory.
def locateData (alignment : ℕ) (rows : List TensorRow) :
    Reader Meter Stop (ℕ × ℕ × List TensorInfo) := fun cursor =>
  let place : Place := ⟨.range, noRecord⟩
  (do
    let dataOffset ← alignOffset place cursor.offset alignment
    require (rows.isEmpty || decide (dataOffset ≤ input.file.length)) (cursorFail place
      .incompleteDirectory .range "gguf.range" "GGUF tensor-data boundary exceeds file size")
    let tensors ← locateTensors input dataOffset 0 rows
    return (cursor.offset, dataOffset, tensors) : Reader Meter Stop _) cursor

end Tensors

structure View where
  header : Header
  metadata : List MetadataEntry
  metadataIndex : NameIndex
  alignment : ℕ
  tensors : List TensorInfo
  tensorIndex : NameIndex
  directoryEnd : ℕ
  tensorDataOffset : ℕ
  fileSize : ℕ

structure Directory where
  header : Header
  metadata : List MetadataEntry
  metadataIndex : NameIndex
  alignment : ℕ
  rows : List TensorRow
  tensorIndex : NameIndex

section Opening

variable (input : Input)

def parseDirectory : Reader Meter Failure Directory := do
  let header ← keeping [] (parseHeader input)
  let (metadata, metadataIndex) ← parseMetadata input header.metadataCount
  let values := metadata.map MetadataEntry.value
  let alignment ← keeping values (deriveAlignment metadata metadataIndex)
  let (rows, tensorIndex) ← keeping values (parseTensors input alignment header.tensorCount)
  return ⟨header, metadata, metadataIndex, alignment, rows, tensorIndex⟩

def parseView : Reader Meter Failure View := do
  let directory ← parseDirectory input
  let (directoryEnd, dataOffset, tensors) ← keeping (directory.metadata.map MetadataEntry.value)
    (locateData input directory.alignment directory.rows)
  return {
    header := directory.header
    metadata := directory.metadata
    metadataIndex := directory.metadataIndex
    alignment := directory.alignment
    tensors := tensors
    tensorIndex := directory.tensorIndex
    directoryEnd := directoryEnd
    tensorDataOffset := dataOffset
    fileSize := input.file.length }

def blankCursor : Cursor Meter := ⟨0, fun _ => 0, 0⟩

def firstCursor : Cursor Meter := blankCursor.advance 0 (asked + one .owned viewBytes)

def openFail (code : ParseCode) (reason : String) : Failure where
  stop := .refused ⟨code, .resource, 0, noRecord, "yvex_gguf_open_ex", reason⟩
  metadata := []
  released := []

def openEx : Except Failure View × Cursor Meter :=
  if ¬ input.options.Nonzero then
    (.error (openFail .invalidArgument "GGUF reader limits must be nonzero"), blankCursor)
  else if ¬ input.grants 0 then
    (.error (openFail .allocationFailure "failed to allocate GGUF view"),
      blankCursor.advance 0 asked)
  else if input.options.maxOwnedBytes.toNat < viewBytes then
    (.error (openFail .resourceLimit "GGUF view exceeds owned-memory budget"), firstCursor)
  else parseView input firstCursor

end Opening

def View.metadataFind (view : View) (key : List UInt8) : Option (Option Value) :=
  GgufReader.metadataFind view.metadata view.metadataIndex key

def View.tensorFind (view : View) (name : List UInt8) : Option (Option TensorInfo) :=
  (view.tensorIndex.lookup (view.tensors.map fun tensor => tensor.name) name).map fun record =>
    record.bind fun record => view.tensors[record]?

end Yvex.GgufReader
