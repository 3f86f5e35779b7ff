import Yvex.StatePages
import Yvex.StateRecipe

/-!
# Retained candidate deltas

Each applied publication is retained by value, in storage that later deltas
reuse. From a retained delta with per-row rolling checkpoints the publication of
any shorter prefix can be projected without running the rejected rows again.
-/

set_option autoImplicit false

namespace Yvex.Candidate

open AttentionData CheckedArithmetic RefusableStep StatePages

inductive CandidateSlot where
  | rawKv
  | compressedKv
  | compressedPositions
  | indexerKv
  | indexerPositions
  | tokenIds
  | kvCheckpoints (binding : RollingBinding)
  | scoreCheckpoints (binding : RollingBinding)
  deriving DecidableEq

def CandidateSlot.all : List CandidateSlot :=
  [.rawKv, .compressedKv, .compressedPositions, .indexerKv, .indexerPositions, .tokenIds,
    .kvCheckpoints .mainRolling, .scoreCheckpoints .mainRolling,
    .kvCheckpoints .indexerRolling, .scoreCheckpoints .indexerRolling]

structure CandidateDelta where
  publication : Publication
  storageCapacity : CandidateSlot → ℕ

def floatBytes : ℕ := 4

def positionBytes : ℕ := 8

def tokenBytes : ℕ := 4

def storageBytes (count width elementSize : ℕ) : Option ℕ := do
  let elements ← u64Mul count width
  u64Mul elements elementSize

def emissionWidth (stride : ℕ) (next : RollingView) : ℕ :=
  -- The width of emitted rows; a batch that emits none still reserves room for the rows its
  -- rolling state will emit at a later ratio boundary.
  if stride ≠ 0 then stride else if next.present then next.headDimension else 0

def emissionRows (publication : Publication) (width count : ℕ) : ℕ :=
  if width ≠ 0 then publication.tokenCount else count

def requiredBytes (publication : Publication) : CandidateSlot → Option ℕ
  | .rawKv => storageBytes publication.tokenCount publication.kvWidth floatBytes
  | .compressedKv => storageBytes (emissionRows publication width publication.compressedCount)
      width floatBytes
  | .compressedPositions =>
    storageBytes (emissionRows publication width publication.compressedCount) 1 positionBytes
  | .indexerKv => storageBytes (emissionRows publication indexerWidth publication.indexerCount)
      indexerWidth floatBytes
  | .indexerPositions =>
    storageBytes (emissionRows publication indexerWidth publication.indexerCount) 1 positionBytes
  | .tokenIds =>
    storageBytes (if publication.tokenIds.isSome then publication.tokenCount else 0) 1 tokenBytes
  | .kvCheckpoints b => storageBytes (rows b) (publication.nextRollingState b).kvStateExtent
      floatBytes
  | .scoreCheckpoints b => storageBytes (rows b)
      (publication.nextRollingState b).scoreStateExtent floatBytes
where
  width := emissionWidth publication.compressedStride (publication.nextRollingState .mainRolling)
  indexerWidth :=
    emissionWidth publication.indexerStride (publication.nextRollingState .indexerRolling)
  rows (b : RollingBinding) : ℕ :=
    if (publication.nextRollingState b).present then
      if publication.prefixAddressable then publication.rollingCheckpointCount else 1
    else 0

def emissionsStored (publication : Publication) : Bool :=
  (publication.compressedCount == 0 || (publication.compressedKv.isSome &&
    publication.compressedPositions.isSome && publication.compressedStride != 0)) &&
  (publication.indexerCount == 0 || (publication.indexerKv.isSome &&
    publication.indexerPositions.isSome && publication.indexerStride != 0))

def growSlot (required : CandidateSlot → ℕ) (slot : CandidateSlot)
    (s : PagePool × (CandidateSlot → ℕ)) : Outcome Unit (PagePool × (CandidateSlot → ℕ)) :=
  if required slot ≤ s.2 slot then .done s
  else match s.1.hostCall with
  | (true, pool) => .done (pool, Function.update s.2 slot (required slot))
  | (false, pool) => .refused () (pool, s.2)

def storagePrepare (publication : Publication) (pool : PagePool)
    (capacity : CandidateSlot → ℕ) : Outcome Unit (PagePool × (CandidateSlot → ℕ)) :=
  -- New storage is adopted only after every slot grew.
  if CandidateSlot.all.all (fun slot => (requiredBytes publication slot).isSome) &&
      emissionsStored publication then
    match forEach (growSlot fun slot => (requiredBytes publication slot).getD 0)
        CandidateSlot.all (pool, capacity) with
    | .done s => .done s
    | .refused e s => .refused e (s.1, capacity)
  else .refused () (pool, capacity)

section Store

variable {α : Type}

def candidateStore (capacity count elementSize : ℕ) (source : Option (ℕ → α)) :
    Option (Option (ℕ → α)) :=
  if count = 0 then some none
  else match source, u64Mul count elementSize with
  | some values, some bytes => if bytes ≤ capacity then some (some values) else none
  | _, _ => none

def candidateStoreRows (capacity rows width elementSize : ℕ) (source : Option (ℕ → α)) :
    Option (Option (ℕ → α)) :=
  match u64Mul rows width with
  | some count => candidateStore capacity count elementSize source
  | none => none

def pointerOf : Option (ℕ → α) → Pointer α
  | some values => .memory values
  | none => .null

def pointee : Pointer α → Option (ℕ → α)
  | .memory values => some values
  | _ => none

end Store

def withoutStorage (publication : Publication) : Publication :=
  { publication with
    rawKv := none
    compressedKv := none
    indexerKv := none
    compressedPositions := none
    indexerPositions := none
    tokenIds := none
    rollingKvCheckpoints := fun _ => none
    rollingScoreCheckpoints := fun _ => none
    nextRollingState := fun b =>
      { publication.nextRollingState b with kvState := .null, scoreState := .null } }

def copyRolling (capacity : CandidateSlot → ℕ) (source : Publication) (b : RollingBinding)
    (copy : Publication) : Option Publication :=
  let rolling := source.nextRollingState b
  let rows := if source.prefixAddressable then source.rollingCheckpointCount else 1
  let kv := if source.prefixAddressable then source.rollingKvCheckpoints b
    else pointee rolling.kvState
  let score := if source.prefixAddressable then source.rollingScoreCheckpoints b
    else pointee rolling.scoreState
  if !rolling.present then
    if source.prefixAddressable && (kv.isSome || score.isSome) then none else some copy
  else if kv.isNone || score.isNone || (source.prefixAddressable &&
      (rows == 0 || rolling.kvStateExtent == 0 || rolling.scoreStateExtent == 0)) then none
  else do
    let kv ← candidateStoreRows (capacity (.kvCheckpoints b)) rows rolling.kvStateExtent
      floatBytes kv
    let score ← candidateStoreRows (capacity (.scoreCheckpoints b)) rows
      rolling.scoreStateExtent floatBytes score
    some { copy with
      rollingKvCheckpoints := Function.update copy.rollingKvCheckpoints b kv
      rollingScoreCheckpoints := Function.update copy.rollingScoreCheckpoints b score }

def storeSteps (capacity : CandidateSlot → ℕ) (source : Publication) :
    List (Publication → Option Publication) :=
  [fun copy => (candidateStoreRows (capacity .rawKv) source.tokenCount source.kvWidth floatBytes
      source.rawKv).map fun stored => { copy with rawKv := stored },
    fun copy => (candidateStoreRows (capacity .compressedKv) source.compressedCount
      source.compressedStride floatBytes source.compressedKv).map
      fun stored => { copy with compressedKv := stored },
    fun copy => (candidateStore (capacity .compressedPositions) source.compressedCount
      positionBytes source.compressedPositions).map
      fun stored => { copy with compressedPositions := stored },
    fun copy => (candidateStoreRows (capacity .indexerKv) source.indexerCount
      source.indexerStride floatBytes source.indexerKv).map
      fun stored => { copy with indexerKv := stored },
    fun copy => (candidateStore (capacity .indexerPositions) source.indexerCount positionBytes
      source.indexerPositions).map fun stored => { copy with indexerPositions := stored },
    fun copy => if source.tokenIds.isSome then
      (candidateStore (capacity .tokenIds) source.tokenCount tokenBytes source.tokenIds).map
        fun stored => { copy with tokenIds := stored } else some copy,
    copyRolling capacity source .mainRolling,
    copyRolling capacity source .indexerRolling]

def runStore (step : Publication → Option Publication) (copy : Publication) :
    Outcome Unit Publication :=
  match step copy with
  | some next => .done next
  | none => .refused () copy

def bindFinalRolling (copy : Publication) : Publication :=
  if copy.prefixAddressable then copy
  else { copy with nextRollingState := fun b =>
    if (copy.nextRollingState b).present then
      { copy.nextRollingState b with
        kvState := pointerOf (copy.rollingKvCheckpoints b)
        scoreState := pointerOf (copy.rollingScoreCheckpoints b) }
    else copy.nextRollingState b }

def publicationRetainable (publication : Publication) : Bool :=
  publication.complete && !publication.deviceCompletionPending && publication.tokenCount != 0 &&
    publication.rawKv.isSome && publication.kvWidth != 0 &&
    (!publication.prefixAddressable ||
      !((publication.nextRollingState .mainRolling).present ||
        (publication.nextRollingState .indexerRolling).present) ||
      publication.rollingCheckpointCount == publication.tokenCount)

def candidateRefusal (status : Status) (reason : String) : Refusal :=
  StateRecipe.errorOnly status "graph.attention.candidate" reason

def candidateDeltaOpen (publication : Publication) (pool : PagePool)
    (owner : Option CandidateDelta) : Outcome Refusal (PagePool × Option CandidateDelta) :=
  -- Opens a delta over a reused one or a fresh one. A fresh delta is given back on refusal;
  -- a reused one keeps the storage and the fields written so far.
  let exhausted := candidateRefusal .nomem "candidate delta storage allocation failed"
  if !publicationRetainable publication then
    .refused (candidateRefusal .format "prefix-addressable attention publication is incomplete")
      (pool, owner)
  else
    let (allocated, pool) := if owner.isNone then pool.hostCall else (true, pool)
    if !allocated then
      .refused (candidateRefusal .nomem "candidate delta allocation failed") (pool, none)
    else
      let held := owner.elim (fun _ => 0) (·.storageCapacity)
      match storagePrepare publication pool held with
      | .refused _ s => .refused exhausted (s.1, owner)
      | .done s =>
        match forEach runStore (storeSteps s.2 publication) (withoutStorage publication) with
        | .refused _ copy => .refused exhausted (s.1, owner.map fun _ => ⟨copy, s.2⟩)
        | .done copy => .done (s.1, some ⟨bindFinalRolling copy, s.2⟩)

def emissionCount (committed : HistoryView) (rolling : RollingView)
    (prefixCount available : ℕ) : Option ℕ := do
  -- Rows emitted by the first `prefixCount` tokens. A compressed position names the first
  -- token of its group, so the count follows from the ratio.
  guard (rolling.present ∧ rolling.ratio ≠ 0)
  let stop ← u64Add committed.tokenCount prefixCount
  let selected := stop / rolling.ratio - committed.tokenCount / rolling.ratio
  if selected ≤ available then some selected else none

structure RollingFill where
  cursor : ℕ
  previousFill : ℕ
  currentFill : ℕ

def fillStep (ratio : ℕ) (overlap : Bool) (next : ℕ) (fill : RollingFill) (token : ℕ) :
    RollingFill :=
  if (next + token + 1) % ratio = 0 then ⟨0, if overlap then ratio else 0, 0⟩
  else ⟨(fill.cursor + 1) % ratio, fill.previousFill, max fill.currentFill (fill.cursor + 1)⟩

def rollingProject (before : RollingView) (kvCheckpoints scoreCheckpoints : Option (ℕ → Scalar))
    (prefixCount : ℕ) : RollingView :=
  let fill := (List.range prefixCount).foldl
    (fillStep before.ratio before.overlap before.nextTokenPosition)
    ⟨before.cursor, before.previousFill, before.currentFill⟩
  let row (extent : ℕ) (checkpoints : Option (ℕ → Scalar)) : Pointer Scalar :=
    pointerOf (checkpoints.map fun values i => values ((prefixCount - 1) * extent + i))
  { before with
    kvState := row before.kvStateExtent kvCheckpoints
    scoreState := row before.scoreStateExtent scoreCheckpoints
    nextTokenPosition := before.nextTokenPosition + prefixCount
    previousFill := fill.previousFill
    currentFill := fill.currentFill
    cursor := fill.cursor }

def projectedCount (source : Publication) (committed : HistoryView) (prefixCount : ℕ)
    (b : RollingBinding) (available : ℕ) (reason : String) : Except Refusal ℕ :=
  if !(source.nextRollingState b).present then .ok available
  else match emissionCount committed (committed.rolling b) prefixCount available with
  | some selected => .ok selected
  | none => .error (candidateRefusal .state reason)

def candidateDeltaProject (source : Publication) (committed : HistoryView) (prefixCount : ℕ) :
    Except Refusal Publication := do
  if committed.tokenCount ≠ source.tokenPosition then
    throw (candidateRefusal .state "candidate prefix does not continue its committed base")
  if prefixCount = 0 ∨ source.tokenCount < prefixCount then
    throw (candidateRefusal .bounds "candidate prefix exceeds the retained verification extent")
  if !source.prefixAddressable ∧ prefixCount ≠ source.tokenCount then
    throw (candidateRefusal .unsupported
      "non-prefix publication cannot project a shorter state prefix")
  if (u64Add source.tokenPosition prefixCount).isNone then
    throw (candidateRefusal .bounds "candidate prefix position overflowed")
  let compressed ← projectedCount source committed prefixCount .mainRolling
    source.compressedCount "compressed prefix checkpoints disagree with the committed base"
  let indexer ← projectedCount source committed prefixCount .indexerRolling
    source.indexerCount "indexer prefix checkpoints disagree with the committed base"
  return { source with
    prefixAddressable := false
    tokenCount := prefixCount
    compressedCount := compressed
    indexerCount := indexer
    nextRollingState := fun b =>
      if source.prefixAddressable && (source.nextRollingState b).present then
        rollingProject (committed.rolling b) (source.rollingKvCheckpoints b)
          (source.rollingScoreCheckpoints b) prefixCount
      else source.nextRollingState b }

end Yvex.Candidate
