import Yvex.AttentionData
import Yvex.CheckedArithmetic

/-!
# Validation of history views

A view is admitted only if it is the unique complete history of its token count:
the local rows are the newest window, the compressed rows are every completed
ratio group, and each rolling state stands exactly at the token count.
-/

set_option autoImplicit false

namespace Yvex.HistoryValidate

open AttentionData CheckedArithmetic

def check (holds : Bool) (refusal : Refusal) : Except Refusal Unit :=
  if holds then .ok () else .error refusal

def historyRefusal (layer : LayerPlan) (expected actual : ℕ) (status : Status)
    (reason : String) : Refusal :=
  reject .history layer.layerIndex expected actual status reason

def checkRows (count : ℕ) (bad : ℕ → Bool) (refusal : ℕ → Refusal) : Except Refusal Unit :=
  match (List.range count).find? bad with
  | some i => .error (refusal i)
  | none => .ok ()

structure RollingGeometry where
  ratio : ℕ
  headDimension : ℕ
  stateWidth : ℕ
  stateSlots : ℕ
  overlap : Bool
  rotated : Bool

def rollingGeometry (layer : LayerPlan) (kind : RollingKind) : Option RollingGeometry := do
  guard (layer.compressionRatio ≠ 0)
  let (headDimension, overlap, rotated) ← match kind with
    | .main => some (layer.headDimension, decide (layer.attentionClass = .csa), false)
    | .indexer =>
      if layer.attentionClass = .csa then some (layer.indexerHeadDimension, true, true) else none
    | .none => none
  let coefficient := if overlap then 2 else 1
  let stateWidth ← u64Mul headDimension coefficient
  let stateSlots ← u64Mul layer.compressionRatio coefficient
  guard (headDimension ≠ 0)
  some ⟨layer.compressionRatio, headDimension, stateWidth, stateSlots, overlap, rotated⟩

def rollingActiveValuesAreFinite (kv score : ℕ → Scalar) (kvStride scoreStride headDimension
    ratio previousFill currentFill : ℕ) (overlap : Bool) : Bool :=
  -- The previous half takes part in the first overlap emission before it holds a
  -- completed group, so its sentinel scores belong to the admitted state.
  (!overlap || previousFill != 0 || (List.range ratio).all fun slot =>
    (List.range headDimension).all fun lane =>
      isInfinite (score (slot * scoreStride + lane)) &&
        signBit (score (slot * scoreStride + lane))) &&
  (!overlap || (List.range previousFill).all fun slot =>
    (List.range headDimension).all fun lane =>
      isFinite (kv (slot * kvStride + lane)) && isFinite (score (slot * scoreStride + lane))) &&
  (List.range currentFill).all fun slot =>
    let base := if overlap then ratio + slot else slot
    let offset := if overlap then headDimension else 0
    (List.range headDimension).all fun lane =>
      isFinite (kv (base * kvStride + lane + offset)) &&
        isFinite (score (base * scoreStride + lane + offset))

def extentCovers (slots stride extent : ℕ) : Bool :=
  match u64Mul slots stride with
  | some required => decide (required ≤ extent)
  | none => false

def rollingStateValidate (layer : LayerPlan) (state : RollingView) (kind : RollingKind) :
    Except Refusal Unit :=
  let refuse := historyRefusal layer
  if !state.present then
    .error (refuse 1 0 .invalidArg "DeepSeek attention rolling state is missing")
  else match rollingGeometry layer kind with
  | none => .error (refuse 1 0 .unsupported
      "DeepSeek attention rolling state is not used by this class")
  | some geometry => do
    check (state.schemaVersion == 1 && state.kind == kind &&
        state.attentionClass == layer.attentionClass && state.layerIndex == layer.layerIndex &&
        state.ratio == geometry.ratio && state.headDimension == geometry.headDimension &&
        state.stateWidth == geometry.stateWidth && state.stateSlots == geometry.stateSlots &&
        state.overlap == geometry.overlap && state.rotated == geometry.rotated)
      (refuse geometry.stateWidth state.stateWidth .format
        "DeepSeek attention rolling state identity or geometry mismatch")
    check (decide (state.cursor < geometry.ratio) &&
        decide (state.previousFill ≤ geometry.ratio) &&
        decide (state.currentFill ≤ geometry.ratio) &&
        (geometry.overlap || state.previousFill == 0))
      (refuse geometry.ratio state.cursor .bounds
        "DeepSeek attention rolling state cursor or fill is invalid")
    let expectedCursor := state.nextTokenPosition % geometry.ratio
    check (state.cursor == expectedCursor && state.currentFill == expectedCursor &&
        state.previousFill ==
          (if geometry.overlap && decide (geometry.ratio ≤ state.nextTokenPosition) then
            geometry.ratio else 0))
      (refuse expectedCursor state.cursor .state
        "DeepSeek attention rolling state does not match its token position")
    check (decide (geometry.stateWidth ≤ state.kvStateStride) &&
        decide (geometry.stateWidth ≤ state.scoreStateStride) && !state.kvState.isNull &&
        !state.scoreState.isNull)
      (refuse geometry.stateWidth state.kvStateStride .format
        "DeepSeek attention rolling state storage is incomplete")
    check (extentCovers geometry.stateSlots state.kvStateStride state.kvStateExtent &&
        extentCovers geometry.stateSlots state.scoreStateStride state.scoreStateExtent)
      (refuse geometry.stateSlots state.kvStateExtent .bounds
        "DeepSeek attention rolling state extent is too small")
    check (rollingActiveValuesAreFinite state.kvState.read state.scoreState.read
        state.kvStateStride state.scoreStateStride geometry.headDimension geometry.ratio
        state.previousFill state.currentFill geometry.overlap)
      (reject .numeric layer.layerIndex 1 0 .format
        "DeepSeek attention rolling state contains non-finite active values")

def localCapacity (layer : LayerPlan) : ℕ :=
  layer.slidingWindow - (if layer.tensorScope = .draft then 0 else 1)

def expectedCompressed (layer : LayerPlan) (tokenCount : ℕ) : ℕ :=
  if layer.attentionClass = .swa then 0 else tokenCount / layer.compressionRatio

def compressedPositionBad (layer : LayerPlan) (history : HistoryView) (i : ℕ) : Bool :=
  match u64Mul i layer.compressionRatio with
  | none => true
  | some position =>
    (history.history .compressedHistory).positions.read i != position ||
      (layer.attentionClass == .csa &&
        (history.history .indexerHistory).positions.read i != position)

def historyPositionsValidate (layer : LayerPlan) (history : HistoryView) :
    Except Refusal Unit := do
  let refuse := historyRefusal layer
  let tail := history.history .localHistory
  let expectedLocal := min history.tokenCount (localCapacity layer)
  let compressed := expectedCompressed layer history.tokenCount
  check (layer.slidingWindow != 0)
    (refuse 1 0 .format "DeepSeek attention history requires a nonzero sliding window")
  check (tail.count == expectedLocal)
    (refuse expectedLocal tail.count (if expectedLocal < tail.count then .bounds else .format)
      "DeepSeek attention local history is not the complete window suffix")
  check (layer.attentionClass == .swa || layer.compressionRatio != 0)
    (refuse 1 0 .format "compressed attention history requires a nonzero ratio")
  check ((history.history .compressedHistory).count == compressed)
    (refuse compressed (history.history .compressedHistory).count .format
      "DeepSeek attention compressed history is not the complete prefix")
  check (layer.attentionClass != .csa || (history.history .indexerHistory).count == compressed)
    (refuse compressed (history.history .indexerHistory).count .format
      "CSA indexer history is not the complete compressed prefix")
  let localStart := history.tokenCount - expectedLocal
  checkRows expectedLocal (fun i => tail.positions.read i != localStart + i) fun i =>
    refuse (localStart + i) (tail.positions.read i) .format
      "local history does not contain the exact contiguous suffix"
  -- A product that overflows leaves the expected position at its initial zero.
  checkRows compressed (compressedPositionBad layer history) fun i =>
    refuse ((u64Mul i layer.compressionRatio).getD 0)
      ((history.history .compressedHistory).positions.read i) .format
      "compressed history does not contain every completed ratio group"

def usesDenseQkv (layer : LayerPlan) : Bool :=
  layer.queryLoraRank == 0 && layer.outputLoraRank == 0 && layer.outputGroups == 0 &&
    !layer.compressorRequired && !layer.indexerRequired

def denseStateWidth (layer : LayerPlan) : Option ℕ := do
  guard (layer.kvHeads ≠ 0)
  let oneSide ← u64Mul layer.kvHeads layer.headDimension
  u64Mul oneSide 2

def widthRefusal (status : Status) (reason : String) : Refusal :=
  -- The width refusals set the error without a failure record.
  ⟨status, "graph.attention.state-width", reason, none⟩

def localStateWidth (layer : LayerPlan) : Except Refusal ℕ :=
  if layer.headDimension = 0 then
    .error (widthRefusal .invalidArg "one admitted attention layer and width output are required")
  else if usesDenseQkv layer then
    match denseStateWidth layer with
    | some width => .ok width
    | none => .error (widthRefusal .bounds "direct K/V state geometry overflowed")
  else .ok layer.headDimension

def spanStored (span : HistorySpan) (width : ℕ) : Bool :=
  span.count == 0 || (!span.kv.isNull && !span.positions.isNull && decide (width ≤ span.stride))

def rollingStatesValidate (layer : LayerPlan) (history : HistoryView) : Except Refusal Unit :=
  let refuse := historyRefusal layer
  let main := history.rolling .mainRolling
  let indexer := history.rolling .indexerRolling
  if layer.attentionClass = .swa then
    check (!main.present && !indexer.present)
      (refuse 0 1 .format "SWA history may not carry compressor rolling state")
  else do
    rollingStateValidate layer main .main
    check (main.nextTokenPosition == history.tokenCount)
      (refuse history.tokenCount main.nextTokenPosition .state
        "main rolling state token position is stale")
    if layer.attentionClass = .csa then do
      rollingStateValidate layer indexer .indexer
      check (indexer.nextTokenPosition == history.tokenCount)
        (refuse history.tokenCount indexer.nextTokenPosition .state
          "indexer rolling state token position is stale")
    else
      check (!indexer.present)
        (refuse 0 1 .format "HCA history may not carry indexer rolling state")

def historyValidate (layer : LayerPlan) (history : HistoryView) : Except Refusal Unit := do
  let refuse := historyRefusal layer
  let tail := history.history .localHistory
  let compressed := history.history .compressedHistory
  let indexer := history.history .indexerHistory
  check history.immutable (refuse 1 0 .state "attention history view must be immutable")
  let width ← localStateWidth layer
  check (spanStored tail width)
    (refuse width tail.stride .format "attention local history lacks exact KV storage")
  check (spanStored compressed layer.headDimension)
    (refuse layer.headDimension compressed.stride .format
      "DeepSeek attention compressed history lacks KV storage")
  check (spanStored indexer layer.indexerHeadDimension)
    (refuse layer.indexerHeadDimension indexer.stride .format
      "DeepSeek attention indexer history lacks KV storage")
  historyPositionsValidate layer history
  check (layer.attentionClass != .swa || (compressed.count == 0 && indexer.count == 0))
    (refuse 0 (compressed.count + indexer.count) .format
      "SWA history may not carry compressed or indexer entries")
  check (layer.attentionClass != .hca || indexer.count == 0)
    (refuse 0 indexer.count .format "HCA history may not carry CSA indexer entries")
  rollingStatesValidate layer history

end Yvex.HistoryValidate
