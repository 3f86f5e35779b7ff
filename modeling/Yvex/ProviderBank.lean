import Yvex.CandidateDelta
import Yvex.HistoryValidate
import Yvex.StateBank

/-!
# Banks of the attention-state provider

A layer owns two banks. One is committed and is what readers see; the other is
the candidate that a transaction writes. Publishing exchanges their roles.
Rolling the candidate back copies the overwritten ring slots and the rolling
arrays from the committed bank; compressed and indexer rows beyond the committed
counts are left, since no view reaches them. Mirroring replays the retained
deltas into the bank that is about to become the candidate.
-/

set_option autoImplicit false

namespace Yvex.Provider

open AttentionData StatePages StateBank CapacityPlan Candidate StateRecipe CheckedArithmetic
  RefusableStep HistoryValidate

structure LayerState where
  plan : LayerPlan
  recipe : StateRecipe
  bank : Bool → Bank
  committedBank : Bool
  prepared : Bool
  staged : Bool
  banksSynchronized : Bool
  completionPending : Bool
  candidateDeltas : List CandidateDelta
  spareDeltas : List CandidateDelta
  candidateDeltaCapacity : ℕ
  candidateDeltaLimit : ℕ
  candidateDeltaBytes : ℕ

namespace LayerState

def committed (layer : LayerState) : Bank := layer.bank layer.committedBank

def candidate (layer : LayerState) : Bank := layer.bank (!layer.committedBank)

def setCommitted (layer : LayerState) (bank : Bank) : LayerState :=
  { layer with bank := Function.update layer.bank layer.committedBank bank }

def setCandidate (layer : LayerState) (bank : Bank) : LayerState :=
  { layer with bank := Function.update layer.bank (!layer.committedBank) bank }

def publications (layer : LayerState) : List Publication :=
  layer.candidateDeltas.map (·.publication)

def clearDeltas (layer : LayerState) : LayerState :=
  { layer with
    candidateDeltas := []
    spareDeltas := layer.candidateDeltas ++ layer.spareDeltas }

@[simp] theorem committed_setCandidate (l : LayerState) (b : Bank) :
    (l.setCandidate b).committed = l.committed := by
  simp [setCandidate, committed]

@[simp] theorem committed_setCommitted (l : LayerState) (b : Bank) :
    (l.setCommitted b).committed = b := by
  simp [setCommitted, committed]

end LayerState

structure Cancellation where
  requested : Option ℕ
  context : ℕ
  deriving DecidableEq

structure StateDelta where
  layerIndex : ℕ
  tokenPosition : ℕ
  tokenCount : ℕ
  nextPosition : ℕ
  componentEntries : Binding → ℕ
  priorStateIdentity : Identity
  candidateStateIdentity : Identity
  stateDeltaIdentity : Identity
  requiresCommit : Bool

def StateDelta.zero : StateDelta := ⟨0, 0, 0, 0, fun _ => 0, [], [], [], false⟩

structure Transaction where
  layer : Option ℕ
  layerOrdinal : ℕ
  tokenPosition : ℕ
  tokenCount : ℕ
  appliedTokens : ℕ
  stagedCount : ℕ
  batchPosition : ℕ
  batchTokenCount : ℕ
  preparedCommitCount : ℕ
  preparedGeneration : ℕ
  preparedNextPosition : ℕ
  active : Bool
  candidateActive : Bool
  failed : Bool
  publicationPrepared : Bool
  prefixSelected : Bool
  selectedPrefixCount : ℕ
  extensionTokenCount : ℕ
  cancellation : Option Cancellation
  stateLayoutIdentity : Identity
  preparedContentIdentity : Identity
  delta : StateDelta

def Transaction.zero : Transaction where
  layer := none
  layerOrdinal := 0
  tokenPosition := 0
  tokenCount := 0
  appliedTokens := 0
  stagedCount := 0
  batchPosition := 0
  batchTokenCount := 0
  preparedCommitCount := 0
  preparedGeneration := 0
  preparedNextPosition := 0
  active := false
  candidateActive := false
  failed := false
  publicationPrepared := false
  prefixSelected := false
  selectedPrefixCount := 0
  extensionTokenCount := 0
  cancellation := none
  stateLayoutIdentity := []
  preparedContentIdentity := []
  delta := .zero

/-- The provider's own summary record. Its `transactionActive` is filled in only
in the copies handed to callers; in the record itself it stays as opened. -/
structure Summary where
  cancelled : Bool
  invalidated : Bool
  transactionActive : Bool
  positionConsistent : Bool
  paged : Bool
  pagingConfigured : Bool
  layerCount : ℕ
  preparedLayerCount : ℕ
  commitCount : ℕ
  abortCount : ℕ
  cancellationCount : ℕ
  resetCount : ℕ
  generation : ℕ
  capacity : ℕ
  committedSequenceLength : ℕ
  nextPosition : ℕ
  stateLayoutIdentity : Identity
  stateContentIdentity : Identity
  capacityPlanIdentity : Identity

structure AttentionState where
  planIdentity : Identity
  planScope : TensorScope
  layers : ℕ → LayerState
  layerCount : ℕ
  pagePool : PagePool
  capacityPlan : Option ExecutionCapacityPlan
  summary : Summary
  transaction : Transaction

namespace AttentionState

def setLayer (state : AttentionState) (index : ℕ) (layer : LayerState) : AttentionState :=
  { state with layers := Function.update state.layers index layer }

def mapLayers (state : AttentionState) (f : LayerState → LayerState) : AttentionState :=
  { state with layers := fun i => if i < state.layerCount then f (state.layers i)
      else state.layers i }

end AttentionState

def contentBank (staged : Bool) (layer : LayerState) : Bank :=
  if staged && layer.staged then layer.candidate else layer.committed

def contentLayerFields (staged : Bool) (state : AttentionState) (index : ℕ) : List HashField :=
  if (state.layers index).prepared then
    [.word index, .text (contentBank staged (state.layers index)).stateIdentity]
  else []

def stateContentIdentity (sha : Sha256) (state : AttentionState) (staged : Bool)
    (layoutIdentity : Identity) : Option Identity :=
  sha.digest ([textField "yvex.graph.attention.persistent-state.v1", .text layoutIdentity] ++
    (List.range state.layerCount).flatMap (contentLayerFields staged state) ++
    [.word ((List.range state.layerCount).countP fun i => (state.layers i).prepared)])

def stateMessage (reason : String) (layer expected actual : ℕ) : String :=
  reason ++ " (layer=" ++ toString layer ++ " expected=" ++ toString expected ++ " actual=" ++
    toString actual ++ ")"

def stateReject (layer expected actual : ℕ) (reason : String) (status : Status) : Refusal where
  status := status
  site := "graph.attention.state"
  reason := stateMessage reason layer expected actual
  failure := some ⟨if status = .cancelled then .cancelled else .stateDelta, layer, expected,
    actual, reason⟩

def rollingCopyComponent (source : Bank) (destination : Bank) (component : ComponentRecipe) :
    Bank :=
  match component.binding with
  | .history _ => destination
  | .rolling b =>
    let view := source.view.rolling b
    (destination.setRolling b
      { valuePages := (destination.rolling b).valuePages.copyBlock (source.rolling b).valuePages
          0 0 view.kvStateExtent
        auxiliaryPages := (destination.rolling b).auxiliaryPages.copyBlock
          (source.rolling b).auxiliaryPages 0 0 view.scoreStateExtent }).setRollingView b view

def bankRollingCopy (recipe : StateRecipe) (source destination : Bank) : Bank :=
  recipe.components.foldl (rollingCopyComponent source) destination

def restoreSlot (component : ComponentRecipe) (source target : HistoryStorage) (slot : ℕ) :
    HistoryStorage :=
  let width := component.valueWidth
  let twin := slot + component.capacity
  { target with
    valuePages := (target.valuePages.copyBlock source.valuePages (slot * width) (slot * width)
      width).copyBlock source.valuePages (twin * width) (twin * width) width
    positionPages := (target.positionPages.copyBlock source.positionPages slot slot 1).copyBlock
      source.positionPages twin twin 1 }

def restoreRows (component : ComponentRecipe) (source : HistoryStorage) :
    ℕ → ℕ → ℕ → HistoryStorage → HistoryStorage
  -- Only overwritten committed ring slots require rollback: rows that went to free slots are
  -- skipped.
  | 0, _, _, target => target
  | added + 1, start, count, target =>
    if count ≠ component.capacity then restoreRows component source added start (count + 1) target
    else
      let next := (start + 1) % component.capacity
      let slot := (next + component.capacity - 1) % component.capacity
      restoreRows component source added next count (restoreSlot component source target slot)

def restoreComponent (committed : Bank) (added : ℕ) (candidate : Bank)
    (component : ComponentRecipe) : Bank :=
  match component.binding with
  | .history .localHistory =>
    let source := committed.history .localHistory
    candidate.setHistory .localHistory (restoreRows component source added source.start
      (committed.view.history .localHistory).count (candidate.history .localHistory))
  | _ => candidate

def copyStart (source : Bank) (destination : Bank) (component : ComponentRecipe) : Bank :=
  match component.binding with
  | .history b => destination.setHistory b
      { destination.history b with start := (source.history b).start }
  | .rolling _ => destination

def addedTokens (layer : LayerState) : ℕ :=
  (layer.publications.map (·.tokenCount)).sum

def restoredBank (recipe : StateRecipe) (committed : Bank) (added : ℕ) (candidate : Bank) :
    Bank :=
  let rows := recipe.components.foldl (restoreComponent committed added) candidate
  let viewed := { rows with view := committed.view }
  let started := recipe.components.foldl (copyStart committed) viewed
  { bankPagesBind recipe (bankRollingCopy recipe committed started) with
    stateIdentity := committed.stateIdentity }

def bankRestoreCandidate (layer : LayerState) : LayerState :=
  { layer.setCandidate
      (restoredBank layer.recipe layer.committed (addedTokens layer) layer.candidate) with
    banksSynchronized := true }

def bankAdvanceIdentity (sha : Sha256) (recipe : StateRecipe) (planIdentity : Identity)
    (publication : Publication) (bank : Bank) : Option Identity :=
  -- A publication that names no tokens is identified by where its rows end up.
  advanceIdentity sha bank.stateIdentity recipe planIdentity
    (if publication.tokenIds.isSome then publication
      else { publication with
        tokenPosition := bank.view.tokenCount - publication.tokenCount })

def rollingIncomplete (layerIndex : ℕ) : Refusal :=
  stateReject layerIndex 1 0 "attention rolling state delta is incomplete" .format

def rollingApply (output : RollingView) (b : RollingBinding) (bank : Bank) : Option Bank :=
  let view := bank.view.rolling b
  let storage := bank.rolling b
  if !output.present then if view.present then none else some bank
  else if !view.present || !storage.valuePages.isOpen || !storage.auxiliaryPages.isOpen ||
      output.kvState.isNull || output.scoreState.isNull ||
      output.kvStateExtent != view.kvStateExtent ||
      output.scoreStateExtent != view.scoreStateExtent then none
  else some ((bank.setRolling b
    { valuePages := storage.valuePages.writeBlock 0 output.kvStateExtent output.kvState.read true
      auxiliaryPages := storage.auxiliaryPages.writeBlock 0 output.scoreStateExtent
        output.scoreState.read true }).setRollingView b
    { output with kvState := .storage, scoreState := .storage })

def rollingApplyComponent (layerIndex : ℕ) (publication : Publication)
    (component : ComponentRecipe) (bank : Bank) : Outcome Refusal Bank :=
  match component.binding with
  | .history _ => .done bank
  | .rolling b =>
    match rollingApply (publication.nextRollingState b) b bank with
    | some bank => .done bank
    | none => .refused (rollingIncomplete layerIndex) bank

def advanceTokenCount (publication : Publication) (bank : Bank) : Bank :=
  { bank with view :=
      { bank.view with tokenCount := bank.view.tokenCount + publication.tokenCount } }

def validateAndName (sha : Sha256) (planIdentity : Identity) (layer : LayerState)
    (publication : Publication) (bank : Bank) : Outcome Refusal Bank :=
  match historyValidate layer.plan bank.resolved with
  | .error refusal => .refused refusal bank
  | .ok () =>
    match bankAdvanceIdentity sha layer.recipe planIdentity publication bank with
    | some identity => .done { bank with stateIdentity := identity }
    | none => .refused (stateReject layer.plan.layerIndex 1 0
        "attention candidate state identity failed" .state) bank

def writePublication (sha : Sha256) (planIdentity : Identity) (layer : LayerState)
    (publication : Publication) (bank : Bank) : Outcome Refusal Bank :=
  (forEach (rollingApplyComponent layer.plan.layerIndex publication) layer.recipe.components
    (historyAppend layer.recipe publication bank)).andThen fun written =>
  validateAndName sha planIdentity layer publication (advanceTokenCount publication written)

def bankApplyPublication (sha : Sha256) (planIdentity : Identity) (layer : LayerState)
    (publication : Publication) (pool : PagePool) (bank : Bank) :
    Outcome Refusal (PagePool × Bank) :=
  ((preparePublications layer.recipe [publication] pool bank).mapError fun e =>
    stateReject layer.plan.layerIndex 1 0 "attention candidate pages could not be committed"
      e.status).andThen fun s =>
  (writePublication sha planIdentity layer publication s.2).map fun written => (s.1, written)

def deltasContiguous : ℕ → List Publication → Bool
  | _, [] => true
  | expected, publication :: rest =>
    publication.tokenCount != 0 && publication.tokenPosition == expected &&
      match u64Add expected publication.tokenCount with
      | some next => deltasContiguous next rest
      | none => false

structure DeltaTotals where
  tokenCount : ℕ
  compressedCount : ℕ
  indexerCount : ℕ
  compressedPositions : Bool
  indexerPositions : Bool

def addTotals (totals : DeltaTotals) (publication : Publication) : Option DeltaTotals := do
  let tokens ← u64Add totals.tokenCount publication.tokenCount
  let compressed ← u64Add totals.compressedCount publication.compressedCount
  let indexer ← u64Add totals.indexerCount publication.indexerCount
  some ⟨tokens, compressed, indexer,
    totals.compressedPositions || publication.compressedPositions.isSome,
    totals.indexerPositions || publication.indexerPositions.isSome⟩

def aggregatePublication (totals : DeltaTotals) : Publication where
  complete := false
  prefixAddressable := false
  deviceCompletionPending := false
  executionIdentity := []
  tokenIds := none
  layerIndex := 0
  tokenPosition := 0
  tokenCount := totals.tokenCount
  kvWidth := 0
  compressedCount := totals.compressedCount
  compressedStride := 0
  indexerCount := totals.indexerCount
  indexerStride := 0
  rawKv := none
  compressedKv := none
  indexerKv := none
  compressedPositions := if totals.compressedPositions then some fun _ => 0 else none
  indexerPositions := if totals.indexerPositions then some fun _ => 0 else none
  rollingCheckpointCount := 0
  rollingKvCheckpoints _ := none
  rollingScoreCheckpoints _ := none
  nextRollingState _ := .zero

def historyPrepareDeltas (layer : LayerState) (pool : PagePool) (bank : Bank) :
    Outcome (Option PageError) (PagePool × Bank) :=
  -- Admits in the committed bank the pages that mirroring will write. The refusal is the
  -- page error, or nothing when a total overflowed.
  match layer.publications.foldlM addTotals ⟨0, 0, 0, false, false⟩ with
  | none => .refused none (pool, bank)
  | some totals =>
    (preparePublications layer.recipe [aggregatePublication totals] pool bank).mapError some

def mirrorDelta (recipe : StateRecipe) (bank : Bank) (publication : Publication) : Bank :=
  advanceTokenCount publication (historyAppend recipe publication bank)

def mirroredBank (recipe : StateRecipe) (deltas : List Publication) (candidate committed : Bank) :
    Bank :=
  let replayed := deltas.foldl (mirrorDelta recipe) committed
  let started := recipe.components.foldl (copyStart candidate) replayed
  { bankPagesBind recipe (bankRollingCopy recipe candidate started) with
    stateIdentity := candidate.stateIdentity }

def bankMirrorCommitted (layer : LayerState) : LayerState :=
  { layer.setCommitted
      (mirroredBank layer.recipe layer.publications layer.candidate layer.committed) with
    banksSynchronized := true }

end Yvex.Provider
