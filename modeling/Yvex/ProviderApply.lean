import Yvex.ProviderBank

/-!
# Transactions and staging

The first begin opens the batch; each later one must name the same token range,
or the extension of a selected prefix. An applied publication is retained, then
written to the candidate bank, and the layer is staged once its range is
complete. A device publication arrives in two calls: a pending one that parks
the layer, and its completion. Selecting a prefix rolls every staged layer back
and applies the shorter publication. A refused call returns the state it left.
-/

set_option autoImplicit false

namespace Yvex.Provider

open AttentionData CheckedArithmetic RefusableStep StatePages Candidate StateRecipe

structure Environment where
  lockAvailable : Bool
  cancelRequested : Cancellation → Bool
  publishFault : Bool
  abortFault : Bool
  invalidateFault : Bool
  hostOutcomes : List Bool

abbrev Step := Outcome Refusal AttentionState

namespace AttentionState

def setPool (state : AttentionState) (pool : PagePool) : AttentionState :=
  { state with pagePool := pool }

def meet (state : AttentionState) (env : Environment) : AttentionState :=
  state.setPool { state.pagePool with
    host := { state.pagePool.host with outcomes := env.hostOutcomes } }

def fail (state : AttentionState) : AttentionState :=
  { state with transaction := { state.transaction with failed := true } }

def failIfActive (state : AttentionState) : AttentionState :=
  if state.transaction.active then state.fail else state

def invalidated (state : AttentionState) : AttentionState :=
  { state with summary := { state.summary with invalidated := true } }

end AttentionState

def stateEnter (env : Environment) (layer : ℕ) (state : AttentionState)
    (body : AttentionState → Step) : Step :=
  if env.lockAvailable then body (state.meet env)
  else .refused (stateReject layer 1 0 "attention state synchronization is unavailable" .state)
    state

def transactionResult : Step → Step
  -- A refusal inside a transaction marks it failed.
  | .done state => .done state
  | .refused refusal state => .refused refusal state.failIfActive

def stateCancelCheck (env : Environment) (cancellation : Option Cancellation) (layer : ℕ)
    (reason : String) (state : AttentionState) : Step :=
  match cancellation with
  | none => .done state
  | some cancellation =>
    if cancellation.requested.isNone then
      .refused (stateReject layer 1 0 "attention state cancellation predicate is missing"
        .invalidArg) state
    else if env.cancelRequested cancellation then
      match u64Add state.summary.cancellationCount 1 with
      | none => .refused (stateReject layer (wordLimit - 1) 1
          "attention state cancellation count overflowed" .bounds) state.invalidated
      | some next => .refused (stateReject layer 0 1 reason .cancelled)
          { state with summary := { state.summary with cancellationCount := next } }
    else .done state

def extending (state : AttentionState) : Bool :=
  state.transaction.active && state.transaction.prefixSelected

def beginBlocked (state : AttentionState) (layer : LayerState) : Bool :=
  !layer.prepared || layer.completionPending || state.transaction.candidateActive ||
    state.transaction.failed || layer.staged || state.summary.cancelled ||
    state.summary.invalidated || !state.summary.positionConsistent ||
    (!extending state && !layer.banksSynchronized) ||
    (!extending state && !layer.candidateDeltas.isEmpty)

def beginBlockedReason (state : AttentionState) (layer : LayerState) : String :=
  if state.summary.invalidated then "attention state provider is invalidated"
  else if state.summary.cancelled then "attention state provider is cancelled"
  else if !layer.prepared then "attention state layer is not prepared"
  else if layer.completionPending then "attention state layer completion is pending"
  else if state.transaction.candidateActive then "another attention state candidate is active"
  else if state.transaction.failed then "attention state batch is already failed"
  else if layer.staged then "attention state layer is already staged"
  else if !state.summary.positionConsistent then "attention state layer positions disagree"
  else if !layer.banksSynchronized then "attention state banks are not synchronized"
  else if !layer.candidateDeltas.isEmpty then "attention state prefix selection is unresolved"
  else "attention state layer is not transaction-ready"

def beginBlockedStatus (state : AttentionState) : Status :=
  if state.summary.invalidated then .state
  else if state.summary.cancelled then .cancelled else .state

def beginRangeBad (state : AttentionState) (layer : LayerState) (tokenPosition tokenCount : ℕ) :
    Bool :=
  let transaction := state.transaction
  (u64Add tokenPosition tokenCount).isNone ||
    decide (layer.recipe.finalPosition < tokenPosition + tokenCount) ||
    (transaction.active &&
      if extending state then
        tokenPosition != transaction.batchPosition + transaction.selectedPrefixCount ||
          tokenCount != transaction.extensionTokenCount
      else transaction.batchPosition != tokenPosition ||
        transaction.batchTokenCount != tokenCount)

def openTransaction (state : AttentionState) (tokenPosition tokenCount : ℕ)
    (cancellation : Option Cancellation) : Transaction :=
  if state.transaction.active then state.transaction
  else { Transaction.zero with
    active := true
    batchPosition := tokenPosition
    batchTokenCount := tokenCount
    cancellation := cancellation }

def openCandidate (state : AttentionState) (layerIndex tokenPosition tokenCount : ℕ)
    (cancellation : Option Cancellation) : Transaction :=
  let transaction := openTransaction state tokenPosition tokenCount cancellation
  { transaction with
    candidateActive := true
    layer := some layerIndex
    layerOrdinal := layerIndex
    tokenPosition := tokenPosition
    tokenCount := tokenCount
    stateLayoutIdentity := state.summary.stateLayoutIdentity
    delta := { transaction.delta with
      layerIndex := layerIndex
      tokenPosition := tokenPosition
      tokenCount := tokenCount
      requiresCommit := true
      priorStateIdentity := (state.layers layerIndex).committed.stateIdentity } }

def beginCandidate (layerIndex tokenPosition tokenCount : ℕ)
    (cancellation : Option Cancellation) (state : AttentionState) : Step :=
  let layer := state.layers layerIndex
  let base := if extending state then layer.candidate else layer.committed
  if state.transaction.active ∧ state.transaction.cancellation ≠ cancellation then
    .refused (stateReject layerIndex 1 0
      "attention state cancellation view changed inside one batch" .state) state.fail
  else if base.view.tokenCount ≠ tokenPosition then
    .refused (stateReject layerIndex base.view.tokenCount tokenPosition
      "attention state position is not contiguous" .state) state
  else .done { state with
    transaction := openCandidate state layerIndex tokenPosition tokenCount cancellation }

def stateBegin (env : Environment) (layerIndex tokenPosition tokenCount : ℕ)
    (cancellation : Option Cancellation) (state : AttentionState) : Step :=
  stateEnter env layerIndex state fun state => transactionResult <|
    if state.layerCount ≤ layerIndex ∨ tokenCount = 0 then
      .refused (stateReject layerIndex state.layerCount layerIndex
        "attention state transaction arguments are invalid" .invalidArg) state.failIfActive
    else
      let layer := state.layers layerIndex
      if beginBlocked state layer then
        .refused (stateReject layerIndex 0 1 (beginBlockedReason state layer)
          (beginBlockedStatus state)) state
      else if beginRangeBad state layer tokenPosition tokenCount then
        .refused (stateReject layerIndex layer.recipe.finalPosition
          ((u64Add tokenPosition tokenCount).getD (wordLimit - 1))
          (if state.transaction.active then
            "attention state layer range differs inside one model transaction"
          else "attention state append exceeds its sealed capacity")
          (if state.transaction.active then .state else .bounds)) state.failIfActive
      else match stateCancelCheck env cancellation layerIndex
          "attention state cancelled before begin" state with
        | .refused refusal state => .refused refusal state.invalidated
        | .done state => beginCandidate layerIndex tokenPosition tokenCount cancellation state

def componentRecipeFind (recipe : StateRecipe) (b : HistoryBinding) : Option ComponentRecipe :=
  recipe.components.find? fun component => component.binding = .history b

def historySpanValid (recipe : StateRecipe) (view : HistoryView) (publication : Publication)
    (b : HistoryBinding) : Bool :=
  let span := statePublicationHistory publication b
  match componentRecipeFind recipe b with
  | none => span.count == 0 || b == .localHistory
  | some component =>
    (span.count == 0 || component.capacity == 0 ||
      (span.values.isSome && decide (component.valueWidth ≤ span.width) &&
        (b == .localHistory || span.positions.isSome))) &&
    (span.positions.isNone ||
      match u64Add (view.history b).count span.count with
      | some total => decide (total ≤ component.capacity)
      | none => false)

def publicationValidate (transaction : Transaction) (layer : LayerState)
    (publication : Publication) : Bool :=
  let view := layer.candidate.view
  (u64Add view.tokenCount publication.tokenCount).isSome &&
    (u64Add publication.tokenPosition publication.tokenCount).isSome && publication.complete &&
    publication.layerIndex == layer.plan.layerIndex &&
    publication.tokenPosition == view.tokenCount && publication.tokenCount != 0 &&
    decide (publication.tokenCount ≤ transaction.tokenCount - transaction.appliedTokens) &&
    HistoryBinding.all.all (historySpanValid layer.recipe view publication)

def pendingLayer (state : AttentionState) : Option ℕ :=
  (List.range state.layerCount).find? fun i => (state.layers i).completionPending

def adoptCompletion (state : AttentionState) (publication : Publication) : AttentionState :=
  -- A completed device publication reopens the first pending layer, with the publication's
  -- own position and token count.
  let transaction := state.transaction
  if transaction.active && !transaction.candidateActive && !transaction.failed &&
      !publication.deviceCompletionPending then
    match pendingLayer state with
    | none => state
    | some ordinal =>
      if (state.layers ordinal).plan.layerIndex = publication.layerIndex then
        { state with transaction := { transaction with
          candidateActive := true
          layer := some ordinal
          layerOrdinal := ordinal
          tokenPosition := publication.tokenPosition
          tokenCount := publication.tokenCount
          appliedTokens := 0
          delta := { transaction.delta with
            layerIndex := ordinal
            tokenPosition := publication.tokenPosition
            tokenCount := publication.tokenCount
            requiresCommit := true
            priorStateIdentity := (state.layers ordinal).committed.stateIdentity } } }
      else state
  else state

def candidateClear (transaction : Transaction) : Transaction :=
  { transaction with
    layer := none
    layerOrdinal := 0
    tokenPosition := 0
    tokenCount := 0
    appliedTokens := 0
    candidateActive := false
    delta := .zero }

def pointerTableReserve (pool : PagePool) (capacity bytes limit : ℕ) :
    Outcome PageError (PagePool × ℕ × ℕ) :=
  let held := (pool, capacity, bytes)
  if limit = 0 then .refused ⟨.invalidArg, "state pointer-table geometry is invalid"⟩ held
  else match (if capacity = 0 then some 8 else u64Mul capacity 2) with
  | none => .refused ⟨.bounds, "state pointer-table capacity overflowed"⟩ held
  | some doubled =>
    let next := min doubled limit
    match u64Mul next 8 with
    | none => .refused ⟨.bounds, "state pointer-table byte extent overflowed"⟩ held
    | some nextBytes =>
      if next ≤ capacity ∨ nextBytes < bytes then
        .refused ⟨.bounds, "state pointer-table byte extent overflowed"⟩ held
      else match poolReserve pool (nextBytes - bytes) with
      | .refused e pool => .refused e (pool, capacity, bytes)
      | .done reserved =>
        match reserved.hostCall with
        | (true, pool) => .done (pool, next, nextBytes)
        | (false, pool) => .refused ⟨.nomem, "state pointer-table allocation failed"⟩
            (poolRelease pool (nextBytes - bytes), capacity, bytes)

def candidateDeltaReserve (pool : PagePool) (layer : LayerState) :
    Outcome Status (PagePool × LayerState) :=
  if layer.candidateDeltas.length < layer.candidateDeltaCapacity then .done (pool, layer)
  else
    ((pointerTableReserve pool layer.candidateDeltaCapacity layer.candidateDeltaBytes
      layer.candidateDeltaLimit).mapError (·.status)).map fun s =>
        (s.1, { layer with candidateDeltaCapacity := s.2.1, candidateDeltaBytes := s.2.2 })

def retainDelta (publication : Publication) (s : PagePool × LayerState) :
    Outcome Status (PagePool × LayerState) :=
  match candidateDeltaOpen publication s.1 s.2.spareDeltas.head? with
  | .done (pool, delta) => .done (pool, { s.2 with
      candidateDeltas := s.2.candidateDeltas ++ delta.toList
      spareDeltas := s.2.spareDeltas.tail })
  | .refused refusal (pool, delta) => .refused refusal.status
      (pool, { s.2 with spareDeltas := delta.toList ++ s.2.spareDeltas.tail })

def applyToCandidate (sha : Sha256) (index : ℕ) (publication : Publication)
    (state : AttentionState) : Step :=
  let layer := state.layers index
  match bankApplyPublication sha state.planIdentity layer publication state.pagePool
      layer.candidate with
  | .done (pool, bank) => .done ((state.setPool pool).setLayer index (layer.setCandidate bank))
  | .refused refusal (pool, bank) => .refused refusal ((state.setPool pool).setLayer index
      (bankRestoreCandidate (layer.setCandidate bank)))

def deltaEntries (layer : LayerState) (entries : Binding → ℕ) : Binding → ℕ :=
  fun binding => match binding with
    | .history b => if (componentRecipeFind layer.recipe b).isSome then
        (layer.candidate.view.history b).count else entries binding
    | .rolling _ => entries binding

def allBindings : List Binding :=
  [.history .localHistory, .history .compressedHistory, .history .indexerHistory,
    .rolling .mainRolling, .rolling .indexerRolling]

def deltaFields (transaction : Transaction) (delta : StateDelta) : List HashField :=
  [textField "yvex.graph.attention.state-delta.v2", .text transaction.stateLayoutIdentity,
    .text delta.priorStateIdentity, .text delta.candidateStateIdentity,
    .word transaction.layerOrdinal, .word transaction.tokenPosition,
    .word transaction.appliedTokens] ++
    allBindings.map fun binding => .word (delta.componentEntries binding)

def stateDeltaIdentity (sha : Sha256) (layer : LayerState) (transaction : Transaction) :
    Option Transaction := do
  -- Naming a candidate delta does not make its state visible.
  let delta := { transaction.delta with
    nextPosition := layer.candidate.view.tokenCount
    componentEntries := deltaEntries layer transaction.delta.componentEntries
    candidateStateIdentity := layer.candidate.stateIdentity }
  let identity ← sha.digest (deltaFields transaction delta)
  some { transaction with delta := { delta with stateDeltaIdentity := identity } }

def stageIfComplete (index : ℕ) (state : AttentionState) : Step :=
  let transaction := state.transaction
  if transaction.appliedTokens ≠ transaction.tokenCount then .done state
  else match u64Add transaction.stagedCount 1 with
  | none => .refused (stateReject transaction.layerOrdinal (wordLimit - 1) 1
      "attention state staged-layer count overflowed" .bounds) state.fail
  | some next => .done { state.setLayer index
      { state.layers index with staged := true, completionPending := false } with
      transaction := candidateClear { transaction with stagedCount := next } }

def finishApply (sha : Sha256) (index : ℕ) (publication : Publication)
    (state : AttentionState) : Outcome Refusal (AttentionState × Identity) :=
  let state := { state.setLayer index { state.layers index with banksSynchronized := false } with
    transaction := { state.transaction with
      appliedTokens := state.transaction.appliedTokens + publication.tokenCount } }
  match stateDeltaIdentity sha (state.layers index) state.transaction with
  | none => .refused (stateReject state.transaction.layerOrdinal 1 0
      "attention candidate state identity failed" .state) (state.fail, [])
  | some transaction =>
    (stageIfComplete index { state with transaction := transaction }).map fun next =>
      (next, transaction.delta.stateDeltaIdentity)

def retainAndApply (sha : Sha256) (index : ℕ) (publication : Publication)
    (state : AttentionState) : Outcome Refusal (AttentionState × Identity) :=
  match (candidateDeltaReserve state.pagePool (state.layers index)).andThen
      (retainDelta publication) with
  | .refused status (pool, layer) => .refused (stateReject state.transaction.layerOrdinal 1 0
      "bounded attention state delta could not be retained" status)
      (((state.setPool pool).setLayer index layer).fail, [])
  | .done (pool, layer) =>
    match applyToCandidate sha index publication
        ((state.setPool pool).setLayer index layer) with
    | .refused refusal state => .refused refusal (state.fail, [])
    | .done state => finishApply sha index publication state

def applyAdmitted (sha : Sha256) (env : Environment) (index : ℕ) (publication : Publication)
    (cancellation : Option Cancellation) (state : AttentionState) :
    Outcome Refusal (AttentionState × Identity) :=
  match stateCancelCheck env cancellation state.transaction.layerOrdinal
      "attention state cancelled before candidate apply" state with
  | .refused refusal state => .refused refusal (state.fail, [])
  | .done state =>
    if publication.deviceCompletionPending then
      .done ({ state.setLayer index { state.layers index with completionPending := true } with
        transaction := candidateClear state.transaction }, [])
    else retainAndApply sha index publication state

def applyMismatch (publication : Option Publication) (state : AttentionState) : Refusal :=
  let transaction := state.transaction
  stateReject (if transaction.candidateActive then transaction.layerOrdinal else noLayer)
    (if transaction.candidateActive then transaction.tokenCount else 1)
    (publication.elim 0 (·.tokenCount))
    "attention publication does not match the active candidate" .format

def applyBody (sha : Sha256) (env : Environment) (publication : Option Publication)
    (cancellation : Option Cancellation) (state : AttentionState) :
    Outcome Refusal (AttentionState × Identity) :=
  let state := publication.elim state (adoptCompletion state)
  let transaction := state.transaction
  match publication, transaction.layer with
  | some admitted, some index =>
    if transaction.active && transaction.candidateActive && !transaction.failed &&
        publicationValidate transaction (state.layers index) admitted then
      applyAdmitted sha env index admitted cancellation state
    else .refused (applyMismatch publication state) (state.failIfActive, [])
  | _, _ => .refused (applyMismatch publication state) (state.failIfActive, [])

def stateApply (sha : Sha256) (env : Environment) (publication : Option Publication)
    (cancellation : Option Cancellation) (state : AttentionState) :
    Outcome Refusal (AttentionState × Identity) :=
  if env.lockAvailable then
    match applyBody sha env publication cancellation (state.meet env) with
    | .done s => .done s
    | .refused refusal s => .refused refusal (s.1.failIfActive, s.2)
  else .refused (stateReject noLayer 1 0 "attention state synchronization is unavailable" .state)
    (state, [])

def stagedCount (state : AttentionState) : ℕ :=
  (List.range state.layerCount).countP fun i => (state.layers i).staged

def prefixAdmissible (state : AttentionState) (prefixCount extensionCount : ℕ) : Bool :=
  let transaction := state.transaction
  match u64Add prefixCount extensionCount with
  | none => false
  | some finalCount =>
    transaction.active && !transaction.candidateActive && !transaction.failed &&
      !transaction.prefixSelected && prefixCount != 0 &&
      decide (prefixCount ≤ transaction.batchTokenCount) && decide (extensionCount ≤ 1) &&
      decide (finalCount ≤ state.summary.capacity) &&
      decide (transaction.batchPosition ≤ state.summary.capacity - finalCount)

def selectLayer (sha : Sha256) (prefixCount extensionCount index : ℕ)
    (state : AttentionState) : Step :=
  let layer := state.layers index
  if !layer.staged then .done state
  else match layer.candidateDeltas with
  | [] => .done state
  | delta :: rest =>
    match candidateDeltaProject delta.publication layer.committed.view prefixCount with
    | .error refusal => .refused refusal state
    | .ok publication =>
      (applyToCandidate sha index publication
        (state.setLayer index (bankRestoreCandidate layer))).andThen fun state =>
      let layer := state.layers index
      match candidateDeltaOpen publication state.pagePool (some delta) with
      | .refused refusal (pool, delta) => .refused refusal ((state.setPool pool).setLayer index
          (bankRestoreCandidate { layer with candidateDeltas := delta.toList ++ rest }))
      | .done (pool, delta) => .done ((state.setPool pool).setLayer index { layer with
          candidateDeltas := delta.toList
          spareDeltas := rest ++ layer.spareDeltas
          banksSynchronized := false
          staged := extensionCount == 0 })

def selectLayers (sha : Sha256) (prefixCount extensionCount : ℕ) (state : AttentionState) :
    Step :=
  forEach (selectLayer sha prefixCount extensionCount) (List.range state.layerCount) state

def stateSelectPrefix (sha : Sha256) (env : Environment) (prefixCount extensionCount : ℕ)
    (state : AttentionState) : Step :=
  stateEnter env noLayer state fun state => transactionResult <|
    if !prefixAdmissible state prefixCount extensionCount then
      .refused (stateReject noLayer state.transaction.batchTokenCount
        ((u64Add prefixCount extensionCount).getD 0)
        "accepted attention prefix is not admissible" .state)
        { state with transaction :=
          { state.transaction with failed := state.transaction.active } }
    else match (List.range state.layerCount).find? fun i =>
        (state.layers i).staged && (state.layers i).candidateDeltas.length != 1 with
    | some index => .refused (stateReject index 1 0
        "staged attention layer has no prefix-addressable delta" .state) state.fail
    | none =>
      let staged := stagedCount state
      if staged ≠ state.summary.preparedLayerCount ∨ staged ≠ state.transaction.stagedCount then
        .refused (stateReject noLayer state.summary.preparedLayerCount staged
          "attention prefix selection requires a complete target stack" .state) state.fail
      else match selectLayers sha prefixCount extensionCount state with
      | .refused refusal state => .refused refusal state.fail
      | .done state => .done { state with transaction := { state.transaction with
          prefixSelected := true
          selectedPrefixCount := prefixCount
          extensionTokenCount := extensionCount
          batchTokenCount := prefixCount + extensionCount
          stagedCount := if extensionCount = 0 then staged else 0 } }

end Yvex.Provider
