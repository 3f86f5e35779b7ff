import Yvex.ProviderApply

/-!
# Publishing, aborting and summaries

Publication is preflighted for every staged layer before any bank changes role;
the exchange itself cannot refuse. Abort rolls back the candidate bank of every
layer whose banks differ. The copy of the summary given out carries the
transaction flags that the provider's own record leaves unset.
-/

set_option autoImplicit false

namespace Yvex.Provider

open AttentionData CheckedArithmetic RefusableStep StatePages StateRecipe

def preflightLayer (index : ℕ) (state : AttentionState) : Step :=
  let layer := state.layers index
  let refuse (status : Status) : Refusal := stateReject index 1 layer.candidateDeltas.length
    "attention state delta cannot preflight its committed pages" status
  if !layer.staged then .done state
  else if layer.candidateDeltas.isEmpty ||
      !deltasContiguous layer.committed.view.tokenCount layer.publications then
    .refused (refuse .state) state
  else
    (historyPrepareDeltas layer state.pagePool layer.committed).mapError
      (fun e => refuse (e.elim .state (·.status))) |>.map fun s =>
        (state.setPool s.1).setLayer index (layer.setCommitted s.2)

def publishIncomplete (env : Environment) (staged : ℕ) (state : AttentionState) : Bool :=
  let transaction := state.transaction
  !transaction.active || transaction.candidateActive || transaction.failed ||
    transaction.publicationPrepared || transaction.stagedCount == 0 ||
    staged != transaction.stagedCount || staged != state.summary.preparedLayerCount ||
    transaction.batchPosition != state.summary.nextPosition || state.summary.cancelled ||
    state.summary.invalidated || env.publishFault

structure PreparedPublication where
  generation : ℕ
  nextPosition : ℕ
  contentIdentity : Identity

def preparedPublication (sha : Sha256) (state : AttentionState) : Option PreparedPublication := do
  let generation ← u64Add state.summary.generation 1
  let nextPosition ← u64Add state.transaction.batchPosition state.transaction.batchTokenCount
  guard (nextPosition ≤ state.summary.capacity)
  let identity ← stateContentIdentity sha state true state.summary.stateLayoutIdentity
  some ⟨generation, nextPosition, identity⟩

def reportedPosition (state : AttentionState) : ℕ :=
  -- The position a refused publication reports: it stays at its initial value when the
  -- generation overflows or the sum does.
  if (u64Add state.summary.generation 1).isNone then wordLimit - 1
  else (u64Add state.transaction.batchPosition state.transaction.batchTokenCount).getD
    (wordLimit - 1)

def statePreparePublish (sha : Sha256) (env : Environment) (state : AttentionState) : Step :=
  stateEnter env noLayer state fun state => transactionResult <|
    let staged := stagedCount state
    (forEach preflightLayer (List.range state.layerCount) state).andThen fun state =>
    if publishIncomplete env staged state then
      .refused (stateReject noLayer state.transaction.stagedCount staged
        (if env.publishFault then "attention state publication fault was injected"
        else "attention state batch is incomplete and cannot publish") .state) state
    else match u64Add state.summary.commitCount staged with
    | none => .refused (stateReject noLayer (wordLimit - 1) staged
        "attention state commit count overflowed" .bounds) state
    | some commits =>
      match preparedPublication sha state with
      | none => .refused (stateReject noLayer state.summary.capacity (reportedPosition state)
          "attention state publication identity or position failed" .bounds) state
      | some prepared =>
        (stateCancelCheck env state.transaction.cancellation noLayer
          "attention state cancelled before publication" state).andThen fun state =>
        .done { state with transaction := { state.transaction with
          preparedCommitCount := commits
          preparedGeneration := prepared.generation
          preparedNextPosition := prepared.nextPosition
          preparedContentIdentity := prepared.contentIdentity
          publicationPrepared := true } }

def publishLayer (layer : LayerState) : LayerState :=
  if layer.staged then
    { bankMirrorCommitted layer with committedBank := !layer.committedBank, staged := false }
  else layer

def statePublishPrepared (state : AttentionState) : AttentionState :=
  let transaction := state.transaction
  if !transaction.publicationPrepared then state
  else { state.mapLayers fun layer => (publishLayer layer).clearDeltas with
    summary := { state.summary with
      commitCount := transaction.preparedCommitCount
      generation := transaction.preparedGeneration
      committedSequenceLength := transaction.preparedNextPosition
      nextPosition := transaction.preparedNextPosition
      stateContentIdentity := transaction.preparedContentIdentity }
    transaction := .zero }

def stateCancelPreparedPublish (state : AttentionState) : AttentionState :=
  if !state.transaction.publicationPrepared then state
  else { state with transaction := { state.transaction with
    publicationPrepared := false
    preparedCommitCount := 0
    preparedGeneration := 0
    preparedNextPosition := 0
    preparedContentIdentity := [] } }

def statePublish (sha : Sha256) (env : Environment) (state : AttentionState) : Step :=
  (statePreparePublish sha env state).andThen fun state => .done (statePublishPrepared state)

def abortLayer (layer : LayerState) : LayerState :=
  { if layer.banksSynchronized then layer else bankRestoreCandidate layer with
    staged := false
    completionPending := false }

def stateAbort (env : Environment) (state : AttentionState) : Step :=
  if env.abortFault || !env.lockAvailable then
    .refused (stateReject noLayer 1 0 "attention state abort synchronization failed" .state)
      state
  else
    let state := state.meet env
    if !state.transaction.active then .done state
    else match u64Add state.summary.abortCount 1 with
    | none => .refused (stateReject state.transaction.layerOrdinal (wordLimit - 1) 1
        "attention state abort counter overflowed" .bounds) state.invalidated
    | some next => .done { state.mapLayers fun layer => (abortLayer layer).clearDeltas with
        transaction := .zero
        summary := { state.summary with abortCount := next } }

structure ComponentSummary where
  entryCount : ℕ
  capacity : ℕ
  maximumCapacity : ℕ

structure SummaryCopy where
  summary : Summary
  pages : PagePool
  allocatedBytes : ℕ
  candidateActive : Bool
  abortRequired : Bool
  stagedLayerCount : ℕ
  prefixSelected : Bool
  extensionReady : Bool
  selectedPrefixCount : ℕ
  components : Binding → ComponentSummary
  stagedBatchComplete : Bool
  stagedGeneration : ℕ
  stagedNextPosition : ℕ
  stagedStateContentIdentity : Identity

def summaryRefusal (status : Status) (reason : String) : Refusal :=
  errorOnly status "graph.attention.state.summary" reason

def summaryAdd (entries capacity : ℕ) (total : ComponentSummary) : Option ComponentSummary := do
  let entryCount ← u64Add total.entryCount entries
  let capacities ← u64Add total.capacity capacity
  some ⟨entryCount, capacities, max total.maximumCapacity capacity⟩

def componentEntryCount (layer : LayerState) (component : ComponentRecipe) : ℕ :=
  match component.binding with
  | .history b => (layer.committed.view.history b).count
  | .rolling b => (layer.committed.view.rolling b).present.toNat

def addComponent (layer : LayerState) (totals : Binding → ComponentSummary)
    (component : ComponentRecipe) : Option (Binding → ComponentSummary) := do
  let total ← summaryAdd (componentEntryCount layer component) component.capacity
    (totals component.binding)
  some (Function.update totals component.binding total)

def addLayer (state : AttentionState) (totals : Binding → ComponentSummary) (index : ℕ) :
    Option (Binding → ComponentSummary) :=
  let layer := state.layers index
  if layer.prepared then layer.recipe.components.foldlM (addComponent layer) totals
  else some totals

def batchStaged (state : AttentionState) : Bool :=
  let transaction := state.transaction
  transaction.active && !transaction.candidateActive && !transaction.failed &&
    transaction.stagedCount != 0 &&
    transaction.stagedCount == state.summary.preparedLayerCount

def baseCopy (state : AttentionState) (allocatedBytes : ℕ)
    (components : Binding → ComponentSummary) : SummaryCopy where
  summary := { state.summary with transactionActive := state.transaction.active }
  pages := state.pagePool
  allocatedBytes := allocatedBytes
  candidateActive := state.transaction.candidateActive
  abortRequired := state.transaction.failed
  stagedLayerCount := state.transaction.stagedCount
  prefixSelected := state.transaction.prefixSelected
  extensionReady := state.transaction.prefixSelected &&
    state.transaction.extensionTokenCount != 0
  selectedPrefixCount := state.transaction.selectedPrefixCount
  components := components
  stagedBatchComplete := false
  stagedGeneration := 0
  stagedNextPosition := 0
  stagedStateContentIdentity := []

def extensionCopy (state : AttentionState) (copy : SummaryCopy) : SummaryCopy :=
  -- The position and generation of a selected prefix that awaits its extension. The sums are
  -- written one after the other, and stop at the first overflow.
  if !copy.extensionReady then copy
  else match u64Add state.transaction.batchPosition state.transaction.selectedPrefixCount with
  | none => copy
  | some next => { copy with
      stagedNextPosition := next
      stagedGeneration := (u64Add state.summary.generation 1).getD 0 }

def stateSummaryCopy (sha : Sha256) (env : Environment) (state : AttentionState) :
    Except Refusal SummaryCopy :=
  if !env.lockAvailable then
    .error (summaryRefusal .state "attention state synchronization is unavailable")
  else match u64Add state.pagePool.metadataBytes state.pagePool.residentBytes with
  | none => .error (errorOnly .bounds "graph.state.pages"
      "state page summary accounting overflowed")
  | some allocated =>
    match (List.range state.layerCount).foldlM (addLayer state) fun _ => ⟨0, 0, 0⟩ with
    | none => .error (summaryRefusal .bounds "attention state aggregate accounting overflowed")
    | some components =>
      let copy := baseCopy state allocated components
      if batchStaged state then
        match preparedPublication sha state with
        | some prepared => .ok { copy with
            stagedBatchComplete := true
            stagedGeneration := prepared.generation
            stagedNextPosition := prepared.nextPosition
            stagedStateContentIdentity := prepared.contentIdentity }
        | none => .error (summaryRefusal .bounds "staged attention state summary overflowed")
      else .ok (extensionCopy state copy)

theorem stateSummaryCopy_transactionActive {sha : Sha256} {env : Environment}
    {s : AttentionState} {copy : SummaryCopy}
    (h : stateSummaryCopy sha env s = .ok copy) :
    copy.summary.transactionActive = s.transaction.active := by
  unfold stateSummaryCopy at h
  split at h
  · cases h
  split at h
  · cases h
  split at h
  · cases h
  split at h
  · split at h
    · cases h
      rfl
    · cases h
  · cases h
    unfold extensionCopy
    split
    · rfl
    · split <;> rfl

def invalidateRefusal (status : Status) (reason : String) : Refusal :=
  errorOnly status "graph.attention.state.invalidate" reason

def stateInvalidate (env : Environment) (state : AttentionState) : Step :=
  if env.invalidateFault || !env.lockAvailable then
    .refused (invalidateRefusal .state "attention state synchronization is unavailable") state
  else
    let state := state.meet env
    let cancelled (generation : ℕ) : AttentionState :=
      { state.failIfActive with summary := { state.summary with
        generation := generation
        invalidated := true
        cancelled := true } }
    if state.summary.invalidated then .done state
    else match u64Add state.summary.generation 1 with
    | none => .refused (invalidateRefusal .bounds "attention state generation overflowed")
        (cancelled state.summary.generation)
    | some next => .done ((cancelled next).mapLayers LayerState.clearDeltas)

end Yvex.Provider
