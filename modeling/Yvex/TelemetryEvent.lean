import Yvex.ExecutionRecords
import Yvex.ProviderRequest
import Yvex.ServerEnums

/-!
# Server events

An event is built from the facts of an emission, after these have been checked.
Its identity is a digest of its fields; they are held in bounded arrays, so the
digest is always derived. Under pressure an event is turned into a summary of
what has been dropped.
-/

set_option autoImplicit false

namespace Yvex.TelemetryEvent
open AttentionData StateRecipe WireCodecs ExecutionRecords ProviderRequest ServerEnums

structure EventScope where
  engineKind : UInt32
  executionStrategy : UInt32
  runtimeModelIdentity : CText 65
  artifactIdentity : CText 65
  specializationIdentity : CText 65

inductive SpeculationProgressKind where
  | draftStarted | draftCompleted | verificationStarted | verificationCompleted
  | prefixAccepted | candidateRejected | cycleCommitted

structure SpeculationProgress where
  schemaVersion : UInt32
  kind : UInt32
  cycle : UInt64
  proposedTokens : UInt64
  selectedVerificationTokens : UInt64
  acceptedTokens : UInt64
  rejectedTokens : UInt64
  discardedTokens : UInt64
  verificationCount : UInt64
  confidenceLogitCount : UInt64
  confidenceLogitMinimum : Double
  confidenceLogitMaximum : Double
  confidenceLogitMean : Double
  policyIdentity : CText 65

structure Event where
  schemaVersion : UInt32
  sequence : ℕ
  wallTimeNs : UInt64
  monotonicTimeNs : UInt64
  processId : UInt64
  kind : UInt32
  severity : UInt32
  sessionId : CText 65
  requestId : CText 65
  turnId : CText 65
  phase : CText 32
  providerAdapter : CText 32
  providerRequestIdentity : CText 65
  externalCorrelationId : CText 65
  valueA : UInt64
  valueB : UInt64
  valueC : UInt64
  engineKind : UInt32
  executionStrategy : UInt32
  speculativeCycle : UInt64
  proposedTokens : UInt64
  selectedVerificationTokens : UInt64
  acceptedTokens : UInt64
  rejectedTokens : UInt64
  discardedTokens : UInt64
  verificationCount : UInt64
  confidenceLogitCount : UInt64
  confidenceLogitMinimum : Double
  confidenceLogitMaximum : Double
  confidenceLogitMean : Double
  seconds : Double
  rate : Double
  speculationPolicyIdentity : CText 65
  runtimeModelIdentity : CText 65
  artifactIdentity : CText 65
  variantIdentity : CText 65
  eventIdentity : CText 65
  measurement : ExecutionMeasurement
  deriving DecidableEq

def Event.zero : Event where
  schemaVersion := 0
  sequence := 0
  wallTimeNs := 0
  monotonicTimeNs := 0
  processId := 0
  kind := 0
  severity := 0
  sessionId := CText.empty 65
  requestId := CText.empty 65
  turnId := CText.empty 65
  phase := CText.empty 32
  providerAdapter := CText.empty 32
  providerRequestIdentity := CText.empty 65
  externalCorrelationId := CText.empty 65
  valueA := 0
  valueB := 0
  valueC := 0
  engineKind := 0
  executionStrategy := 0
  speculativeCycle := 0
  proposedTokens := 0
  selectedVerificationTokens := 0
  acceptedTokens := 0
  rejectedTokens := 0
  discardedTokens := 0
  verificationCount := 0
  confidenceLogitCount := 0
  confidenceLogitMinimum := 0
  confidenceLogitMaximum := 0
  confidenceLogitMean := 0
  seconds := 0
  rate := 0
  speculationPolicyIdentity := CText.empty 65
  runtimeModelIdentity := CText.empty 65
  artifactIdentity := CText.empty 65
  variantIdentity := CText.empty 65
  eventIdentity := CText.empty 65
  measurement := ExecutionMeasurement.zero

structure EmitFacts where
  scope : Option EventScope
  kind : UInt32
  severity : UInt32
  sessionId : List UInt8
  requestId : List UInt8
  turnId : List UInt8
  phase : List UInt8
  valueA : UInt64
  valueB : UInt64
  valueC : UInt64
  seconds : Double
  rate : Double
  speculation : Option SpeculationProgress
  provider : Option Request
  measurement : Option ExecutionMeasurement
  wallTimeNs : UInt64
  monotonicTimeNs : UInt64
  processId : UInt64

def replaceable (kind : UInt32) : Bool :=
  kind == code EventKind.prefillProgress.ctorIdx ||
    kind == code EventKind.generationFragment.ctorIdx ||
    kind == code EventKind.generationProgress.ctorIdx ||
    kind == code EventKind.generationProfile.ctorIdx ||
    (decide (code EventKind.draftStarted.ctorIdx ≤ kind) &&
      decide (kind ≤ code EventKind.speculativeCycleCommitted.ctorIdx))

def optionalIdentity (text : CText 65) : Bool := text.isEmpty || text.hexValid

def scopeValid (scope : EventScope) : Bool :=
  scope.engineKind != code EngineKind.none.ctorIdx &&
    decide (scope.engineKind ≤ code EngineKind.media.ctorIdx) &&
    decide (scope.executionStrategy ≤ code ExecutionStrategy.speculative.ctorIdx) &&
    !(scope.engineKind == code EngineKind.text.ctorIdx &&
      scope.executionStrategy == code ExecutionStrategy.notApplicable.ctorIdx) &&
    !(scope.engineKind == code EngineKind.media.ctorIdx &&
      scope.executionStrategy != code ExecutionStrategy.notApplicable.ctorIdx) &&
    optionalIdentity scope.runtimeModelIdentity && optionalIdentity scope.artifactIdentity &&
    optionalIdentity scope.specializationIdentity

def ownerFactsValid (facts : EmitFacts) : Bool :=
  decide (facts.kind ≤ code EventKind.engineLoadProgress.ctorIdx) &&
    decide (facts.severity ≤ code EventSeverity.fatal.ctorIdx) &&
    facts.measurement.all executionMeasurementValid && facts.scope.all scopeValid

def providerFactsValid (services : Services) (facts : EmitFacts) : Bool :=
  facts.provider.all fun provider =>
    !provider.adapter.isEmpty && (requestValidate services provider).isOk

def speculationValid (progress : SpeculationProgress) : Bool :=
  progress.schemaVersion == 3 &&
    decide (progress.kind ≤ code SpeculationProgressKind.cycleCommitted.ctorIdx) &&
    decide (progress.confidenceLogitCount ≤ progress.proposedTokens) &&
    WireCodecs.isFinite progress.confidenceLogitMinimum &&
    WireCodecs.isFinite progress.confidenceLogitMaximum &&
    WireCodecs.isFinite progress.confidenceLogitMean &&
    (if progress.confidenceLogitCount = 0 then
      isZero progress.confidenceLogitMinimum && isZero progress.confidenceLogitMaximum &&
        isZero progress.confidenceLogitMean
    else
      doubleLe progress.confidenceLogitMinimum progress.confidenceLogitMean &&
        doubleLe progress.confidenceLogitMean progress.confidenceLogitMaximum) &&
    progress.policyIdentity.hexValid

def emitRefusal (status : Status) (reason : String) : Refusal :=
  errorOnly status "server.telemetry.emit" reason

def emitCheck (services : Services) (facts : EmitFacts) : Except Refusal Unit :=
  if ownerFactsValid facts = false then
    .error (emitRefusal .invalidArg "valid telemetry owner and event facts are required")
  else if providerFactsValid services facts = false then
    .error (emitRefusal .invalidArg "sealed provider correlation facts are required")
  else if facts.speculation.all speculationValid = false then
    .error (emitRefusal .invalidArg "complete typed speculation progress is required")
  else .ok ()

def textCopy (capacity : ℕ) (text : List UInt8) : CText capacity where
  bytes := (text.takeWhile (· != 0)).take (capacity - 1)
  fits := by
    rw [List.length_take]
    exact Nat.min_le_left _ _
  terminated := by
    intro hmem
    have hall := List.all_eq_true.mp List.all_takeWhile 0 (List.mem_of_mem_take hmem)
    simp at hall

def buildEvent (facts : EmitFacts) : Event :=
  let plain : Event :=
    { Event.zero with
      schemaVersion := 6
      wallTimeNs := facts.wallTimeNs
      monotonicTimeNs := facts.monotonicTimeNs
      processId := facts.processId
      kind := facts.kind
      severity := facts.severity
      valueA := facts.valueA
      valueB := facts.valueB
      valueC := facts.valueC
      seconds := facts.seconds
      rate := facts.rate
      measurement := facts.measurement.getD ExecutionMeasurement.zero
      sessionId := textCopy 65 facts.sessionId
      requestId := textCopy 65 facts.requestId
      turnId := textCopy 65 facts.turnId
      phase := textCopy 32 facts.phase }
  let speculative : Event :=
    match facts.speculation with
    | none => plain
    | some progress =>
      { plain with
        speculativeCycle := progress.cycle
        proposedTokens := progress.proposedTokens
        selectedVerificationTokens := progress.selectedVerificationTokens
        acceptedTokens := progress.acceptedTokens
        rejectedTokens := progress.rejectedTokens
        discardedTokens := progress.discardedTokens
        verificationCount := progress.verificationCount
        confidenceLogitCount := progress.confidenceLogitCount
        confidenceLogitMinimum := progress.confidenceLogitMinimum
        confidenceLogitMaximum := progress.confidenceLogitMaximum
        confidenceLogitMean := progress.confidenceLogitMean
        speculationPolicyIdentity := progress.policyIdentity }
  let provided : Event :=
    match facts.provider with
    | none => speculative
    | some provider =>
      { speculative with
        providerAdapter := provider.adapter
        providerRequestIdentity := provider.requestIdentity
        externalCorrelationId := provider.externalCorrelationId }
  match facts.scope with
  | none => provided
  | some scope =>
    { provided with
      engineKind := scope.engineKind
      executionStrategy := scope.executionStrategy
      runtimeModelIdentity := scope.runtimeModelIdentity
      artifactIdentity := scope.artifactIdentity
      variantIdentity := scope.specializationIdentity }

def dropNotice (dropped capacity coalesced : ℕ) (event : Event) : Event :=
  { event with
    kind := code EventKind.telemetryDropped.ctorIdx
    severity := code EventSeverity.warning.ctorIdx
    valueA := UInt64.ofNat dropped
    valueB := UInt64.ofNat capacity
    valueC := UInt64.ofNat coalesced
    speculativeCycle := 0
    proposedTokens := 0
    selectedVerificationTokens := 0
    acceptedTokens := 0
    rejectedTokens := 0
    discardedTokens := 0
    verificationCount := 0
    confidenceLogitCount := 0
    confidenceLogitMinimum := 0
    confidenceLogitMaximum := 0
    confidenceLogitMean := 0
    seconds := 0
    rate := 0
    measurement := ExecutionMeasurement.zero
    speculationPolicyIdentity := CText.empty 65
    phase := textCopy 32 [116, 101, 108, 101, 109, 101, 116, 114, 121] }

def hashWord (value : UInt64) : HashField := .word value.toNat

def measurementFields (value : ExecutionMeasurement) : List HashField :=
  [hashCode value.schemaVersion, hashCode value.scope, hashCode value.clock,
    hashCode value.composition, hashCode value.workUnit, hashWord value.available,
    hashWord value.completedUnits, hashWord value.totalUnits, hashWord value.durationNs,
    hashWord value.rollingUnits, hashWord value.rollingDurationNs,
    hashWord value.rollingWindowUnits, hashDouble value.cumulativeRate,
    hashDouble value.rollingRate]

def eventFields (event : Event) : List HashField :=
  [textField "yvex.server.event.v6", hashCode event.schemaVersion, .word event.sequence,
    hashCode event.kind, hashCode event.severity, hashText event.sessionId,
    hashText event.requestId, hashText event.turnId, hashText event.phase,
    hashText event.providerAdapter, hashText event.providerRequestIdentity,
    hashText event.externalCorrelationId, hashWord event.valueA, hashWord event.valueB,
    hashWord event.valueC, hashCode event.engineKind, hashCode event.executionStrategy,
    hashWord event.speculativeCycle, hashWord event.proposedTokens,
    hashWord event.selectedVerificationTokens, hashWord event.acceptedTokens,
    hashWord event.rejectedTokens, hashWord event.discardedTokens,
    hashWord event.verificationCount, hashWord event.confidenceLogitCount,
    hashDouble event.confidenceLogitMinimum, hashDouble event.confidenceLogitMaximum,
    hashDouble event.confidenceLogitMean, hashDouble event.seconds, hashDouble event.rate,
    hashText event.speculationPolicyIdentity, hashText event.runtimeModelIdentity,
    hashText event.artifactIdentity, hashText event.variantIdentity] ++
    measurementFields event.measurement

abbrev EventDigest := List HashField → CText 65

def identify (digest : EventDigest) (event : Event) : Event :=
  { event with eventIdentity := digest (eventFields event) }

theorem buildEvent_kind (facts : EmitFacts) : (buildEvent facts).kind = facts.kind := by
  unfold buildEvent
  cases facts.speculation <;> cases facts.provider <;> cases facts.scope <;> rfl

end Yvex.TelemetryEvent
