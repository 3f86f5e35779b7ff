import Yvex.ProviderPublish
import Yvex.TwoPhase

/-!
# Runtime sessions and finishing an execution

A session owns up to two attention providers, each with an optional device
residency, and one recurrent sequence state. A coordinated finish gathers the
owners with an active transaction and every complete external participant,
resolves them together, and then gives up the session. A check that fails on the
way does not end the call: it turns the resolution into an abort.
-/

set_option autoImplicit false

namespace Yvex.Session

open AttentionData CheckedArithmetic RefusableStep Provider StateRecipe TwoPhase

inductive StorageBackend where
  | cpu
  | cuda
  deriving DecidableEq

structure SequenceState where
  banks : Bool → ℕ → Scalar
  bankValues : ℕ
  bindingCount : ℕ
  committedPosition : ℕ
  candidateTokens : ℕ
  generation : ℕ
  staged : ℕ → Bool
  stagedLayers : ℕ
  committedBank : Bool
  storageBackend : StorageBackend
  deviceAttached : Bool
  transactionActive : Bool
  prepared : Bool
  invalidated : Bool

def sequenceRefusal (status : Status) (reason : String) : Refusal :=
  errorOnly status "runtime.sequence-state" reason

def sequenceStatePrepare (state : SequenceState) : Option Refusal × SequenceState :=
  if state.invalidated || !state.transactionActive || state.prepared ||
      state.stagedLayers != state.bindingCount then
    (some (sequenceRefusal .state "every recurrent layer must be staged before publication"),
      state)
  else (none, { state with prepared := true })

def sequenceStatePublish (state : SequenceState) : SequenceState :=
  if !state.transactionActive || !state.prepared then state
  else { state with
    committedBank := !state.committedBank
    committedPosition := (state.committedPosition + state.candidateTokens) % wordLimit
    generation := (state.generation + 1) % wordLimit
    candidateTokens := 0
    stagedLayers := 0
    transactionActive := false
    prepared := false
    staged := fun _ => false }

def zeroBank (state : SequenceState) (bank : Bool) : SequenceState :=
  { state with banks := Function.update state.banks bank fun i =>
      if i < state.bankValues then 0 else state.banks bank i }

def clearedBank (state : SequenceState) : Bool → ℕ → Scalar :=
  if state.storageBackend = .cpu then (zeroBank state !state.committedBank).banks
  else state.banks

def sequenceStateAbort (state : SequenceState) : Option Refusal × SequenceState :=
  if (u64Mul state.bankValues 4).isNone then
    (some (sequenceRefusal .bounds "candidate recurrent state extent overflowed"), state)
  else (none, { state with
    banks := clearedBank state
    staged := fun _ => false
    candidateTokens := 0
    stagedLayers := 0
    transactionActive := false
    prepared := false })

def zeroStorage (deviceZero : Bool → Option Refusal) (state : SequenceState) :
    Option Refusal × SequenceState :=
  if state.storageBackend = .cpu then (none, zeroBank (zeroBank state false) true)
  else if !state.deviceAttached then (none, state)
  else match deviceZero false with
  | some refusal => (some refusal, state)
  | none =>
    match deviceZero true with
    | some refusal => (some refusal, zeroBank state false)
    | none => (none, zeroBank (zeroBank state false) true)

def sequenceStateInvalidate (deviceZero : Bool → Option Refusal) (state : SequenceState) :
    Option Refusal × SequenceState :=
  if (u64Mul state.bankValues 4).isNone then
    (some (sequenceRefusal .invalidArg "bounded recurrent state is required for invalidation"),
      state)
  else
    let idle := if state.transactionActive then (sequenceStateAbort state).2 else state
    match zeroStorage deviceZero idle with
    | (some refusal, state) => (some refusal, { state with invalidated := true })
    | (none, state) => (none, { state with
        committedPosition := 0
        generation := (state.generation + 1) % wordLimit
        invalidated := true })

structure Residency where
  invalidated : Bool
  commitPrepared : Bool
  stagedLayerCount : ℕ
  layerCount : ℕ
  generation : ℕ
  commitCount : ℕ
  abortCount : ℕ
  preparedGeneration : ℕ
  preparedCommitCount : ℕ

def residencyRefusal (status : Status) (reason : String) : Refusal :=
  errorOnly status "runtime.state.residency.prepare" reason

def residencyPrepareCommit (backend : Option Refusal) (residency : Residency) :
    Option Refusal × Residency :=
  if residency.invalidated || residency.commitPrepared ||
      residency.stagedLayerCount != residency.layerCount then
    (some (residencyRefusal .state "complete staged persistent state residency is required"),
      residency)
  else match u64Add residency.generation 1 with
  | none => (some (residencyRefusal .bounds
      "persistent state publication counters overflowed"), residency)
  | some generation =>
    match u64Add residency.commitCount 1 with
    | none => (some (residencyRefusal .bounds
        "persistent state publication counters overflowed"),
        { residency with preparedGeneration := generation })
    | some commits =>
      match backend with
      | some refusal => (some refusal,
          { residency with preparedGeneration := 0, preparedCommitCount := 0 })
      | none => (none, { residency with
          preparedGeneration := generation
          preparedCommitCount := commits
          commitPrepared := true })

def residencyPublishCommit (residency : Residency) : Residency :=
  if !residency.commitPrepared then residency
  else { residency with
    stagedLayerCount := 0
    commitCount := residency.preparedCommitCount
    generation := residency.preparedGeneration
    preparedGeneration := 0
    preparedCommitCount := 0
    commitPrepared := false }

def residencyAbort (residency : Residency) : Residency :=
  { residency with
    stagedLayerCount := 0
    preparedGeneration := 0
    preparedCommitCount := 0
    commitPrepared := false
    abortCount := (residency.abortCount + 1) % wordLimit }

def residencyInvalidate (residency : Residency) : Residency :=
  if residency.invalidated then residency
  else { residency with
    invalidated := true
    generation := (residency.generation + 1) % wordLimit }

structure StateOwner where
  provider : AttentionState
  residency : Option Residency
  prepared : Bool

inductive Scope where
  | target
  | draft
  deriving DecidableEq, Repr

structure OwnerEnvironment where
  summary : Environment
  prepare : Environment
  abort : Environment
  retry : Environment
  invalidate : Environment
  backend : Option Refusal

def stepError {σ : Type} : Outcome Refusal σ → Option Refusal
  | .done _ => none
  | .refused refusal _ => some refusal

def prepareResidency (env : OwnerEnvironment) (owner : StateOwner) :
    Option Refusal × StateOwner :=
  match owner.residency with
  | none => (none, owner)
  | some residency =>
    let (error, residency) := residencyPrepareCommit env.backend residency
    (error, { owner with residency := some residency })

def transactionPrepare (sha : Sha256) (env : OwnerEnvironment) (owner : StateOwner) :
    Option Refusal × StateOwner :=
  match prepareResidency env owner with
  | (some refusal, owner) => (some refusal, { owner with prepared := false })
  | (none, owner) =>
    let step := statePreparePublish sha env.prepare owner.provider
    (stepError step, { owner with provider := step.state, prepared := step.succeeded })

def transactionPublish (owner : StateOwner) : StateOwner :=
  if !owner.prepared then owner
  else {
    provider := statePublishPrepared owner.provider
    residency := owner.residency.map residencyPublishCommit
    prepared := false }

def cancelPrepared (owner : StateOwner) : AttentionState :=
  if owner.prepared then stateCancelPreparedPublish owner.provider else owner.provider

def transactionAbort (env : OwnerEnvironment) (owner : StateOwner) :
    Option Refusal × StateOwner :=
  -- A refused abort is tried once more. If the second try succeeds, the first refusal is
  -- still what is reported.
  let keep (provider : AttentionState) : StateOwner :=
    ⟨provider, owner.residency.map residencyAbort, false⟩
  match stateAbort env.abort (cancelPrepared owner) with
  | .done provider => (none, keep provider)
  | .refused first provider =>
    match stateAbort env.retry provider with
    | .done provider => (some first, keep provider)
    | .refused retry provider => (some retry, keep provider)

inductive ParticipantName where
  | state (scope : Scope)
  | sequence
  | external (index : ℕ)
  deriving DecidableEq, Repr

structure ExecutionSession where
  isOpen : Bool
  closing : Bool
  busy : Bool
  owner : Option ℕ
  invalidationPending : Bool
  invalidated : Bool
  cancelled : Bool
  engineCurrent : Bool
  stateOwner : Scope → Option StateOwner
  sequence : Option SequenceState
  executionCount : ℕ
  failureCount : ℕ
  cancellationCount : ℕ

section Participants

variable {ω : Type}

def ExecutionSession.setOwner (session : ExecutionSession) (scope : Scope) (owner : StateOwner) :
    ExecutionSession :=
  { session with stateOwner := Function.update session.stateOwner scope (some owner) }

def onOwner (scope : Scope) (f : StateOwner → Option Refusal × StateOwner)
    (w : ExecutionSession × ω) : Option Refusal × ExecutionSession × ω :=
  match w.1.stateOwner scope with
  | none => (none, w)
  | some owner => ((f owner).1, w.1.setOwner scope (f owner).2, w.2)

def onSequence (f : SequenceState → Option Refusal × SequenceState)
    (w : ExecutionSession × ω) : Option Refusal × ExecutionSession × ω :=
  match w.1.sequence with
  | none => (none, w)
  | some sequence => ((f sequence).1, { w.1 with sequence := some (f sequence).2 }, w.2)

def stateParticipant (sha : Sha256) (env : OwnerEnvironment) (scope : Scope) :
    Participant Refusal (ExecutionSession × ω) where
  prepare := onOwner scope (transactionPrepare sha env)
  publish w := (onOwner scope (fun owner => (none, transactionPublish owner)) w).2
  abort := onOwner scope (transactionAbort env)

def sequenceParticipant : Participant Refusal (ExecutionSession × ω) where
  prepare := onSequence sequenceStatePrepare
  publish w := (onSequence (fun sequence => (none, sequenceStatePublish sequence)) w).2
  abort := onSequence sequenceStateAbort

-- An external participant acts on a world of its own. `none` is one that lacks its context or
-- one of its functions.
abbrev External (ω : Type) := Option (Participant Refusal ω)

def liftExternal (participant : Participant Refusal ω) :
    Participant Refusal (ExecutionSession × ω) where
  prepare w := ((participant.prepare w.2).1, w.1, (participant.prepare w.2).2)
  publish w := (w.1, participant.publish w.2)
  abort w := ((participant.abort w.2).1, w.1, (participant.abort w.2).2)

end Participants

/-- The first failed check fixes the status. The error text is the last one
written: a later successful summary clears it. -/
structure Cleanup where
  status : Option Status
  error : Option Refusal

def Cleanup.clear : Cleanup := ⟨none, none⟩

def Cleanup.note (cleanup : Cleanup) (failed : Bool) (refusal : Refusal) : Cleanup :=
  if failed && cleanup.status.isNone then ⟨some refusal.status, some refusal⟩ else cleanup

def coordinatedRefusal (status : Status) (reason : String) : Refusal :=
  errorOnly status "runtime.session.coordinated" reason

def ownedBy (session : ExecutionSession) (thread : ℕ) : Bool := session.owner == some thread

def commitReady (session : ExecutionSession) (thread : ℕ) : Bool :=
  session.isOpen && session.busy && ownedBy session thread && !session.closing &&
    !session.invalidationPending

structure FinishEnvironment where
  lockAvailable : Bool
  owner : Scope → OwnerEnvironment

structure Gathered where
  cleanup : Cleanup
  scopes : List Scope
  sequence : Bool

def ownerIncomplete (copy : SummaryCopy) : Bool :=
  !copy.summary.transactionActive || copy.candidateActive || copy.stagedLayerCount == 0 ||
    copy.summary.invalidated

def gatherOwner (sha : Sha256) (env : FinishEnvironment) (committing : Bool)
    (session : ExecutionSession) (gathered : Gathered) (scope : Scope) : Gathered :=
  match session.stateOwner scope with
  | none => gathered
  | some owner =>
    match stateSummaryCopy sha (env.owner scope).summary owner.provider with
    | .error refusal => { gathered with cleanup :=
        ⟨gathered.cleanup.status.or (some refusal.status), some refusal⟩ }
    | .ok copy =>
      { gathered with
        cleanup := ({ gathered.cleanup with error := none } : Cleanup).note
          (committing && ownerIncomplete copy)
          (coordinatedRefusal .state "one coordinated state participant is incomplete")
        scopes := if copy.summary.transactionActive then gathered.scopes ++ [scope]
          else gathered.scopes }

def sequenceSummaryRefusal (sequence : SequenceState) : Option Refusal :=
  match u64Mul sequence.bankValues 4 with
  | none => some (sequenceRefusal .bounds "recurrent state byte summary overflowed")
  | some bytes => if (u64Mul bytes 2).isNone then
      some (sequenceRefusal .bounds "recurrent state byte summary overflowed") else none

def sequenceIncomplete (sequence : SequenceState) : Bool :=
  !sequence.transactionActive || sequence.stagedLayers != sequence.bindingCount ||
    sequence.invalidated

def gatherSequence (committing : Bool) (session : ExecutionSession) (gathered : Gathered) :
    Gathered :=
  -- An invalidated sequence state with an active transaction is refused as a participant, so
  -- it is not gathered.
  match session.sequence with
  | none => gathered
  | some sequence =>
    match sequenceSummaryRefusal sequence with
    | some refusal => { gathered with cleanup := gathered.cleanup.note true refusal }
    | none =>
      if sequence.transactionActive && sequence.invalidated then
        { gathered with cleanup := gathered.cleanup.note true (sequenceRefusal .state
          "an active recurrent state transaction is required") }
      else
        { gathered with
          sequence := sequence.transactionActive
          cleanup := gathered.cleanup.note (committing && sequenceIncomplete sequence)
            (coordinatedRefusal .state
              "coordinated recurrent state participant is incomplete") }

def gather (sha : Sha256) (env : FinishEnvironment) (thread : ℕ) (committing : Bool)
    (session : ExecutionSession) : Gathered :=
  gatherSequence committing session
    ([Scope.target, Scope.draft].foldl (gatherOwner sha env committing session)
      ⟨Cleanup.clear.note (!commitReady session thread)
        (coordinatedRefusal .state "session state is not commit-ready"), [], false⟩)

section Coordinated

variable {ω : Type}

def externalParticipants (externals : List (External ω)) :
    List (Named ParticipantName Refusal (ExecutionSession × ω)) :=
  externals.zipIdx.filterMap fun (external, index) =>
    external.map fun participant => (.external index, liftExternal participant)

def participantsOf (sha : Sha256) (env : FinishEnvironment) (scopes : List Scope)
    (sequence : Bool) (externals : List (External ω)) :
    List (Named ParticipantName Refusal (ExecutionSession × ω)) :=
  (scopes.map fun scope => (.state scope, stateParticipant sha (env.owner scope) scope)) ++
    (if sequence then [(.sequence, sequenceParticipant)] else []) ++
    externalParticipants externals

def ExecutionSession.withFreshParticipants (session : ExecutionSession) : ExecutionSession :=
  -- Each finish builds its participant records anew, with nothing prepared.
  { session with stateOwner := fun scope =>
      (session.stateOwner scope).map fun owner => { owner with prepared := false } }

def finalCleanup (committing : Bool) (session : ExecutionSession) (gathered : Gathered)
    (externals : List (External ω)) : Cleanup :=
  let incomplete := gathered.cleanup.note (externals.any Option.isNone)
    (coordinatedRefusal .invalidArg "transaction participant is incomplete")
  let ownerless := incomplete.note
    (committing && gathered.scopes.isEmpty && !gathered.sequence)
    (coordinatedRefusal .state "coordinated execution has no active state participant")
  ownerless.note (committing && (u64Add session.executionCount 1).isNone)
    (errorOnly .bounds "runtime.session.counter"
      "runtime session execution counter overflowed")

def transactionStatus (status : Option Refusal) (cleanup : Cleanup) : Option Refusal :=
  match status with
  | some refusal => some refusal
  | none => cleanup.status.map fun code =>
      { cleanup.error.getD (errorOnly code "runtime.transaction"
          "transaction failed before publication") with status := code }

def countFailure (status : Status) (session : ExecutionSession) : ExecutionSession :=
  if status = .cancelled then
    { session with cancellationCount :=
        (u64Add session.cancellationCount 1).getD session.cancellationCount }
  else
    { session with failureCount := (u64Add session.failureCount 1).getD session.failureCount }

def boundaryFailure (status : Option Refusal) (cleanup : Cleanup) (abortFailed : Bool)
    (error : Option Refusal) : Bool :=
  cleanup.status.isSome || abortFailed || (status.isNone && error.isSome)

def settle (boundary : Bool) (error : Option Refusal) (session : ExecutionSession) :
    ExecutionSession :=
  let counted := match error with
    | none => { session with executionCount := session.executionCount + 1 }
    | some error =>
      let counted := countFailure error.status session
      if boundary && error.status != Status.cancelled then { counted with invalidated := true }
      else counted
  { counted with owner := none, busy := false }

structure Finished (ω : Type) where
  error : Option Refusal
  session : ExecutionSession
  world : ω
  trace : List (Call ParticipantName)

def externalCap : ℕ := 8 - 3

def finishCoordinated (sha : Sha256) (env : FinishEnvironment) (thread : ℕ)
    (status : Option Refusal) (externals : List (External ω)) (session : ExecutionSession)
    (world : ω) : Finished ω :=
  if externalCap < externals.length ∨ !env.lockAvailable then
    ⟨some (coordinatedRefusal .state
      "busy session and bounded transaction participants are required"), session, world, []⟩
  else
    let gathered := gather sha env thread status.isNone session
    let cleanup := finalCleanup status.isNone session gathered externals
    let result := resolve
      (participantsOf sha env gathered.scopes gathered.sequence externals)
      (transactionStatus status cleanup) (session.withFreshParticipants, world)
    ⟨result.error, settle (boundaryFailure status cleanup result.abortFailed result.error)
      result.error result.world.1, result.world.2, result.trace⟩

end Coordinated

end Yvex.Session
