import Yvex.RefusableStep
import Yvex.StateRecipe
import Yvex.WordCounter

/-!
# Sampling contexts and their random draws

A context publishes a generator state, the number of draws behind it and the
identity of both. A direct selection publishes its draw when it succeeds. A
transaction draws from a provisional copy and publishes all its draws at once;
from the preparation of a commit until its resolution it keeps the context to
itself.

What the logits decide is external: whether a row is admitted, the distribution
it leaves, the token a random value selects. A callback that asks for
cancellation is asked a number of times within a call.
-/

set_option autoImplicit false

namespace Yvex.Sampling

open AttentionData CheckedArithmetic StateRecipe WordCounter RefusableStep

inductive Strategy where
  | greedy
  | stochastic
  deriving DecidableEq, Repr

structure Policy where
  strategy : Strategy
  seed : UInt64
  rngAlgorithm : ℕ
  rngVersion : ℕ
  policyIdentity : Identity

structure Summary where
  successfulSamples : ℕ
  stochasticDraws : ℕ
  failureCount : ℕ
  cancellationCount : ℕ
  rngStateIdentity : Identity

structure Context where
  policy : Policy
  maximumRows : ℕ
  deviceSelection : Bool
  rngState : UInt64
  rngIncrement : UInt64
  successfulDraws : ℕ
  active : Bool
  closing : Bool
  admissionFailures : ℕ
  openTransactions : ℕ
  summary : Summary

structure Transaction where
  initialState : UInt64
  nextState : UInt64
  initialDraws : ℕ
  drawCount : ℕ
  sampleCount : ℕ
  preparedIdentity : Identity
  commitPrepared : Bool

structure Checkpoint where
  schemaVersion : ℕ
  rngState : UInt64
  rngIncrement : UInt64
  successfulDraws : ℕ
  policyIdentity : Identity
  rngStateIdentity : Identity
  checkpointIdentity : Identity

structure Host where
  sha : Sha256
  uniformBits : UInt32 → ℕ

def samplingRefuse (status : Status) (reason : String) : Refusal :=
  errorOnly status "runtime.sampling" reason

def pcgMultiplier : UInt64 := 6364136223846793005

def pcgIncrement : UInt64 := 1442695040888963407

def pcgAdvance (increment state : UInt64) : UInt64 := state * pcgMultiplier + increment

def pcgOutput (state : UInt64) : UInt32 :=
  let shifted := (((state >>> 18) ^^^ state) >>> 27).toUInt32
  let rotation := (state >>> 59).toUInt32
  (shifted >>> rotation) ||| (shifted <<< ((0 - rotation) &&& 31))

def pcgNext (state increment : UInt64) : UInt64 × UInt32 :=
  (pcgAdvance increment state, pcgOutput state)

def pcgSeed (seed : UInt64) : UInt64 :=
  (pcgNext ((pcgNext 0 pcgIncrement).1 + seed) pcgIncrement).1

def samplingRngIdentity (host : Host) (c : Context) (state : UInt64) (draws : ℕ) :
    Option Identity :=
  host.sha.digest [textField "yvex.runtime.sampling.rng.v1", .word c.policy.rngAlgorithm,
    .word c.policy.rngVersion, .word c.policy.seed.toNat, .word state.toNat,
    .word c.rngIncrement.toNat, .word draws]

def samplingCheckpointIdentity (host : Host) (checkpoint : Checkpoint) : Option Identity :=
  host.sha.digest [textField "yvex.runtime.sampling.checkpoint.v1",
    .word checkpoint.schemaVersion, .word checkpoint.rngState.toNat,
    .word checkpoint.rngIncrement.toNat, .word checkpoint.successfulDraws,
    .text checkpoint.policyIdentity, .text checkpoint.rngStateIdentity]

def samplingUniformIdentity (host : Host) (before after : Identity) (values : List UInt32) :
    Option Identity :=
  host.sha.digest ([textField "yvex.runtime.sampling.uniforms.v1", .word values.length,
    .text before, .text after] ++ values.map fun value => .word (host.uniformBits value))

def samplingContextOpen (host : Host) (policy : Policy) (maximumRows : ℕ) (deviceSelection : Bool)
    (checks : Except Refusal Unit) : Except Refusal Context :=
  match checks with
  | .error refusal => .error refusal
  | .ok () =>
    let opened : Context :=
      { policy := policy
        maximumRows := maximumRows
        deviceSelection := deviceSelection
        rngState := pcgSeed policy.seed
        rngIncrement := pcgIncrement
        successfulDraws := 0
        active := false
        closing := false
        admissionFailures := 0
        openTransactions := 0
        summary := ⟨0, 0, 0, 0, []⟩ }
    match samplingRngIdentity host opened opened.rngState 0 with
    | none => .error (samplingRefuse .state "initial sampling RNG identity failed")
    | some identity =>
      .ok { opened with summary := { opened.summary with rngStateIdentity := identity } }

def Context.refused (c : Context) : Context :=
  { c with admissionFailures := wordAdd c.admissionFailures 1 }

def samplingEnter (c : Context) : Outcome Refusal Context :=
  if !c.active && !c.closing then .done { c with active := true }
  else .refused (samplingRefuse .state
    (if c.closing then "sampling context is closing" else "sampling context is already in use"))
    c.refused

def samplingTransactionEnter (c : Context) : Outcome Refusal Context :=
  -- A pending transaction stays resolvable while a close drains it.
  if !c.active then .done { c with active := true }
  else .refused (samplingRefuse .state "sampling transaction owner is already in use") c.refused

def samplingLeave (c : Context) (status : Option Status) (completed : ℕ) : Context :=
  { c with
    active := false
    summary := { c.summary with
      successfulSamples := wordAdd c.summary.successfulSamples completed
      failureCount := if status = none then c.summary.failureCount
        else wordAdd c.summary.failureCount 1
      cancellationCount := if status = some .cancelled then wordAdd c.summary.cancellationCount 1
        else c.summary.cancellationCount } }

def Context.publish (c : Context) (state : UInt64) (draws : ℕ) (identity : Identity) : Context :=
  { c with
    rngState := state
    successfulDraws := draws
    summary := { c.summary with stochasticDraws := draws, rngStateIdentity := identity } }

structure Source where
  hostValuesAvailable : Bool
  deviceValuesAvailable : Bool
  vocabularySize : ℕ
  validate : Option Refusal
  greedyRow : Except Refusal ℕ
  greedyToken : ℕ
  candidateIdentity : Bool
  distribution : Option Refusal
  deviceOperations : Bool
  pick : UInt32 → Except Refusal ℕ
  finish : Option Refusal

abbrev Cancel := ℕ → Bool

structure Staged where
  token : ℕ
  draw : Option (UInt64 × UInt32)
  before : Identity
  after : Identity

def samplingSelectGreedy (host : Host) (c : Context) (source : Source) : Except Refusal Staged :=
  if !source.candidateIdentity then
    .error (samplingRefuse .state "greedy candidate identity derivation failed")
  else match samplingRngIdentity host c c.rngState c.successfulDraws with
  | none => .error (samplingRefuse .state "greedy RNG identity derivation failed")
  | some identity => .ok ⟨source.greedyToken, none, identity, identity⟩

def samplingSelectDeviceStochastic (host : Host) (c : Context) (source : Source) (cancel : Cancel)
    (initialState : UInt64) (initialDraws : ℕ) : Except Refusal Staged :=
  let next := pcgNext initialState c.rngIncrement
  if !source.deviceOperations then
    .error (samplingRefuse .unsupported "device stochastic sampling operation is unavailable")
  else match u64Add initialDraws 1, samplingRngIdentity host c initialState initialDraws with
  | some nextDraws, some before =>
    if cancel 0 then
      .error (samplingRefuse .cancelled "device stochastic sampling was cancelled before launch")
    else match source.pick next.2 with
    | .error refusal => .error refusal
    | .ok token =>
      if cancel 1 then
        .error (samplingRefuse .cancelled
          "device stochastic sampling was cancelled before RNG publication")
      else match source.candidateIdentity, samplingRngIdentity host c next.1 nextDraws with
      | true, some after => .ok ⟨token, some next, before, after⟩
      | _, _ => .error (samplingRefuse .state
          "device stochastic candidate or RNG identity failed")
  | _, _ => .error (samplingRefuse .state "device stochastic RNG identity failed")

def samplingSelectStochastic (host : Host) (c : Context) (source : Source) (cancel : Cancel)
    (initialState : UInt64) (initialDraws : ℕ) : Except Refusal Staged :=
  let next := pcgNext initialState c.rngIncrement
  match source.distribution with
  | some refusal => .error refusal
  | none =>
    match source.candidateIdentity, u64Add initialDraws 1,
        samplingRngIdentity host c initialState initialDraws with
    | true, some nextDraws, some before =>
      if cancel 0 then
        .error (samplingRefuse .cancelled "sampling was cancelled before RNG publication")
      else match source.pick next.2 with
      | .error refusal => .error refusal
      | .ok token =>
        match samplingRngIdentity host c next.1 nextDraws with
        | some after => .ok ⟨token, some next, before, after⟩
        | none => .error (samplingRefuse .state
            "stochastic selected probability or RNG identity failed")
    | _, _, _ => .error (samplingRefuse .state "stochastic candidate or RNG identity failed")

def samplingDraw (host : Host) (c : Context) (source : Source) (cancel : Cancel)
    (state : UInt64) (draws : ℕ) : Except Refusal Staged :=
  if source.deviceValuesAvailable then
    samplingSelectDeviceStochastic host c source cancel state draws
  else samplingSelectStochastic host c source cancel state draws

def hostScanOverflows (source : Source) : Bool :=
  source.hostValuesAvailable && ((u64Mul source.vocabularySize 4).bind fun bytes =>
    u64Mul bytes 2).isNone

def samplingStage (host : Host) (c : Context) (source : Source) (cancel : Cancel) :
    Except Refusal Staged :=
  if cancel 0 then
    .error (samplingRefuse .cancelled "sampling was cancelled before source admission")
  else match source.validate with
  | some refusal => .error refusal
  | none =>
    if hostScanOverflows source then
      .error (samplingRefuse .bounds "sampling host scan accounting overflowed")
    else
      let staged := match c.policy.strategy with
        | .greedy => samplingSelectGreedy host c source
        | .stochastic => samplingDraw host c source (fun asked => cancel (asked + 1)) c.rngState
            c.successfulDraws
      match staged, source.finish with
      | .error refusal, _ => .error refusal
      | .ok _, some refusal => .error refusal
      | .ok staged, none => .ok staged

def samplingSelectOwned (host : Host) (source : Source) (hasResult : Bool) (cancel : Cancel)
    (c : Context) : Except Refusal (Context × Option Staged) :=
  if !hasResult then .error (samplingRefuse .invalidArg "sampling result storage is required")
  else if c.policy.strategy = .greedy ∧ c.deviceSelection = true then
    match source.greedyRow with
    | .error refusal => .error refusal
    | .ok token => .ok (c, some ⟨token, none, [], []⟩)
  else match samplingStage host c source cancel with
  | .error refusal => .error refusal
  | .ok staged =>
    match staged.draw with
    | none => .ok (c, some staged)
    | some (state, _) =>
      .ok (c.publish state (wordAdd c.successfulDraws 1) staged.after, some staged)

def samplingInside {α : Type} (completed : ℕ) (body : Context → Except Refusal (Context × Option α))
    (c : Context) : Outcome Refusal (Context × Option α) :=
  match samplingEnter c with
  | .refused refusal c => .refused refusal (c, none)
  | .done c =>
    match body c with
    | .error refusal => .refused refusal (samplingLeave c (some refusal.status) 0, none)
    | .ok (c, result) => .done (samplingLeave c none completed, result)

def samplingSelect (host : Host) (source : Source) (hasResult : Bool) (cancel : Cancel) :
    Context → Outcome Refusal (Context × Option Staged) :=
  samplingInside 1 (samplingSelectOwned host source hasResult cancel)

def transactionBegin (allocated : Bool) :
    Context → Outcome Refusal (Context × Option Transaction) :=
  samplingInside 0 fun c =>
    if c.policy.strategy ≠ .stochastic then
      .error (samplingRefuse .unsupported "greedy sampling has no RNG transaction")
    else if !allocated then
      .error (samplingRefuse .nomem "sampling transaction allocation failed")
    else
      .ok ({ c with openTransactions := wordAdd c.openTransactions 1 },
        some ⟨c.rngState, c.rngState, c.successfulDraws, 0, 0, [], false⟩)

def drawUniforms (increment : UInt64) : Cancel → UInt64 → ℕ → Except Refusal (UInt64 × List UInt32)
  | _, state, 0 => .ok (state, [])
  | cancel, state, count + 1 =>
    if cancel 0 then
      .error (samplingRefuse .cancelled "sampling transaction draw was cancelled")
    else
      let next := pcgNext state increment
      match drawUniforms increment (fun asked => cancel (asked + 1)) next.1 count with
      | .error refusal => .error refusal
      | .ok (state, values) => .ok (state, next.2 :: values)

def transactionUniforms (host : Host) (c : Context) (t : Transaction) (valueCount : ℕ)
    (cancel : Cancel) : Except Refusal (Transaction × List UInt32) :=
  let invalid := samplingRefuse .invalidArg "sampling transaction draw extent is invalid"
  match u64Add t.drawCount valueCount with
  | none => .error invalid
  | some nextCount =>
    if valueCount = 0 ∨ c.maximumRows < nextCount then .error invalid
    else match samplingRngIdentity host c t.nextState (wordAdd t.initialDraws t.drawCount) with
    | none => .error (samplingRefuse .state "sampling transaction initial identity failed")
    | some before =>
      match drawUniforms c.rngIncrement cancel t.nextState valueCount with
      | .error refusal => .error refusal
      | .ok (state, values) =>
        match samplingRngIdentity host c state (wordAdd t.initialDraws nextCount) with
        | none => .error (samplingRefuse .state "sampling transaction final identity failed")
        | some after =>
          match samplingUniformIdentity host before after values with
          | none => .error (samplingRefuse .state "sampling transaction draw identity failed")
          | some _ => .ok ({ t with nextState := state, drawCount := nextCount }, values)

def baseChanged (c : Context) (t : Transaction) : Bool :=
  c.rngState != t.initialState || c.successfulDraws != t.initialDraws

def baseRefusal : Refusal := samplingRefuse .state "sampling transaction base state changed"

def transactionStage (host : Host) (c : Context) (t : Transaction) (source : Source)
    (cancel : Cancel) (stagedDraws : ℕ) : Except Refusal Staged :=
  if baseChanged c t then .error baseRefusal
  else match source.validate with
  | some refusal => .error refusal
  | none =>
    match samplingDraw host c source cancel t.nextState stagedDraws, source.finish with
    | .error refusal, _ => .error refusal
    | .ok _, some refusal => .error refusal
    | .ok staged, none => .ok staged

def transactionSelect (host : Host) (c : Context) (t : Transaction) (source : Source)
    (hasResult : Bool) (cancel : Cancel) :
    Outcome Refusal (Context × Option (Transaction × Staged)) :=
  let invalid := samplingRefuse .invalidArg "sampling transaction selection extent is invalid"
  match u64Add t.drawCount 1, u64Add t.sampleCount 1, u64Add t.initialDraws t.drawCount with
  | some nextCount, some nextSamples, some stagedDraws =>
    if t.commitPrepared || !hasResult || decide (c.maximumRows < nextCount) then
      .refused invalid (c, none)
    else samplingInside 0 (fun c =>
      match transactionStage host c t source cancel stagedDraws with
      | .error refusal => .error refusal
      | .ok staged =>
        .ok (c, some ({ t with
          nextState := (staged.draw.map Prod.fst).getD t.nextState
          drawCount := nextCount
          sampleCount := nextSamples }, staged))) c
  | _, _, _ => .refused invalid (c, none)

def transactionPrepareCommit (host : Host) (c : Context) (t : Transaction) :
    Outcome Refusal (Context × Transaction) :=
  -- A prepared commit does not leave the context.
  if t.commitPrepared then
    .refused (samplingRefuse .invalidArg "sampling transaction is not commit-ready") (c, t)
  else match samplingTransactionEnter c with
  | .refused refusal c => .refused refusal (c, t)
  | .done c =>
    if baseChanged c t then .refused baseRefusal (samplingLeave c (some .state) 0, t)
    else match (u64Add t.initialDraws t.drawCount).bind
        (samplingRngIdentity host c t.nextState) with
    | none => .refused (samplingRefuse .state "sampling transaction commit identity failed")
        (samplingLeave c (some .state) 0, t)
    | some identity => .done (c, { t with preparedIdentity := identity, commitPrepared := true })

def Context.commit (c : Context) (t : Transaction) (identity : Identity) : Context :=
  let published := c.publish t.nextState (wordAdd c.successfulDraws t.drawCount) identity
  { published with summary := { published.summary with
      successfulSamples := wordAdd c.summary.successfulSamples t.sampleCount } }

def Context.forget (c : Context) : Context :=
  { c with openTransactions := wordSub c.openTransactions 1 }

def transactionResolvePrepared (c : Context) (t : Transaction) (publish : Bool) : Context :=
  samplingLeave (if publish then c.commit t t.preparedIdentity else c).forget none 0

def transactionFinish (host : Host) (c : Context) (t : Transaction) (commit : Bool) :
    Outcome Refusal (Context × Bool) :=
  -- Ends a transaction whose commit is not prepared; it is gone once the context was
  -- entered.
  match samplingTransactionEnter c with
  | .refused refusal c => .refused refusal (c, false)
  | .done c =>
    if !commit then .done (samplingLeave c.forget none 0, true)
    else if baseChanged c t then
      .refused baseRefusal (samplingLeave c.forget (some .state) 0, true)
    else match samplingRngIdentity host c t.nextState (wordAdd t.initialDraws t.drawCount) with
    | none => .refused (samplingRefuse .state "sampling transaction commit identity failed")
        (samplingLeave c.forget (some .state) 0, true)
    | some identity => .done (samplingLeave (c.commit t identity).forget none 0, true)

def contextCheckpoint (host : Host) : Context → Outcome Refusal (Context × Option Checkpoint) :=
  samplingInside 0 fun c =>
    if c.openTransactions ≠ 0 then
      .error (samplingRefuse .state "sampling checkpoint requires no open transaction")
    else
      let failed := samplingRefuse .state "sampling checkpoint identity failed"
      match samplingRngIdentity host c c.rngState c.successfulDraws with
      | none => .error failed
      | some identity =>
        let checkpoint : Checkpoint := ⟨1, c.rngState, c.rngIncrement, c.successfulDraws,
          c.policy.policyIdentity, identity, []⟩
        match samplingCheckpointIdentity host checkpoint with
        | none => .error failed
        | some sealed => .ok (c, some { checkpoint with checkpointIdentity := sealed })

def checkpointValid (host : Host) (c : Context) (checkpoint : Checkpoint) : Bool :=
  checkpoint.schemaVersion == 1 && checkpoint.rngIncrement == c.rngIncrement &&
    checkpoint.policyIdentity == c.policy.policyIdentity &&
    samplingRngIdentity host c checkpoint.rngState checkpoint.successfulDraws ==
      some checkpoint.rngStateIdentity &&
    samplingCheckpointIdentity host checkpoint == some checkpoint.checkpointIdentity

def contextRestore (host : Host) (checkpoint : Checkpoint) :
    Context → Outcome Refusal (Context × Option Unit) :=
  samplingInside 0 fun c =>
    if c.openTransactions ≠ 0 then
      .error (samplingRefuse .state "sampling restore requires no open transaction")
    else if !checkpointValid host c checkpoint then
      .error (samplingRefuse .format "sampling checkpoint is incompatible or corrupt")
    else
      .ok (c.publish checkpoint.rngState checkpoint.successfulDraws
        checkpoint.rngStateIdentity, some ())

end Yvex.Sampling
