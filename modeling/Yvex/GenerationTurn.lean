import Yvex.ByteRegions
import Yvex.CheckedArithmetic
import Yvex.RefusableStep
import Yvex.SpeculativeAcceptance

/-!
# A generation turn

A turn samples tokens one at a time, or a verified block of them, commits each to the
persistent state and publishes its text. Every inner call takes an answer; a row of calls
that change nothing shares one, its first failure. A refused step keeps what it has done.
-/

set_option autoImplicit false

namespace Yvex.GenerationTurn

open AttentionData ByteRegions CheckedArithmetic RefusableStep SpeculativeAcceptance Outcome

structure Classification where
  eos : Bool
  stop : Bool
  suppressedByDefault : Bool

inductive StopReason where
  | eos
  | tokenizerToken
  | maxNewTokens
  | contextCapacity
  | outputFailure
  deriving DecidableEq

structure TurnPlan where
  speculative : Bool
  maximumNewTokens : ℕ
  contextCapacity : ℕ
  maximumOutputBytes : ℕ
  textCapacity : ℕ
  blockSize : ℕ
  classify : ℕ → Classification
  additionalStops : List ℕ
  reasoningEndTokenId : Option ℕ

def TurnPlan.terminal (plan : TurnPlan) (token : ℕ) : Bool :=
  (plan.classify token).eos || (plan.classify token).stop || decide (token ∈ plan.additionalStops)

structure TokenResult where
  ordinal : ℕ
  sampledTokenId : ℕ
  positionBefore : ℕ
  positionAfter : ℕ
  terminal : Bool
  modelCommitted : Bool
  detokenized : Bool
  textPublished : Bool
  suppressed : Bool
  textByteOffset : ℕ
  fragment : List UInt8

structure StagedToken where
  tokenId : ℕ
  fragment : List UInt8
  suppressed : Bool

structure TurnState where
  tokens : List TokenResult
  staged : List StagedToken
  text : Store
  modelCommittedTokenCount : ℕ
  textPublishedTokenCount : ℕ
  terminalTokenCount : ℕ
  suppressedTokenCount : ℕ
  decodeStepCount : ℕ
  generatedTextBytes : ℕ
  boundaryTokenCount : ℕ
  stopReason : Option StopReason
  status : Option Status
  position : ℕ

def TurnState.start (position : ℕ) : TurnState where
  tokens := []
  staged := []
  text _ := 0
  modelCommittedTokenCount := 0
  textPublishedTokenCount := 0
  terminalTokenCount := 0
  suppressedTokenCount := 0
  decodeStepCount := 0
  generatedTextBytes := 0
  boundaryTokenCount := 0
  stopReason := none
  status := none
  position := position

inductive Movement where
  -- How a call that moves the persistent state ends: it may report a failure although the
  -- state has moved.
  | done
  | refused (status : Status)
  | lost (status : Status)

structure StepAnswers where
  enter : Option Status
  summary : Option Status
  projected : Option Status
  sample : Except Status ℕ
  admitted : Option Status
  submitted : Option Status
  decode : Movement
  accounted : Option Status
  marked : Option Status
  push : ℕ → Except Status (List UInt8 × Bool)
  copied : Option Status
  published : Option Status
  identified : Option Status
  sink : ℕ → Option Status
  cancelled : Option Status
  cycle : Except Status (List ℕ × Verdicts)
  observed : Option Status
  stage : List ℕ → ℕ → Except Status (List UInt8 × Bool)
  commit : Movement
  reported : Option Status
  measured : Option Status
  leave : Option Status

namespace TurnState

variable (s : TurnState)

def last (change : TokenResult → TokenResult) : TurnState :=
  { s with tokens := s.tokens.dropLast ++ (s.tokens.getLast?.map change).toList }

def sampleToken (token : ℕ) : TurnState :=
  { s with tokens := s.tokens ++ [⟨s.tokens.length, token, s.position, s.position, false, false,
      false, false, false, 0, []⟩] }

def commitToken : TurnState :=
  { s.last fun token => { token with
      modelCommitted := true
      positionAfter := s.position + 1 } with
    position := s.position + 1
    modelCommittedTokenCount := s.modelCommittedTokenCount + 1
    decodeStepCount := s.decodeStepCount + 1 }

def detokenize (fragment : List UInt8) (suppressed : Bool) : TurnState :=
  s.last fun token => { token with
    detokenized := true
    suppressed := suppressed
    textByteOffset := s.generatedTextBytes
    fragment := fragment }

def copyText (fragment : List UInt8) : TurnState :=
  { s with text := writeAt s.text s.generatedTextBytes fragment }

def publishText (fragment : List UInt8) (suppressed : Bool) : TurnState :=
  { s.last fun token => { token with textPublished := true } with
    generatedTextBytes := s.generatedTextBytes + fragment.length
    textPublishedTokenCount := s.textPublishedTokenCount + 1
    suppressedTokenCount := s.suppressedTokenCount + suppressed.toNat }

def publishToken (token : ℕ) (fragment : List UInt8) (suppressed : Bool) : TurnState :=
  (((s.sampleToken token).commitToken.detokenize fragment suppressed).copyText
    fragment).publishText fragment suppressed

def terminate (kind : Classification) : TurnState :=
  { s.last fun record => { record with
      terminal := true
      suppressed := kind.suppressedByDefault } with
    terminalTokenCount := s.terminalTokenCount + 1
    suppressedTokenCount := s.suppressedTokenCount + kind.suppressedByDefault.toNat
    stopReason := some (if kind.eos then .eos else .tokenizerToken) }

def stopped (reason : StopReason) : TurnState := { s with stopReason := some reason }

end TurnState

section Steps

variable (plan : TurnPlan) (answers : StepAnswers)

def overBudget (bytes : ℕ) : Prop :=
  wordLimit ≤ bytes ∨ plan.textCapacity < bytes ∨ plan.maximumOutputBytes < bytes

instance (bytes : ℕ) : Decidable (overBudget plan bytes) :=
  inferInstanceAs (Decidable (_ ∨ _ ∨ _))

def deliver (index : ℕ) (s : TurnState) : Outcome Status TurnState :=
  match answers.sink index with
  | none => .done s
  | some status => .refused status (s.stopped .outputFailure)

def terminalToken (token : ℕ) (s : TurnState) : Outcome Status TurnState :=
  let s := s.terminate (plan.classify token)
  if (plan.classify token).eos = false ∧ token ∉ plan.additionalStops then .refused .state s
  else check answers.identified s

def publishOrdinary (token : ℕ) (s : TurnState) : Outcome Status TurnState :=
  match answers.push token with
  | .error status => .refused status s
  | .ok (fragment, suppressed) =>
    let s := s.detokenize fragment suppressed
    if overBudget plan (s.generatedTextBytes + fragment.length) then .refused .nomem s
    else (check answers.copied s).andThen fun s =>
      (check answers.published (s.copyText fragment)).andThen fun s =>
        check answers.identified (s.publishText fragment suppressed)

def commitOrdinary (token : ℕ) (s : TurnState) : Outcome Status TurnState :=
  -- The calls between the decode and the mark of the record leave the record unmarked when
  -- one of them fails.
  (check answers.submitted s).andThen fun s =>
    match answers.decode with
    | .refused status => .refused status s
    | .lost status => .refused status { s with position := s.position + 1 }
    | .done =>
      match answers.accounted with
      | some status => .refused status { s with position := s.position + 1 }
      | none =>
        (check answers.marked s.commitToken).andThen fun s => publishOrdinary plan answers token s

def targetStep (s : TurnState) : Outcome Status TurnState :=
  if s.modelCommittedTokenCount = plan.maximumNewTokens then .done (s.stopped .maxNewTokens)
  else (check answers.summary s).andThen fun s =>
    if s.position = plan.contextCapacity then .done (s.stopped .contextCapacity)
    else (check answers.projected s).andThen fun s =>
      match answers.sample with
      | .error status => .refused status s
      | .ok token =>
        (check answers.admitted (s.sampleToken token)).andThen fun s =>
          if plan.terminal token then terminalToken plan answers token s
          else (commitOrdinary plan answers token s).andThen fun s => deliver answers 0 s

def stagedBytes (staged : List StagedToken) : ℕ := (staged.map (·.fragment.length)).sum

def stageToken (token : ℕ) (s : TurnState) : Outcome Status TurnState :=
  match answers.stage (s.staged.map (·.tokenId)) token with
  | .error status => .refused status { s with staged := s.staged ++ [⟨token, [], false⟩] }
  | .ok (fragment, suppressed) =>
    let s := { s with staged := s.staged ++ [⟨token, fragment, suppressed⟩] }
    if plan.terminal token then .refused .state s
    else if overBudget plan (s.generatedTextBytes + stagedBytes s.staged) then .refused .nomem s
    else .done s

def publishStaged (s : TurnState) (row : StagedToken) : TurnState :=
  let s := s.publishToken row.tokenId row.fragment row.suppressed
  if plan.reasoningEndTokenId = some row.tokenId then
    { s with boundaryTokenCount := s.tokens.length }
  else s

def speculativePublish (tokens : List ℕ) (s : TurnState) : Outcome Status TurnState :=
  -- The records of a block are completed once its commit has moved the persistent state.
  (forEach (stageToken plan answers) tokens s).andThen fun s =>
    match answers.commit with
    | .refused status => .refused status s
    | .lost status => .refused status { s with position := s.position + tokens.length }
    | .done =>
      (check answers.identified (s.staged.foldl (publishStaged plan)
          { s with staged := [] })).andThen
        (forEach (deliver answers) (List.range tokens.length))

def candidateBlock (anchor : ℕ) (committed : List ℕ) (s : TurnState) :
    Outcome Status TurnState :=
  let tokens := anchor :: committed
  match tokens.findIdx? plan.terminal with
  | none => (speculativePublish plan answers tokens s).andThen fun s => check answers.reported s
  | some 0 => .refused .state s
  | some index =>
    (speculativePublish plan answers (tokens.take index) s).andThen fun s =>
      (check answers.reported s).andThen fun s =>
        match tokens[index]? with
        | none => .done s
        | some token => terminalToken plan answers token (s.sampleToken token)

def candidateCycle (anchor : ℕ) (s : TurnState) : Outcome Status TurnState :=
  match candidateExtent plan.blockSize (plan.maximumNewTokens - s.modelCommittedTokenCount)
      (plan.contextCapacity - s.position) with
  | .error status => .refused status s
  | .ok 0 => speculativePublish plan answers [anchor] s
  | .ok (count + 1) =>
    (check answers.cancelled s).andThen fun s =>
      match answers.cycle with
      | .error status => .refused status s
      | .ok (block, verdicts) =>
        match accept verdicts (block.take (count + 1)) with
        | none => .refused .format s
        | some committed =>
          (check answers.observed s).andThen fun s =>
            (candidateBlock plan answers anchor committed s).andThen fun s =>
              check answers.measured s

def speculativeTerminal (token : ℕ) (s : TurnState) : Outcome Status TurnState :=
  -- The record of a stop token is written before its commit is answered.
  (check answers.submitted { s with staged := [⟨token, [], false⟩] }).andThen fun s =>
    terminalToken plan answers token ({ s with staged := [] }.sampleToken token)

def speculativeStep (s : TurnState) : Outcome Status TurnState :=
  if s.modelCommittedTokenCount = plan.maximumNewTokens then .done (s.stopped .maxNewTokens)
  else (check answers.summary s).andThen fun s =>
    if s.position = plan.contextCapacity then .done (s.stopped .contextCapacity)
    else (check answers.projected s).andThen fun s =>
      match answers.sample with
      | .error status => .refused status s
      | .ok token =>
        (check answers.admitted s).andThen fun s =>
          if plan.terminal token then speculativeTerminal plan answers token s
          else candidateCycle plan answers token s

def iteration (s : TurnState) : Outcome Status TurnState :=
  ((check answers.enter s).andThen fun s =>
    if plan.speculative = true ∧ s.boundaryTokenCount = 0 then speculativeStep plan answers s
    else targetStep plan answers s).andThen fun s => check answers.leave s

def settle : Outcome Status TurnState → TurnState
  | .refused status s => { s with status := some status }
  | .done s =>
    if s.modelCommittedTokenCount = plan.maximumNewTokens then s.stopped .maxNewTokens else s

def TurnState.complete (s : TurnState) : Bool := s.status.isSome || s.stopReason.isSome

end Steps

structure Progress where
  turn : TurnState
  iterations : ℕ

def turnAdvance (plan : TurnPlan) (replies : ℕ → TurnState → StepAnswers) :
    ℕ → Progress → Progress
  | 0, progress => progress
  | budget + 1, progress =>
    if progress.turn.complete then progress
    else turnAdvance plan replies budget
      ⟨settle plan (iteration plan (replies progress.iterations progress.turn) progress.turn),
        progress.iterations + 1⟩

def turnRun (plan : TurnPlan) (replies : ℕ → TurnState → StepAnswers) (position : ℕ)
    (budgets : List ℕ) : Progress :=
  budgets.foldl (fun progress budget => turnAdvance plan replies budget progress)
    ⟨TurnState.start position, 0⟩

end Yvex.GenerationTurn
