import Yvex.ByteRegions
import Yvex.QuantSink
import Yvex.Runs
import Yvex.WriterLayout

/-!
# Artifact file sink

The sink that writes the encoded bytes of each terminal into the planned interval of
one file, while a digest sink hashes them. Threads call it at any time; a call goes on
in locked sections, and the positioned writes between them take the answers of the
system. The history keeps the calls that have returned, and the log the bytes stored.
-/

set_option autoImplicit false

namespace Yvex.ArtifactSink

open AttentionData ByteRegions CheckedArithmetic QuantSink WriterLayout

structure SinkPlan where
  writer : SealedPlan
  quant : QuantPlan
  requiredExecutionIdentity : Identity

def SinkPlan.terminalCount (plan : SinkPlan) : ℕ := plan.quant.decisions.length

inductive TerminalState where
  | empty
  | beginning
  | active
  | chunking
  | committing
  | committed
  | aborted
  deriving DecidableEq

structure TerminalRecord where
  state : TerminalState
  deliveredBytes : ℕ
  chunks : ℕ

structure FileSinkSummary where
  physicalWriteBytes : ℕ
  encodedBytesWritten : ℕ
  outputChunks : ℕ
  committedTerminals : ℕ
  abortedTerminals : ℕ
  sourceRangesCommitted : ℕ
  sourceBytesCommitted : ℕ
  executionIdentity : Identity
  payloadByteIdentity : Identity

structure FileSink where
  records : ℕ → TerminalRecord
  summary : FileSinkSummary
  digest : DigestSink
  bytes : Store
  size : ℕ
  failed : Bool
  finalized : Bool

def fileSinkCreate (plan : SinkPlan) : FileSink where
  records _ := ⟨.empty, 0, 0⟩
  summary := ⟨plan.writer.prefixBytes.length, 0, 0, 0, 0, 0, 0, [], []⟩
  digest := digestSinkCreate
  bytes := writeAt (fun _ => 0) 0 plan.writer.prefixBytes
  size := plan.writer.finalFileBytes
  failed := false
  finalized := false

inductive DecisionArg where
  | null
  | foreign (terminalOrdinal : ℕ)
  | planned (terminalOrdinal : ℕ)

inductive Answer where
  | done
  | interrupted
  | wrote (count : ℕ)
  | refused

inductive Entry where
  | begun (ordinal : ℕ)
  | delivered (ordinal : ℕ) (bytes : List UInt8)
  | committed (ordinal : ℕ)
  | aborted (ordinal : ℕ)
  | refused
  deriving DecidableEq

structure Write where
  ordinal : ℕ
  padding : Bool
  offset : ℕ
  length : ℕ

inductive Phase where
  -- Where a thread is between two sections of its call. A finalizing thread remembers the
  -- calls that had returned when it was admitted.
  | idle
  | beginning (ordinal : ℕ)
  | begun (ordinal : ℕ) (refused : Bool)
  | writing (ordinal outputOffset fileOffset : ℕ) (bytes : List UInt8) (done : ℕ)
  | written (ordinal outputOffset : ℕ) (bytes : List UInt8)
  | hashed (ordinal : ℕ) (bytes : List UInt8)
  | refusing
  | committing (ordinal deliveredBytes sourceRanges sourceBytes : ℕ)
  | settling (ordinal sourceRanges sourceBytes : ℕ)
  | aborting (ordinal : ℕ)
  | padding (before : List Entry) (ordinal : ℕ)
  | filling (before : List Entry) (ordinal done : ℕ)
  | digesting (before : List Entry)
  | flushing (before : List Entry)
  | stating (before : List Entry)

structure Move where
  sink : FileSink
  phase : Phase
  entries : List Entry
  writes : List Write
  complete : Option (List Entry)

def Move.to (sink : FileSink) (phase : Phase) : Move := ⟨sink, phase, [], [], none⟩

def Move.returns (sink : FileSink) (entry : Entry) : Move := ⟨sink, .idle, [entry], [], none⟩

namespace FileSink

variable (sink : FileSink)

def setRecord (ordinal : ℕ) (record : TerminalRecord) : FileSink :=
  { sink with records := Function.update sink.records ordinal record }

def setState (ordinal : ℕ) (state : TerminalState) : FileSink :=
  sink.setRecord ordinal { sink.records ordinal with state := state }

def poison : FileSink := { sink with failed := true }

def refuse : Move := .returns sink.poison .refused

def pwrite (offset : ℕ) (data : List UInt8) : FileSink :=
  { sink with
    bytes := writeAt sink.bytes offset data
    size := max sink.size (offset + data.length) }

end FileSink

def pwriteTake (offset length done : ℕ) (answer : Answer) : Option ℕ :=
  if llongMax < offset + done then none
  else match answer with
    | .interrupted => some 0
    | .wrote count =>
      let take := min count (min (length - done) llongMax)
      if take = 0 then none else some take
    | .done => none
    | .refused => none

section Calls

variable (plan : SinkPlan) (sha : Sha256) (sink : FileSink)

def sinkBegin (decision : DecisionArg) : Move :=
  match decision with
  | .null | .foreign _ => sink.refuse
  | .planned ordinal =>
    if plan.terminalCount ≤ ordinal ∨ sink.failed = true ∨ sink.finalized = true ∨
        (sink.records ordinal).state ≠ .empty then sink.refuse
    else .to (sink.setState ordinal .beginning) (.beginning ordinal)

def sinkBeginDigest (ordinal : ℕ) : Move :=
  let answer := digestBegin plan.quant sink.digest ordinal
  .to { sink with digest := answer.1 } (.begun ordinal answer.2)

def FileSink.abortTerminal (ordinal : ℕ) : FileSink :=
  { sink.setState ordinal .aborted with
    summary := { sink.summary with abortedTerminals := sink.summary.abortedTerminals + 1 } }

def sinkBeginFinish (ordinal : ℕ) (refused : Bool) : Move :=
  if refused = true ∨ (sink.records ordinal).state ≠ .beginning then
    if (sink.records ordinal).state ≠ .aborted then (sink.abortTerminal ordinal).refuse
    else sink.refuse
  else .returns (sink.setState ordinal .active) (.begun ordinal)

def sinkChunk (decision : DecisionArg) (outputOffset : ℕ) (bytes : List UInt8) : Move :=
  match decision with
  | .null | .foreign _ => sink.refuse
  | .planned ordinal =>
    if bytes = [] ∨ plan.terminalCount ≤ ordinal then sink.refuse
    else match plan.writer.tensors[ordinal]? with
      | none => sink.refuse
      | some tensor =>
        let record := sink.records ordinal
        if ullongMax < outputOffset + bytes.length ∨
            tensor.rawBytes < outputOffset + bytes.length ∨
            ullongMax < tensor.absoluteOffset + outputOffset ∨ sink.failed = true ∨
            sink.finalized = true ∨ record.state ≠ .active ∨
            outputOffset ≠ record.deliveredBytes ∨
            ullongMax < record.deliveredBytes + bytes.length then sink.refuse
        else .to (sink.setState ordinal .chunking)
          (.writing ordinal outputOffset (tensor.absoluteOffset + outputOffset) bytes 0)

def sinkChunkWrite (ordinal outputOffset fileOffset : ℕ) (bytes : List UInt8) (done : ℕ)
    (answer : Answer) : Move :=
  if done < bytes.length then
    match pwriteTake fileOffset bytes.length done answer with
    | none => .to sink .refusing
    | some take =>
      { sink := sink.pwrite (fileOffset + done) ((bytes.drop done).take take)
        phase := .writing ordinal outputOffset fileOffset bytes (done + take)
        entries := []
        writes := [⟨ordinal, false, fileOffset + done, take⟩]
        complete := none }
  else match u64Add sink.summary.physicalWriteBytes bytes.length with
    | none => .to sink.poison .refusing
    | some total =>
      .to { sink with summary := { sink.summary with physicalWriteBytes := total } }
        (.written ordinal outputOffset bytes)

def sinkChunkDigest (ordinal outputOffset : ℕ) (bytes : List UInt8) : Move :=
  let answer := digestChunk plan.quant sink.digest ordinal outputOffset bytes
  .to { sink with digest := answer.1 } (if answer.2 then .refusing else .hashed ordinal bytes)

def sinkChunkFinish (ordinal : ℕ) (bytes : List UInt8) : Move :=
  -- The counters are advanced one after the other; the first that would overflow ends it.
  let record := sink.records ordinal
  if record.state ≠ .chunking then sink.refuse
  else match u64Add record.deliveredBytes bytes.length with
    | none => sink.refuse
    | some delivered =>
      let counted := sink.setRecord ordinal { record with deliveredBytes := delivered }
      if record.chunks = ullongMax then counted.refuse
      else match u64Add sink.summary.encodedBytesWritten bytes.length with
        | none => counted.refuse
        | some encoded =>
          if sink.summary.outputChunks = ullongMax then
            { counted with summary := { sink.summary with encodedBytesWritten := encoded } }.refuse
          else .returns { sink.setRecord ordinal ⟨.active, delivered, record.chunks + 1⟩ with
            summary := { sink.summary with
              encodedBytesWritten := encoded
              outputChunks := sink.summary.outputChunks + 1 } } (.delivered ordinal bytes)

def terminalSourceAccount (inputs : List (Option ℕ)) : Option (ℕ × ℕ) :=
  if inputs = [] then none
  else inputs.foldlM (fun total range => do
    let length ← range
    let bytes ← u64Add total.2 length
    if total.1 = ullongMax then none else some (total.1 + 1, bytes)) (0, 0)

def sinkCommit (decision : DecisionArg) (deliveredBytes : ℕ) : Move :=
  match decision with
  | .null | .foreign _ => sink.refuse
  | .planned ordinal =>
    match plan.quant.decisions[ordinal]? with
    | none => sink.refuse
    | some decision =>
      match terminalSourceAccount decision.inputs with
      | none => sink.refuse
      | some (ranges, bytes) =>
        let record := sink.records ordinal
        if sink.failed = true ∨ sink.finalized = true ∨ record.state ≠ .active ∨
            record.deliveredBytes ≠ deliveredBytes ∨ deliveredBytes ≠ decision.encodedBytes then
          .to sink .refusing
        else .to (sink.setState ordinal .committing)
          (.committing ordinal deliveredBytes ranges bytes)

def sinkCommitDigest (ordinal deliveredBytes ranges bytes : ℕ) : Move :=
  let answer := digestCommit plan.quant sha sink.digest ordinal deliveredBytes
  .to { sink with digest := answer.1 }
    (if answer.2 then .refusing else .settling ordinal ranges bytes)

def sinkCommitFinish (ordinal ranges bytes : ℕ) : Move :=
  if (sink.records ordinal).state ≠ .committing then sink.refuse
  else match u64Add sink.summary.sourceRangesCommitted ranges with
    | none => sink.refuse
    | some ranges =>
      let counted := { sink with summary := { sink.summary with sourceRangesCommitted := ranges } }
      match u64Add sink.summary.sourceBytesCommitted bytes with
      | none => counted.refuse
      | some bytes =>
        .returns { sink.setState ordinal .committed with
          summary := { sink.summary with
            sourceRangesCommitted := ranges
            sourceBytesCommitted := bytes
            committedTerminals := sink.summary.committedTerminals + 1 } } (.committed ordinal)

def sinkAbort (decision : DecisionArg) : Move :=
  match decision with
  | .null | .foreign _ => sink.refuse
  | .planned ordinal =>
    if plan.terminalCount ≤ ordinal then sink.refuse
    else .to { sink with digest := digestAbort plan.quant sink.digest ordinal } (.aborting ordinal)

def sinkAbortFinish (ordinal : ℕ) : Move :=
  let state := (sink.records ordinal).state
  .returns (if state ≠ .aborted ∧ state ≠ .committed then sink.abortTerminal ordinal
    else sink).poison (.aborted ordinal)

def sinkFinalize (history : List Entry) : Move :=
  -- The session is complete; the returned calls are kept to state what it has seen.
  if sink.finalized = true then .to sink .idle
  else if sink.failed = true ∨ sink.summary.committedTerminals ≠ plan.terminalCount ∨
      sink.summary.abortedTerminals ≠ 0 ∨
      sink.summary.encodedBytesWritten ≠ plan.writer.tensorPayloadBytes then
    .to sink.poison .idle
  else .to sink (.padding history 0)

def zeroBytes : ℕ := 32

def sinkPadding (before : List Entry) (ordinal : ℕ) : Move :=
  if plan.terminalCount ≤ ordinal then .to sink (.digesting before)
  else match plan.writer.tensors[ordinal]? with
    | none => .to sink .idle
    | some tensor =>
      if tensor.paddedBytes < tensor.rawBytes then .to sink .idle
      else if tensor.paddedBytes - tensor.rawBytes = 0 then .to sink (.padding before (ordinal + 1))
      else if zeroBytes < tensor.paddedBytes - tensor.rawBytes then .to sink .idle
      else .to sink (.filling before ordinal 0)

def sinkFill (before : List Entry) (ordinal done : ℕ) (answer : Answer) : Move :=
  match plan.writer.tensors[ordinal]? with
  | none => .to sink .idle
  | some tensor =>
    let length := tensor.paddedBytes - tensor.rawBytes
    if done < length then
      match pwriteTake tensor.absoluteEnd length done answer with
      | none => .to sink .idle
      | some take =>
        { sink := sink.pwrite (tensor.absoluteEnd + done) (List.replicate take 0)
          phase := .filling before ordinal (done + take)
          entries := []
          writes := [⟨ordinal, true, tensor.absoluteEnd + done, take⟩]
          complete := none }
    else match u64Add sink.summary.physicalWriteBytes length with
      | none => .to sink.poison .idle
      | some total =>
        .to { sink with summary := { sink.summary with physicalWriteBytes := total } }
          (.padding before (ordinal + 1))

def sinkDigest (before : List Entry) : Move :=
  match digestSinkFinalize plan.quant sha sink.digest with
  | none => .to sink .idle
  | some digest =>
    let sealing := { sink with digest := digest }
    if plan.requiredExecutionIdentity ≠ [] ∧
        plan.requiredExecutionIdentity ≠ digest.executionIdentity then .to sealing .idle
    else .to sealing (.flushing before)

def sinkFlush (before : List Entry) (answer : Answer) : Move :=
  match answer with
  | .done => .to sink (.stating before)
  | _ => .to sink .idle

def sinkStat (before : List Entry) (answer : Answer) : Move :=
  match answer with
  | .done =>
    if sink.size ≠ plan.writer.finalFileBytes then .to sink .idle
    else
      { sink := { sink with
          finalized := true
          summary := { sink.summary with
            executionIdentity := sink.digest.executionIdentity
            payloadByteIdentity := sink.digest.payloadByteIdentity } }
        phase := .idle
        entries := []
        writes := []
        complete := some before }
  | _ => .to sink .idle

end Calls

inductive Call where
  | begin (decision : DecisionArg)
  | chunk (decision : DecisionArg) (outputOffset : ℕ) (bytes : List UInt8)
  | commit (decision : DecisionArg) (deliveredBytes : ℕ)
  | abort (decision : DecisionArg)
  | finalize

inductive Event (Thread : Type) where
  | call (thread : Thread) (call : Call)
  | resume (thread : Thread) (answer : Answer)

structure World (Thread : Type) where
  sink : FileSink
  threads : Thread → Phase
  history : List Entry
  writes : List Write
  complete : Option (List Entry)

section Threads

variable {Thread : Type} [DecidableEq Thread] (plan : SinkPlan) (sha : Sha256)

def World.start : World Thread := ⟨fileSinkCreate plan, fun _ => .idle, [], [], none⟩

def World.apply (world : World Thread) (thread : Thread) (move : Move) : World Thread where
  sink := move.sink
  threads := Function.update world.threads thread move.phase
  history := world.history ++ move.entries
  writes := world.writes ++ move.writes
  complete := move.complete <|> world.complete

def callMove (world : World Thread) : Call → Move
  | .begin decision => sinkBegin plan world.sink decision
  | .chunk decision outputOffset bytes => sinkChunk plan world.sink decision outputOffset bytes
  | .commit decision deliveredBytes => sinkCommit plan world.sink decision deliveredBytes
  | .abort decision => sinkAbort plan world.sink decision
  | .finalize => sinkFinalize plan world.sink world.history

def resumeMove (sink : FileSink) (answer : Answer) : Phase → Move
  | .idle => .to sink .idle
  | .beginning ordinal => sinkBeginDigest plan sink ordinal
  | .begun ordinal refused => sinkBeginFinish sink ordinal refused
  | .writing ordinal outputOffset fileOffset bytes done =>
    sinkChunkWrite sink ordinal outputOffset fileOffset bytes done answer
  | .written ordinal outputOffset bytes => sinkChunkDigest plan sink ordinal outputOffset bytes
  | .hashed ordinal bytes => sinkChunkFinish sink ordinal bytes
  | .refusing => sink.refuse
  | .committing ordinal deliveredBytes ranges bytes =>
    sinkCommitDigest plan sha sink ordinal deliveredBytes ranges bytes
  | .settling ordinal ranges bytes => sinkCommitFinish sink ordinal ranges bytes
  | .aborting ordinal => sinkAbortFinish sink ordinal
  | .padding before ordinal => sinkPadding plan sink before ordinal
  | .filling before ordinal done => sinkFill plan sink before ordinal done answer
  | .digesting before => sinkDigest plan sha sink before
  | .flushing before => sinkFlush sink before answer
  | .stating before => sinkStat plan sink before answer

def step (world : World Thread) : Event Thread → World Thread
  | .call thread call =>
    match world.threads thread with
    | .idle => world.apply thread (callMove plan world call)
    | _ => world
  | .resume thread answer =>
    world.apply thread (resumeMove plan sha world.sink answer (world.threads thread))

end Threads

end Yvex.ArtifactSink
