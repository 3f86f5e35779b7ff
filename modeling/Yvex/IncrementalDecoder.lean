import Yvex.Runs
import Yvex.TokenizerPieces
import Yvex.WordCounter

/-!
# One token at a time

The decoder emits complete code points and keeps the beginning of one until its
other bytes come. A candidate transaction works on a copy of the decoder's
state, which is published as a whole or dropped. Each call is one step: a call
that meets another one inside the decoder is refused.
-/

set_option autoImplicit false

namespace Yvex.IncrementalDecoder
open AttentionData StateRecipe WireCodecs ProviderRequest TokenizerUtf8 TokenizerPieces WordCounter

section Staging

structure DecoderState where
  pending : List UInt8
  processedTokenCount : ℕ
  stateIdentity : CText 65

structure Fragment where
  tokenId : ℕ
  bytes : List UInt8
  pendingByteCount : ℕ
  processedTokenCount : ℕ
  special : Bool
  eos : Bool
  suppressed : Bool
  stateBeforeIdentity : CText 65
  stateAfterIdentity : CText 65
  fragmentIdentity : CText 65

structure Call where
  busy : Bool
  cancelled : Bool
  pieceAllocated : Bool
  fragmentAllocated : Bool

def Call.calm : Call := ⟨false, false, true, true⟩

def combinedBytes : ℕ := 4096

def stateIdentityFields (vocabulary : Vocabulary) (options : DecodeOptions)
    (pending : List UInt8) (processed : ℕ) : List HashField :=
  [textField "yvex.tokenizer.incremental-state.v1", hashText vocabulary.planIdentity,
    .word options.skipSpecialTokens.toNat, .word options.requireCompleteUtf8.toNat,
    .word processed, .word pending.length, .bytes pending]

def fragmentFields (fragment : Fragment) : List HashField :=
  [textField "yvex.tokenizer.fragment.v1", .word fragment.tokenId, .word fragment.bytes.length,
    .bytes fragment.bytes, .word fragment.pendingByteCount, .word fragment.processedTokenCount,
    .word fragment.special.toNat, .word fragment.eos.toNat, .word fragment.suppressed.toNat,
    hashText fragment.stateBeforeIdentity, hashText fragment.stateAfterIdentity]

def identifyFragment (digest : TokenDigest) (fragment : Fragment) : Fragment :=
  { fragment with fragmentIdentity := digest (fragmentFields fragment) }

variable (digest : TokenDigest) (vocabulary : Vocabulary) (options : DecodeOptions)

def initialState : DecoderState :=
  ⟨[], 0, digest (stateIdentityFields vocabulary options [] 0)⟩

def stagedToken (state : DecoderState) (tokenId : ℕ) (classification : Classification)
    (suppressed : Bool) (combined : List UInt8) (count : ℕ) : Fragment × DecoderState :=
  let pending := combined.drop count
  let processed := wordAdd state.processedTokenCount 1
  let identity := digest (stateIdentityFields vocabulary options pending processed)
  (identifyFragment digest ⟨tokenId, combined.take count, pending.length, processed,
      classification.special, classification.eos, suppressed, state.stateIdentity, identity,
      CText.empty 65⟩,
    ⟨pending, processed, identity⟩)

def decoderStageToken (call : Call) (state : DecoderState) (tokenId : ℕ) :
    Except Refusal (Fragment × DecoderState) := do
  decodeCancelled call.cancelled
  let classification ← tokenClassify vocabulary tokenId
  let (piece, suppressed) ←
    pieceDecode vocabulary options.skipSpecialTokens call.pieceAllocated tokenId
  if piece.length > combinedBytes - state.pending.length then
    .error (errorOnly .bounds "tokenizer.decoder.push" "one token piece exceeds decoder bound")
  else match utf8Prefix (state.pending ++ piece) with
    | none =>
      .error (errorOnly .format "tokenizer.decoder.push" "token produces malformed UTF-8 stream")
    | some count =>
      if count != 0 && !call.fragmentAllocated then
        .error (errorOnly .nomem "tokenizer.decoder.push" "fragment allocation failed")
      else
        .ok (stagedToken digest vocabulary options state tokenId classification suppressed
          (state.pending ++ piece) count)

end Staging

section Calls

structure Decoder where
  state : DecoderState
  active : Bool
  transactionActive : Bool

structure Transaction where
  state : DecoderState
  baseIdentity : CText 65
  prepared : Bool

variable (digest : TokenDigest) (vocabulary : Vocabulary) (options : DecodeOptions)

def decoderOpen : Except Refusal Decoder :=
  if vocabulary.isSealed then .ok ⟨initialState digest vocabulary options, false, false⟩
  else
    .error (errorOnly .invalidArg "tokenizer.decoder.open"
      "sealed tokenizer and output are required")

def decoderEnter (decoder : Decoder) (call : Call) : Except Refusal Unit :=
  if decoder.active || call.busy then
    .error (errorOnly .state "tokenizer.decoder.lifecycle" "decoder is already in use")
  else .ok ()

def idleEnter (decoder : Decoder) (call : Call) (site : String) : Except Refusal Unit := do
  decoderEnter decoder call
  if decoder.transactionActive then
    .error (errorOnly .state site "decoder has an active candidate transaction")
  else .ok ()

def decoderPush (decoder : Decoder) (call : Call) (tokenId : ℕ) :
    Except Refusal (Fragment × Decoder) := do
  idleEnter decoder call "tokenizer.decoder.push"
  let (fragment, state) ← decoderStageToken digest vocabulary options call decoder.state tokenId
  .ok (fragment, { decoder with state := state })

def transactionBegin (decoder : Decoder) (call : Call) (allocated : Bool) :
    Except Refusal (Transaction × Decoder) :=
  if decoder.transactionActive then
    .error (errorOnly .state "tokenizer.decoder.transaction.begin"
      "decoder cannot admit another candidate transaction")
  else do
    decoderEnter decoder call
    if !allocated then
      .error (errorOnly .nomem "tokenizer.decoder.transaction.begin"
        "decoder transaction allocation failed")
    else
      .ok (⟨decoder.state, decoder.state.stateIdentity, false⟩,
        { decoder with transactionActive := true })

def transactionPush (transaction : Transaction) (call : Call) (tokenId : ℕ) :
    Except Refusal (Fragment × Transaction) :=
  if transaction.prepared then
    .error (errorOnly .state "tokenizer.decoder.transaction.push"
      "mutable decoder transaction and fragment are required")
  else do
    let (fragment, state) ←
      decoderStageToken digest vocabulary options call transaction.state tokenId
    .ok (fragment, { transaction with state := state })

def transactionPrepare (decoder : Decoder) (transaction : Transaction) (call : Call) :
    Except Refusal (Transaction × Decoder) :=
  -- A prepared transaction keeps the decoder until it is published or dropped.
  if transaction.prepared then
    .error (errorOnly .state "tokenizer.decoder.transaction.prepare"
      "unprepared decoder transaction is required")
  else do
    decoderEnter decoder call
    if !decoder.transactionActive || decoder.state.stateIdentity != transaction.baseIdentity then
      .error (errorOnly .state "tokenizer.decoder.transaction.prepare"
        "decoder state changed while the candidate was staged")
    else .ok ({ transaction with prepared := true }, { decoder with active := true })

def transactionPublish (transaction : Transaction) : Decoder :=
  ⟨transaction.state, false, false⟩

def transactionAbort (decoder : Decoder) (transaction : Transaction) : Decoder :=
  { decoder with
    transactionActive := false
    active := if transaction.prepared then false else decoder.active }

def finishFragment (decoder : Decoder) : Fragment :=
  identifyFragment digest ⟨0, [], decoder.state.pending.length, decoder.state.processedTokenCount,
    false, false, false, decoder.state.stateIdentity, decoder.state.stateIdentity, CText.empty 65⟩

def decoderFinish (decoder : Decoder) (call : Call) : Except Refusal Fragment := do
  idleEnter decoder call "tokenizer.decoder.finish"
  decodeCancelled call.cancelled
  if decoder.state.pending.length != 0 && options.requireCompleteUtf8 then
    .error (errorOnly .format "tokenizer.decoder.finish" "incomplete UTF-8 tail remains")
  else .ok (finishFragment digest decoder)

def decoderReset (decoder : Decoder) (call : Call) : Except Refusal Decoder := do
  idleEnter decoder call "tokenizer.decoder.reset"
  .ok { decoder with state := initialState digest vocabulary options }

end Calls

section Steps

structure World where
  decoder : Decoder
  transaction : Option Transaction
  committed : List ℕ
  fragments : List Fragment
  staged : List ℕ
  stagedFragments : List Fragment

inductive Op where
  | push (tokenId : ℕ) (call : Call)
  | begin (call : Call) (allocated : Bool)
  | stage (tokenId : ℕ) (call : Call)
  | prepare (call : Call)
  | publish
  | abort
  | finish (call : Call)
  | reset (call : Call)

variable (digest : TokenDigest) (vocabulary : Vocabulary) (options : DecodeOptions)

def step (world : World) : Op → World
  | .push tokenId call =>
    match decoderPush digest vocabulary options world.decoder call tokenId with
    | .error _ => world
    | .ok (fragment, decoder) =>
      { world with
        decoder := decoder
        committed := world.committed ++ [tokenId]
        fragments := world.fragments ++ [fragment] }
  | .begin call allocated =>
    match transactionBegin world.decoder call allocated with
    | .error _ => world
    | .ok (transaction, decoder) =>
      { world with
        decoder := decoder
        transaction := some transaction
        staged := []
        stagedFragments := [] }
  | .stage tokenId call =>
    match world.transaction with
    | none => world
    | some transaction =>
      match transactionPush digest vocabulary options transaction call tokenId with
      | .error _ => world
      | .ok (fragment, transaction) =>
        { world with
          transaction := some transaction
          staged := world.staged ++ [tokenId]
          stagedFragments := world.stagedFragments ++ [fragment] }
  | .prepare call =>
    match world.transaction with
    | none => world
    | some transaction =>
      match transactionPrepare world.decoder transaction call with
      | .error _ => world
      | .ok (transaction, decoder) =>
        { world with decoder := decoder, transaction := some transaction }
  | .publish =>
    match world.transaction with
    | none => world
    | some transaction =>
      if transaction.prepared then
        { world with
          decoder := transactionPublish transaction
          transaction := none
          committed := world.committed ++ world.staged
          fragments := world.fragments ++ world.stagedFragments
          staged := []
          stagedFragments := [] }
      else world
  | .abort =>
    match world.transaction with
    | none => world
    | some transaction =>
      { world with
        decoder := transactionAbort world.decoder transaction
        transaction := none
        staged := []
        stagedFragments := [] }
  | .finish _ => world
  | .reset call =>
    match decoderReset digest vocabulary options world.decoder call with
    | .error _ => world
    | .ok decoder => { world with decoder := decoder, committed := [], fragments := [] }

def start (decoder : Decoder) : World := ⟨decoder, none, [], [], [], []⟩

end Steps

end Yvex.IncrementalDecoder
