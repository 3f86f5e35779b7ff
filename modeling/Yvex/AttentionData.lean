import Mathlib.Tactic

/-!
# Attention state data

The records that recipes, views, publications and checkpoints are made of.
A float is kept as its bit pattern, so that copying, comparing and hashing a
value are exact. A pointer of a history view either is null, refers to the
page storage of the bank that owns the view, or refers to other memory, which
is represented by the values read through it.
-/

set_option autoImplicit false

namespace Yvex.AttentionData

abbrev Scalar := UInt32

abbrev Text := List Char

abbrev Identity := Text

def isInfinite (x : Scalar) : Bool := x % 0x80000000 == 0x7f800000

def signBit (x : Scalar) : Bool := 0x80000000 ≤ x

def isFinite (x : Scalar) : Bool := x % 0x80000000 < 0x7f800000

def isHexDigit (c : Char) : Bool :=
  (decide ('0' ≤ c) && decide (c ≤ '9')) || (decide ('a' ≤ c) && decide (c ≤ 'f')) ||
    (decide ('A' ≤ c) && decide (c ≤ 'F'))

def hexValid (text : Text) : Bool := text.length == 64 && text.all isHexDigit

inductive HashField where
  | text (value : Text)
  | word (value : ℕ)
  | bytes (value : List UInt8)
  deriving DecidableEq

/-- SHA-256 over the canonical field encoding. A digest is rendered as 64 hex
digits; a refused update yields no digest. -/
structure Sha256 where
  digest : List HashField → Option Identity
  digest_hex : ∀ fields identity, digest fields = some identity → hexValid identity = true

def fixedDigest : Sha256 where
  -- One digest for every input, to run definitions on fixed states.
  digest _ := some (List.replicate 64 'a')
  digest_hex := by
    rintro fields identity ⟨⟩
    decide

inductive Status where
  | nomem
  | io
  | format
  | unsupported
  | bounds
  | state
  | cancelled
  | invalidArg
  deriving DecidableEq, Repr

inductive AttentionClass where
  | swa
  | csa
  | hca
  deriving DecidableEq, Repr

inductive TensorScope where
  | global
  | mainLayer
  | draft
  deriving DecidableEq, Repr

inductive RollingKind where
  | none
  | main
  | indexer
  deriving DecidableEq, Repr

inductive HistoryBinding where
  | localHistory
  | compressedHistory
  | indexerHistory
  deriving DecidableEq, Repr

inductive RollingBinding where
  | mainRolling
  | indexerRolling
  deriving DecidableEq, Repr

inductive Binding where
  -- A component binding together with its kind: a sealed recipe only pairs the history kind
  -- with history bindings and the rolling kind with rolling ones.
  | history (binding : HistoryBinding)
  | rolling (binding : RollingBinding)
  deriving DecidableEq, Repr

def HistoryBinding.all : List HistoryBinding :=
  [.localHistory, .compressedHistory, .indexerHistory]

inductive Pointer (α : Type) where
  | null
  | storage
  | memory (read : ℕ → α)

def Pointer.deref {α : Type} (own : ℕ → α) : Pointer α → Pointer α
  | .storage => .memory own
  | pointer => pointer

def Pointer.read {α : Type} [Inhabited α] : Pointer α → ℕ → α
  | .memory read => read
  | _ => fun _ => default

def Pointer.isNull {α : Type} : Pointer α → Bool
  | .null => true
  | _ => false

structure LayerPlan where
  layerIndex : ℕ
  tensorScope : TensorScope
  attentionClass : AttentionClass
  compressionRatio : ℕ
  slidingWindow : ℕ
  kvHeads : ℕ
  headDimension : ℕ
  queryLoraRank : ℕ
  outputLoraRank : ℕ
  outputGroups : ℕ
  indexerHeadDimension : ℕ
  compressorRequired : Bool
  indexerRequired : Bool

structure RollingView where
  present : Bool
  schemaVersion : ℕ
  kind : RollingKind
  attentionClass : AttentionClass
  layerIndex : ℕ
  nextTokenPosition : ℕ
  ratio : ℕ
  headDimension : ℕ
  stateWidth : ℕ
  stateSlots : ℕ
  previousFill : ℕ
  currentFill : ℕ
  cursor : ℕ
  kvStateStride : ℕ
  scoreStateStride : ℕ
  kvStateExtent : ℕ
  scoreStateExtent : ℕ
  kvState : Pointer Scalar
  scoreState : Pointer Scalar
  overlap : Bool
  rotated : Bool
  attentionPlanIdentity : Identity

def RollingView.zero : RollingView where
  present := false
  schemaVersion := 0
  kind := .none
  attentionClass := .swa
  layerIndex := 0
  nextTokenPosition := 0
  ratio := 0
  headDimension := 0
  stateWidth := 0
  stateSlots := 0
  previousFill := 0
  currentFill := 0
  cursor := 0
  kvStateStride := 0
  scoreStateStride := 0
  kvStateExtent := 0
  scoreStateExtent := 0
  kvState := .null
  scoreState := .null
  overlap := false
  rotated := false
  attentionPlanIdentity := []

structure HistorySpan where
  count : ℕ
  stride : ℕ
  kv : Pointer Scalar
  positions : Pointer ℕ

structure HistoryView where
  tokenCount : ℕ
  history : HistoryBinding → HistorySpan
  rolling : RollingBinding → RollingView
  immutable : Bool

structure ComponentRecipe where
  schemaVersion : ℕ
  ordinal : ℕ
  binding : Binding
  capacity : ℕ
  valueWidth : ℕ
  rolling : RollingView

structure StateRecipe where
  schemaVersion : ℕ
  layerIndex : ℕ
  selectionKey : ℕ
  initialPosition : ℕ
  finalPosition : ℕ
  components : List ComponentRecipe
  attentionPlanIdentity : Identity
  identity : Identity

structure Publication where
  complete : Bool
  prefixAddressable : Bool
  deviceCompletionPending : Bool
  executionIdentity : Identity
  tokenIds : Option (ℕ → ℕ)
  layerIndex : ℕ
  tokenPosition : ℕ
  tokenCount : ℕ
  kvWidth : ℕ
  compressedCount : ℕ
  compressedStride : ℕ
  indexerCount : ℕ
  indexerStride : ℕ
  rawKv : Option (ℕ → Scalar)
  compressedKv : Option (ℕ → Scalar)
  indexerKv : Option (ℕ → Scalar)
  compressedPositions : Option (ℕ → ℕ)
  indexerPositions : Option (ℕ → ℕ)
  rollingCheckpointCount : ℕ
  rollingKvCheckpoints : RollingBinding → Option (ℕ → Scalar)
  rollingScoreCheckpoints : RollingBinding → Option (ℕ → Scalar)
  nextRollingState : RollingBinding → RollingView

inductive FailureCode where
  | invalidArgument
  | history
  | numeric
  | stateDelta
  | allocation
  | cancelled
  | cleanup
  | backend
  deriving DecidableEq, Repr

structure Failure where
  code : FailureCode
  layerIndex : ℕ
  expected : ℕ
  actual : ℕ
  reason : String

/-- A refused call: the error it sets, and the failure record it fills in. Some
paths set the error only and leave the caller's record as it was. -/
structure Refusal where
  status : Status
  site : String
  reason : String
  failure : Option Failure

def noLayer : ℕ := 2 ^ 64 - 1

def reject (code : FailureCode) (layerIndex expected actual : ℕ) (status : Status)
    (reason : String) : Refusal :=
  ⟨status, "yvex_attention", reason, some ⟨code, layerIndex, expected, actual, reason⟩⟩

structure PublicationSpan where
  values : Option (ℕ → Scalar)
  positions : Option (ℕ → ℕ)
  count : ℕ
  width : ℕ

def statePublicationHistory (publication : Publication) : HistoryBinding → PublicationSpan
  | .localHistory => ⟨publication.rawKv, none, publication.tokenCount, publication.kvWidth⟩
  | .compressedHistory => ⟨publication.compressedKv, publication.compressedPositions,
      publication.compressedCount, publication.compressedStride⟩
  | .indexerHistory => ⟨publication.indexerKv, publication.indexerPositions,
      publication.indexerCount, publication.indexerStride⟩

end Yvex.AttentionData
