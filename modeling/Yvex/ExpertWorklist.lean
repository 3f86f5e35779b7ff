import Yvex.BatchScheduler
import Yvex.CheckedArithmetic
import Yvex.CheckedSteps

/-!
# Expert worklists

The routed pairs of a batch are lowered to one list grouped by expert. The
caller supplies the arrays. Those of a bucket have `bucketCapacity` entries,
except that the offsets have one more for the closing offset. A write past the
end of an array is the fault `outside`.
-/

set_option autoImplicit false

namespace Yvex.ExpertWorklist

open AttentionData CheckedArithmetic CheckedSteps List
open BatchScheduler (ExecutionPhase)

inductive Fault where
  | outside
  | refused (status : Status) (reason : String)

inductive Implementation where
  | portableF32
  | deviceF32
  | deviceEncodedRow
  | deviceMatrixTile
  | count
  deriving DecidableEq

inductive Provenance where
  | singleRow
  | speculativeVerification
  | multiSession
  | prefill
  | compiledCompatible
  deriving DecidableEq

structure Source where
  executionGeneration : ℕ
  stateGeneration : ℕ
  identity : Identity

structure Row where
  sourceIndex : ℕ
  sourceRow : ℕ
  sequencePosition : ℕ
  candidateOrdinal : ℕ
  publicationOrdinal : ℕ
  candidatePresent : ℤ

structure Batch where
  schemaVersion : ℕ
  provenance : Provenance
  phase : ExecutionPhase
  rowCount : ℕ
  sourceCount : ℕ
  engineGeneration : ℕ
  sources : Option (ℕ → Source)
  rows : Option (ℕ → Row)
  executionProfileIdentity : Identity
  operationIdentity : Identity
  identity : Identity

structure Policy where
  schemaVersion : ℕ
  supportedWidthMask : ℕ
  matrixTileMinimum : ℕ
  rowImplementation : Implementation
  matrixImplementation : Implementation
  identity : Identity

structure Request where
  schemaVersion : ℕ
  batch : Batch
  policy : Policy
  expertCount : ℕ
  expertsPerRow : ℕ
  pairCount : ℕ
  selectedExperts : ℕ → ℕ
  routeWeights : ℕ → Scalar

structure Storage where
  bucketCapacity : ℕ
  pairCapacity : ℕ

@[ext] structure Entry where
  pair : ℕ
  row : ℕ
  destination : ℕ
  weight : Scalar

structure Bucket where
  expert : ℕ
  offset : ℕ
  population : ℕ

structure Worklist where
  schemaVersion : ℕ
  actualWidth : ℕ
  expertCount : ℕ
  pairCount : ℕ
  bucketCount : ℕ
  maximumBucketPopulation : ℕ
  admittedTileWidth : ℕ
  matrixTileEligiblePairs : ℕ
  narrowPairs : ℕ
  tailRows : ℕ
  expertIds : ℕ → ℕ
  bucketOffsets : ℕ → ℕ
  bucketPopulations : ℕ → ℕ
  entries : ℕ → Entry
  populationHistogram : ℕ → ℕ
  batchIdentity : Identity
  policyIdentity : Identity
  identity : Identity

structure Build where
  entries : List Entry
  buckets : List Bucket
  maximumBucketPopulation : ℕ
  populationHistogram : ℕ → ℕ
  matrixTileEligiblePairs : ℕ
  tailRows : ℕ

def Request.entry (q : Request) (pair : ℕ) : Entry :=
  ⟨pair, pair / q.expertsPerRow, pair, q.routeWeights pair⟩

def sourcesValid (b : Batch) (sources : ℕ → Source) (rows : ℕ → Row) : Prop :=
  b.sourceCount ≠ 0 ∧ b.sourceCount ≤ b.rowCount ∧
    (b.provenance = .multiSession → 2 ≤ b.sourceCount) ∧
    (b.provenance ≠ .multiSession → b.sourceCount = 1) ∧
    (∀ left < b.sourceCount, (sources left).executionGeneration ≠ 0 ∧
      hexValid (sources left).identity = true ∧ ∀ right < b.sourceCount, left < right →
        (sources left).identity ≠ (sources right).identity) ∧
    ∀ left < b.rowCount, (rows left).sourceIndex < b.sourceCount ∧
      ((rows left).candidatePresent = 0 → (rows left).candidateOrdinal = 0) ∧
      ∀ right < b.rowCount, left < right → ¬((rows left).sourceIndex = (rows right).sourceIndex ∧
        (rows left).sourceRow = (rows right).sourceRow)

instance (b : Batch) (sources : ℕ → Source) (rows : ℕ → Row) :
    Decidable (sourcesValid b sources rows) := by
  unfold sourcesValid
  infer_instance

def sourceFields (source : Source) : List HashField :=
  [.word source.executionGeneration, .word source.stateGeneration, .text source.identity]

def rowFields (row : Row) : List HashField :=
  [.word row.sourceIndex, .word row.sourceRow, .word row.sequencePosition,
    .word (row.candidatePresent % wordLimit).toNat, .word row.candidateOrdinal,
    .word row.publicationOrdinal]

def executionBatchSeal (sha : Sha256) (b : Batch) : Except Fault Identity := do
  let incomplete := .refused .invalidArg "execution batch identity or provenance is incomplete"
  let sources ← demand incomplete b.sources
  let rows ← demand incomplete b.rows
  ensure (b.schemaVersion = 2 ∧ b.rowCount ≠ 0 ∧ b.rowCount < 64 ∧
      (b.provenance = .singleRow → b.rowCount = 1) ∧
      (b.provenance = .speculativeVerification → b.phase = .verify) ∧
      (b.provenance = .multiSession → 2 ≤ b.rowCount) ∧
      (b.provenance = .prefill → b.phase = .prefill) ∧ b.engineGeneration ≠ 0 ∧
      sourcesValid b sources rows ∧ hexValid b.executionProfileIdentity = true ∧
      hexValid b.operationIdentity = true) incomplete
  demand (.refused .state "execution batch identity derivation failed") <| sha.digest <|
    [.text "yvex.execution-batch.v2".toList, .word b.schemaVersion, .word b.provenance.ctorIdx,
      .word b.phase.ctorIdx, .word b.rowCount, .word b.sourceCount, .word b.engineGeneration] ++
    (range b.sourceCount).flatMap (fun k => sourceFields (sources k)) ++
    (range b.rowCount).flatMap (fun k => rowFields (rows k)) ++
    [.text b.executionProfileIdentity, .text b.operationIdentity]

def expertWorklistPolicySeal (sha : Sha256) (p : Policy) : Except Fault Identity := do
  ensure (p.schemaVersion = 2 ∧ p.supportedWidthMask.testBit 1 = true ∧
      p.supportedWidthMask.testBit 0 = false ∧ p.supportedWidthMask >>> 63 = 0 ∧
      p.rowImplementation ≠ .count)
    (.refused .invalidArg "expert worklist width policy is incomplete")
  ensure ((p.matrixTileMinimum ≠ 0 ↔ p.matrixImplementation ≠ .count) ∧
      (p.matrixTileMinimum ≠ 0 → p.matrixTileMinimum < 63 ∧
        p.supportedWidthMask.testBit p.matrixTileMinimum = true ∧
        p.matrixImplementation = .deviceMatrixTile ∧ p.rowImplementation ≠ p.matrixImplementation))
    (.refused .invalidArg "expert matrix-tile width policy is inconsistent")
  demand (.refused .state "expert worklist policy identity derivation failed") <| sha.digest
    [.text "yvex.expert-worklist-policy.v2".toList, .word p.schemaVersion,
      .word p.supportedWidthMask, .word p.matrixTileMinimum, .word p.rowImplementation.ctorIdx,
      .word p.matrixImplementation.ctorIdx]

def sealedValidate (identity : Identity) (resealed : Except Fault Identity)
    (unavailable stale : String) : Except Fault Unit := do
  ensure (hexValid identity = true) (.refused .invalidArg unavailable)
  match resealed with
  -- The code of the error is returned. A request is checked without one, and its code is OK.
  | .error _ => return ()
  | .ok expected => ensure (identity = expected) (.refused .format stale)

/-- What cannot be sealed passes with any identity of the right form. -/
theorem sealedValidate_isOk {identity : Identity} {resealed : Except Fault Identity}
    {unavailable stale : String} :
    (sealedValidate identity resealed unavailable stale).isOk = true ↔
      hexValid identity = true ∧ ∀ expected, resealed = .ok expected → identity = expected := by
  have passes : ∀ r : Except Fault Unit, r.isOk = true ↔ r = .ok () := by
    rintro (_ | ⟨⟨⟩⟩) <;> simp [Except.isOk, Except.toBool]
  rw [passes, sealedValidate.eq_def, andThen_ok, ensure_ok]
  cases resealed with
  | error => simp [pure, Except.pure]
  | ok expected => simp [ensure_ok]

def executionBatchValidate (sha : Sha256) (b : Batch) : Except Fault Unit :=
  sealedValidate b.identity (executionBatchSeal sha b) "execution batch identity is unavailable"
    "execution batch identity is stale"

def expertWorklistPolicyValidate (sha : Sha256) (p : Policy) : Except Fault Unit :=
  sealedValidate p.identity (expertWorklistPolicySeal sha p)
    "expert worklist policy identity is unavailable" "expert worklist policy identity is stale"

def requestValid (sha : Sha256) (q : Request) (s : Storage) : Prop :=
  q.schemaVersion = 1 ∧ (executionBatchValidate sha q.batch).isOk = true ∧
    (expertWorklistPolicyValidate sha q.policy).isOk = true ∧
    0 < q.expertCount ∧ q.expertCount ≤ 256 ∧
    0 < q.expertsPerRow ∧ q.expertsPerRow ≤ q.expertCount ∧ q.batch.rowCount < 63 ∧
    q.policy.supportedWidthMask.testBit q.batch.rowCount = true ∧
    u64Mul q.batch.rowCount q.expertsPerRow = some q.pairCount ∧
    q.expertCount ≤ s.bucketCapacity ∧ q.pairCount ≤ s.pairCapacity

instance (sha : Sha256) (q : Request) (s : Storage) : Decidable (requestValid sha q s) := by
  unfold requestValid
  infer_instance

def maximumWidth (mask : ℕ) : ℕ := mask.log2

def emit (q : Request) (s : Storage) (expert : ℕ) (out : List Entry) (pair : ℕ) :
    Except Fault (List Entry) := do
  ensure (q.selectedExperts pair < q.expertCount ∧ isFinite (q.routeWeights pair) = true)
    (.refused .format "routed pair has an invalid expert or weight")
  if q.selectedExperts pair ≠ expert then return out
  ensure (out.length < s.pairCapacity) .outside
  return out ++ [q.entry pair]

def Build.close (b : Build) (q : Request) (expert : ℕ) (entries : List Entry)
    (population : ℕ) : Build :=
  -- A bucket for the `population` entries that end `entries`.
  let width := maximumWidth q.policy.supportedWidthMask
  let slot := min population 16
  let tile := 0 < q.policy.matrixTileMinimum ∧ q.policy.matrixTileMinimum ≤ population
  { entries
    buckets := b.buckets ++ [⟨expert, b.entries.length, population⟩]
    maximumBucketPopulation := max b.maximumBucketPopulation population
    populationHistogram :=
      Function.update b.populationHistogram slot (b.populationHistogram slot + 1)
    matrixTileEligiblePairs := b.matrixTileEligiblePairs + if tile then population else 0
    tailRows := b.tailRows +
      if tile ∧ population % width ≠ 0 then width - population % width else 0 }

def lowerExpert (q : Request) (s : Storage) (b : Build) (expert : ℕ) : Except Fault Build := do
  let entries ← (range' 0 q.pairCount).foldlM (emit q s expert) b.entries
  let population := entries.length - b.entries.length
  if population = 0 then return { b with entries }
  ensure (b.buckets.length < s.bucketCapacity) .outside
  return b.close q expert entries population

def worklistSeal (sha : Sha256) (q : Request) (w : Worklist) : Option Identity :=
  sha.digest
    ([.text "yvex.expert-worklist.v1".toList, .text w.batchIdentity, .text w.policyIdentity,
      .word w.actualWidth, .word w.expertCount, .word w.pairCount, .word w.bucketCount,
      .word w.maximumBucketPopulation] ++
    (range w.bucketCount).flatMap (fun k =>
      [.word (w.expertIds k), .word (w.bucketOffsets k), .word (w.bucketPopulations k)]) ++
    [.word (w.bucketOffsets w.bucketCount)] ++
    (range q.pairCount).flatMap fun p =>
      [.word (w.entries p).pair, .word (w.entries p).row, .word (w.entries p).destination,
        .word (w.entries p).weight.toNat])

def worklistOf (q : Request) (b : Build) : Worklist :=
  { schemaVersion := 1
    actualWidth := q.batch.rowCount
    expertCount := q.expertCount
    pairCount := q.pairCount
    bucketCount := b.buckets.length
    maximumBucketPopulation := b.maximumBucketPopulation
    admittedTileWidth := maximumWidth q.policy.supportedWidthMask
    matrixTileEligiblePairs := b.matrixTileEligiblePairs
    narrowPairs := q.pairCount - b.matrixTileEligiblePairs
    tailRows := b.tailRows
    expertIds := fun k => (b.buckets.map Bucket.expert).getD k 0
    bucketOffsets := fun k => (b.buckets.map Bucket.offset ++ [b.entries.length]).getD k 0
    bucketPopulations := fun k => (b.buckets.map Bucket.population).getD k 0
    entries := fun p => b.entries.getD p ⟨0, 0, 0, 0⟩
    populationHistogram := b.populationHistogram
    batchIdentity := q.batch.identity
    policyIdentity := q.policy.identity
    identity := [] }

def mapPosition (q : Request) (w : Worklist) (expert : ℕ) (seen : List ℕ) (position : ℕ) :
    Except Fault (List ℕ) := do
  let e := w.entries position
  ensure (e.pair < q.pairCount ∧ e.pair ∉ seen ∧ q.selectedExperts e.pair = expert ∧
      e.row = e.pair / q.expertsPerRow ∧ e.destination = e.pair ∧
      e.weight = q.routeWeights e.pair)
    (.refused .format "expert worklist pair mapping is not exact")
  return e.pair :: seen

def checkBucket (q : Request) (w : Worklist) (state : ℕ × List ℕ) (k : ℕ) :
    Except Fault (ℕ × List ℕ) := do
  let start := w.bucketOffsets k
  let stop := w.bucketOffsets (k + 1)
  ensure (w.expertIds k < q.expertCount ∧ (k = 0 ∨ w.expertIds (k - 1) < w.expertIds k) ∧
      start ≤ stop ∧ stop - start = w.bucketPopulations k ∧ w.bucketPopulations k ≠ 0)
    (.refused .format "expert worklist bucket is malformed")
  let seen ← (range' start (stop - start)).foldlM (mapPosition q w (w.expertIds k)) state.2
  return (state.1 + w.bucketPopulations k, seen)

def validate (q : Request) (w : Worklist) (allocated : Bool) : Except Fault Unit := do
  ensure (w.schemaVersion = 1 ∧ hexValid w.identity = true ∧
      w.batchIdentity = q.batch.identity ∧ w.policyIdentity = q.policy.identity ∧
      w.actualWidth = q.batch.rowCount ∧ w.bucketCount ≠ 0 ∧ w.bucketCount ≤ q.expertCount ∧
      w.pairCount = q.pairCount ∧ w.bucketOffsets 0 = 0 ∧
      w.bucketOffsets w.bucketCount = q.pairCount)
    (.refused .invalidArg "expert worklist structure or identity is invalid")
  ensure (allocated = true) (.refused .nomem "expert worklist validation allocation failed")
  let state ← (range' 0 w.bucketCount).foldlM (checkBucket q w) (0, [])
  ensure (state.1 = q.pairCount)
    (.refused .format "expert worklist population sum is incomplete")

def build (sha : Sha256) (q : Request) (s : Storage) (allocated : Bool) :
    Except Fault Worklist := do
  ensure (requestValid sha q s)
    (.refused .invalidArg "expert worklist request or storage is invalid")
  let b ← (range' 0 q.expertCount).foldlM (lowerExpert q s) ⟨[], [], 0, fun _ => 0, 0, 0⟩
  ensure (b.buckets.length < s.bucketCapacity + 1) .outside
  ensure (b.entries.length = q.pairCount)
    (.refused .state "expert worklist did not emit every routed pair")
  let identity ← demand (.refused .state "expert worklist identity derivation failed")
    (worklistSeal sha q (worklistOf q b))
  let w := { worklistOf q b with identity }
  validate q w allocated
  return w

def Yields {α : Type} (r : Except Fault α) (P : α → Prop) : Prop :=
  r ≠ .error .outside ∧ ∀ v, r = .ok v → P v

section

variable {α β : Type} {P : α → Prop} {Q : β → Prop} {r : Except Fault α} {f : α → Except Fault β}

theorem Yields.bind (h : Yields r P) (hf : ∀ v, P v → Yields (f v) Q) : Yields (r >>= f) Q := by
  cases r with
  | error => exact ⟨fun he => h.1 (by cases he; rfl), nofun⟩
  | ok v => exact hf v (h.2 v rfl)

theorem yields_pure {v : α} (h : P v) : Yields (pure v) P := ⟨nofun, by rintro _ ⟨⟩; exact h⟩

theorem yields_ensure {c : Prop} [Decidable c] {e : Fault} (he : e = .outside → c) :
    Yields (ensure c e) fun _ => c := by
  unfold ensure
  split_ifs with h
  · exact yields_pure h
  · exact ⟨fun hx => h (he (by cases hx; rfl)), nofun⟩

variable {g : α → ℕ → Except Fault α} {I : ℕ → α → Prop}

theorem yields_range (n : ℕ) {i : ℕ} {a : α}
    (ha : I i a) (hg : ∀ j b, i ≤ j → j < i + n → I j b → Yields (g b j) (I (j + 1))) :
    Yields ((range' i n).foldlM g a) (I (i + n)) := by
  induction n generalizing i a with
  | zero => exact yields_pure ha
  | succ n ih =>
    refine (hg i a le_rfl (by omega) ha).bind fun b hb => ?_
    rw [Nat.add_comm n, ← Nat.add_assoc]
    exact ih hb fun j c hj hn => hg j c (by omega) (by omega)

theorem yields_each {R : ℕ → Prop} (n : ℕ) {i : ℕ}
    {a : α} (ha : I i a) (hg : ∀ j b, I j b → Yields (g b j) fun c => I (j + 1) c ∧ R j) :
    Yields ((range' i n).foldlM g a) fun c => I (i + n) c ∧ ∀ j, i ≤ j → j < i + n → R j := by
  refine yields_range (I := fun k c => I k c ∧ ∀ j, i ≤ j → j < k → R j) n ⟨ha, by omega⟩ ?_
  intro k b _ _ hk
  obtain ⟨hs, hv⟩ := hg k b hk.1
  refine ⟨hs, fun v he => ⟨(hv v he).1, fun j hij hj => ?_⟩⟩
  obtain hj | rfl : j < k ∨ j = k := by omega
  · exact hk.2 j hij hj
  · exact (hv v he).2

end

/-- The order of a stable grouping: by expert, and by source within an expert. -/
def Before (q : Request) (a b : ℕ) : Prop :=
  q.selectedExperts a < q.selectedExperts b ∨ q.selectedExperts a = q.selectedExperts b ∧ a < b

def Stable (q : Request) (w : Worklist) : Prop :=
  ∀ i j, i < j → j < q.pairCount → Before q (w.entries i).pair (w.entries j).pair

structure BucketRight (q : Request) (w : Worklist) (k : ℕ) : Prop where
  bounded : w.expertIds k < q.expertCount
  ascending : k = 0 ∨ w.expertIds (k - 1) < w.expertIds k
  populated : 0 < w.bucketPopulations k
  spans : w.bucketOffsets k + w.bucketPopulations k = w.bucketOffsets (k + 1)
  members : ∀ p, w.bucketOffsets k ≤ p → p < w.bucketOffsets (k + 1) →
    q.selectedExperts (w.entries p).pair = w.expertIds k

structure Grouped (q : Request) (w : Worklist) : Prop where
  opening : w.bucketOffsets 0 = 0
  closing : w.bucketOffsets w.bucketCount = q.pairCount
  buckets : ∀ k < w.bucketCount, BucketRight q w k
  exact : ∀ p < q.pairCount, w.entries p = q.entry (w.entries p).pair
  once : ((range q.pairCount).map fun p => (w.entries p).pair).Perm (range q.pairCount)

def Emitted (q : Request) (expert i : ℕ) (out : List Entry) : Prop :=
  ∃ xs : List ℕ, out = xs.map q.entry ∧ xs.Pairwise (Before q) ∧ ∀ x ∈ xs, x < q.pairCount ∧
    (q.selectedExperts x < expert ∨ q.selectedExperts x = expert ∧ x < i)

section

variable {q : Request} {s : Storage} {w : Worklist} {ex i : ℕ} {out : List Entry}

theorem Emitted.skip {e j : ℕ} (h : Emitted q ex i out)
    (hle : ∀ x < q.pairCount, q.selectedExperts x < ex ∨ q.selectedExperts x = ex ∧ x < i →
      q.selectedExperts x < e ∨ q.selectedExperts x = e ∧ x < j) : Emitted q e j out := by
  obtain ⟨xs, rfl, hs, hx⟩ := h
  exact ⟨xs, rfl, hs, fun x hm => ⟨(hx x hm).1, hle x (hx x hm).1 (hx x hm).2⟩⟩

theorem Emitted.push (h : Emitted q ex i out) (hi : i < q.pairCount)
    (he : q.selectedExperts i = ex) : Emitted q ex (i + 1) (out ++ [q.entry i]) := by
  obtain ⟨xs, rfl, hs, hx⟩ := h
  refine ⟨xs ++ [i], by simp, ?_, ?_⟩
  · rw [pairwise_append]
    refine ⟨hs, pairwise_singleton .., fun x hm y hy => ?_⟩
    obtain rfl := mem_singleton.1 hy
    rw [Before, he]
    exact (hx x hm).2
  · intro x hm
    obtain hm | rfl := by simpa using hm
    · exact ⟨(hx x hm).1, (hx x hm).2.imp_right fun h => ⟨h.1, by omega⟩⟩
    · exact ⟨hi, .inr ⟨he, by omega⟩⟩

theorem Emitted.length_le (h : Emitted q ex i out) : out.length ≤ q.pairCount := by
  obtain ⟨xs, rfl, hs, hx⟩ := h
  have hn : xs.Nodup := hs.imp fun h he => by
    subst he
    exact absurd h (by simp [Before])
  simpa using (hn.subperm fun x hm => mem_range.2 (hx x hm).1).length_le

theorem emit_yields (hc : q.pairCount ≤ s.pairCapacity) (hi : i < q.pairCount)
    (h : Emitted q ex i out) :
    Yields (emit q s ex out i) (Emitted q ex (i + 1)) := by
  refine (yields_ensure nofun).bind fun _ _ => ?_
  by_cases he : q.selectedExperts i = ex
  · have hp := h.push hi he
    rw [if_neg (by simp [he])]
    refine (yields_ensure fun _ => ?_).bind fun _ _ => yields_pure hp
    have := hp.length_le
    simp only [length_append, length_singleton] at this
    omega
  · rw [if_pos he]
    exact yields_pure (h.skip fun x hx => by omega)

theorem lowerExpert_yields {b : Build} (hc : q.pairCount ≤ s.pairCapacity)
    (hb : q.expertCount ≤ s.bucketCapacity) (he : ex < q.expertCount)
    (h : Emitted q ex 0 b.entries ∧ b.buckets.length ≤ ex) :
    Yields (lowerExpert q s b ex) fun b =>
      Emitted q (ex + 1) 0 b.entries ∧ b.buckets.length ≤ ex + 1 := by
  refine (yields_range _ h.1 fun j out _ hj => emit_yields hc (by omega)).bind fun out ho => ?_
  have hn : Emitted q (ex + 1) 0 out := ho.skip fun x hx => by omega
  dsimp only
  split_ifs
  · exact yields_pure ⟨hn, h.2.trans ex.le_succ⟩
  · refine (yields_ensure fun _ => by omega).bind fun _ _ => yields_pure ⟨hn, ?_⟩
    simp only [Build.close, length_append, length_singleton]
    omega

structure Mapped (q : Request) (w : Worklist) (i : ℕ) (seen : List ℕ) : Prop where
  seen_eq : seen = ((range i).map fun p => (w.entries p).pair).reverse
  nodup : seen.Nodup
  bounded : ∀ x ∈ seen, x < q.pairCount
  exact : ∀ p < i, w.entries p = q.entry (w.entries p).pair

theorem mapPosition_yields {se : List ℕ} (h : Mapped q w i se) :
    Yields (mapPosition q w ex se i) fun se =>
      Mapped q w (i + 1) se ∧ q.selectedExperts (w.entries i).pair = ex := by
  refine (yields_ensure nofun).bind fun _ hc => yields_pure ⟨⟨?_, ?_, ?_, ?_⟩, hc.2.2.1⟩
  · simp [range_succ, h.seen_eq]
  · exact nodup_cons.2 ⟨hc.2.1, h.nodup⟩
  · exact forall_mem_cons.2 ⟨hc.1, h.bounded⟩
  · intro p hp
    obtain hp | rfl : p < i ∨ p = i := by omega
    · exact h.exact p hp
    · obtain ⟨-, -, -, hr, hd, hw⟩ := hc
      exact Entry.ext rfl hr hd hw

theorem checkBucket_yields {st : ℕ × List ℕ} {k : ℕ} (h : Mapped q w (w.bucketOffsets k) st.2) :
    Yields (checkBucket q w st k) fun st =>
      Mapped q w (w.bucketOffsets (k + 1)) st.2 ∧ BucketRight q w k := by
  refine (yields_ensure nofun).bind fun _ hc => ?_
  obtain ⟨hx, ha, hle, hp, hz⟩ := hc
  refine (yields_each _ h fun i se hm => mapPosition_yields hm).bind ?_
  rw [show w.bucketOffsets k + (w.bucketOffsets (k + 1) - w.bucketOffsets k) =
    w.bucketOffsets (k + 1) by omega]
  exact fun se hm => yields_pure ⟨hm.1, hx, ha, by omega, by omega, hm.2⟩

/-- What the validator accepts is grouped by expert. -/
theorem validate_yields (a : Bool) : Yields (validate q w a) fun _ => Grouped q w := by
  refine (yields_ensure nofun).bind fun _ hc => (yields_ensure nofun).bind fun _ _ => ?_
  obtain ⟨-, -, -, -, -, -, -, -, ho, hcl⟩ := hc
  refine (yields_each _ (I := fun k st => Mapped q w (w.bucketOffsets k) st.2) ?_
    fun k st hm => checkBucket_yields hm).bind ?_
  · simpa only [ho] using ⟨rfl, nodup_nil, nofun, nofun⟩
  · rw [zero_add, hcl]
    rintro st ⟨hm, hb⟩
    refine ⟨(yields_ensure nofun).1, fun _ _ => ⟨ho, hcl, fun k hk => hb k k.zero_le (by omega),
      hm.exact, ?_⟩⟩
    have hs := hm.seen_eq ▸ hm.nodup.subperm fun x hx => mem_range.2 (hm.bounded x hx)
    exact (reverse_perm _).symm.trans (hs.perm_of_length_le (by simp))

/-- A worklist that is built is grouped, stable and passes its validator. -/
theorem build_yields (sha : Sha256) (a : Bool) : Yields (build sha q s a) fun w =>
      Stable q w ∧ Grouped q w ∧ validate q w a = .ok () := by
  refine (yields_ensure nofun).bind fun _ hv => ?_
  obtain ⟨-, -, -, -, -, -, -, -, -, -, hb, hc⟩ := hv
  refine (yields_range (I := fun e b => Emitted q e 0 b.entries ∧ b.buckets.length ≤ e) _
    ⟨⟨[], rfl, .nil, nofun⟩, le_rfl⟩ fun e b _ he => lowerExpert_yields hc hb (by omega)).bind ?_
  rintro b ⟨⟨xs, hx, hs, -⟩, hl⟩
  refine (yields_ensure fun _ => by omega).bind fun _ _ => ?_
  refine (yields_ensure nofun).bind fun _ hn => ?_
  cases worklistSeal sha q (worklistOf q b) with
  | none => exact ⟨nofun, nofun⟩
  | some identity =>
    set w := { worklistOf q b with identity }
    have hw : Yields (validate q w a) fun _ => Grouped q w ∧ validate q w a = .ok () :=
      ⟨(validate_yields a).1, fun u hu => ⟨(validate_yields a).2 u hu, hu⟩⟩
    refine hw.bind fun _ hu => yields_pure ⟨fun i j hij hj => ?_, hu⟩
    have hp (k : ℕ) (hk : k < xs.length) : (w.entries k).pair = xs[k] := by
      simp [w, worklistOf, hx, hk, Request.entry]
    rw [hx, length_map] at hn
    rw [hp i (by omega), hp j (by omega)]
    exact pairwise_iff_getElem.1 hs i j _ _ hij

end

/-- A build never writes outside the caller's arrays. What it returns is a
stable grouping that the validator accepts, and the validator accepts groupings
only, whatever the order of the sources within one expert. -/
theorem worklist_groups (sha : Sha256) (q : Request) (s : Storage) (allocated : Bool) :
    build sha q s allocated ≠ .error .outside ∧
      (∀ w, build sha q s allocated = .ok w →
        Stable q w ∧ Grouped q w ∧ validate q w allocated = .ok ()) ∧
      ∀ w, validate q w allocated = .ok () → Grouped q w :=
  ⟨(build_yields sha allocated).1, (build_yields sha allocated).2, fun _ =>
    (validate_yields allocated).2 ()⟩

def sampleIdentity : Identity := replicate 64 'a'

def twoRowBatch : Batch :=
  ⟨2, .prefill, .prefill, 2, 1, 1, some fun _ => ⟨1, 0, sampleIdentity⟩,
    some fun row => ⟨0, row, row, 0, row, 0⟩, sampleIdentity, sampleIdentity, sampleIdentity⟩

def twoRows : Request :=
  ⟨1, twoRowBatch, ⟨2, 6, 0, .deviceF32, .count, sampleIdentity⟩, 2, 2, 4,
    fun pair => if pair < 2 then 1 - pair else pair % 2, fun _ => 0⟩

def swapped : Worklist :=
  { worklistOf twoRows
      ⟨[twoRows.entry 2, twoRows.entry 1, twoRows.entry 0, twoRows.entry 3],
        [⟨0, 0, 2⟩, ⟨1, 2, 2⟩], 2, fun _ => 0, 0, 0⟩ with
    identity := sampleIdentity }

theorem swapped_accepted : validate twoRows swapped true = .ok () ∧ ¬ Stable twoRows swapped :=
  ⟨rfl, fun h => absurd (h 0 1 one_pos (by decide)) (by simp [Before]; decide)⟩

theorem twoRows_build : ∃ w, build fixedDigest twoRows ⟨2, 4⟩ true = .ok w ∧
    executionBatchSeal fixedDigest twoRows.batch = .ok twoRows.batch.identity ∧
    (range 4).map (fun p => (w.entries p).pair) = [1, 2, 0, 3] ∧
    Stable twoRows w ∧ Grouped twoRows w :=
  ⟨_, rfl, rfl, rfl, ((worklist_groups fixedDigest twoRows ⟨2, 4⟩ true).2.1 _ rfl).imp_right
    And.left⟩

end Yvex.ExpertWorklist
