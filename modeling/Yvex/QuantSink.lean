import Yvex.AttentionData
import Yvex.CheckedArithmetic

/-!
# Digest sink

The sink that hashes the encoded bytes of each terminal. A terminal's digest is made
when its bytes have been delivered exactly; the aggregate identities follow the order
of the terminals. Each call is one locked section.
-/

set_option autoImplicit false

namespace Yvex.QuantSink

open AttentionData CheckedArithmetic

structure QuantDecision where
  -- The part of a decision that the sinks read. The inputs are the lengths of the source
  -- ranges of the operation, where it has any; an input without a range is none.
  qtype : ℕ
  encodedBytes : ℕ
  decisionIdentity : Identity
  inputs : List (Option ℕ)

structure QuantPlan where
  decisions : List QuantDecision
  profileIdentity : Identity
  payloadIdentity : Identity

inductive DigestState where
  | empty
  | active
  | committed
  | aborted
  deriving DecidableEq

structure DigestRecord where
  -- The hash is represented by the bytes it has been updated with.
  state : DigestState
  qtype : ℕ
  expectedBytes : ℕ
  deliveredBytes : ℕ
  chunks : ℕ
  hash : List UInt8
  digest : Identity

structure DigestSink where
  records : ℕ → DigestRecord
  committedTerminals : ℕ
  abortedTerminals : ℕ
  outputChunks : ℕ
  encodedBytes : ℕ
  qtypeBytes : ℕ → ℕ
  executionIdentity : Identity
  payloadByteIdentity : Identity
  finalized : Bool

def qtypeMax : ℕ := 42

def hashLimit : ℕ := ullongMax / 8

def DigestRecord.blank : DigestRecord := ⟨.empty, 0, 0, 0, 0, [], []⟩

def digestSinkCreate : DigestSink where
  records _ := .blank
  committedTerminals := 0
  abortedTerminals := 0
  outputChunks := 0
  encodedBytes := 0
  qtypeBytes _ := 0
  executionIdentity := []
  payloadByteIdentity := []
  finalized := false

section Calls

variable (plan : QuantPlan) (sha : Sha256) (sink : DigestSink)

def DigestSink.setRecord (ordinal : ℕ) (record : DigestRecord) : DigestSink :=
  { sink with records := Function.update sink.records ordinal record }

def digestBegin (ordinal : ℕ) : DigestSink × Bool :=
  match plan.decisions[ordinal]? with
  | none => (sink, true)
  | some decision =>
    let record := sink.records ordinal
    if sink.finalized = true ∨ record.state ≠ .empty ∨ qtypeMax < decision.qtype then (sink, true)
    else (sink.setRecord ordinal { record with
      state := .active
      qtype := decision.qtype
      expectedBytes := decision.encodedBytes
      hash := [] }, false)

def digestChunk (ordinal outputOffset : ℕ) (bytes : List UInt8) : DigestSink × Bool :=
  let record := sink.records ordinal
  if plan.decisions.length ≤ ordinal ∨ bytes = [] ∨ sink.finalized = true ∨
      record.state ≠ .active ∨ outputOffset ≠ record.deliveredBytes ∨
      ullongMax < record.deliveredBytes + bytes.length ∨ record.chunks = ullongMax ∨
      record.expectedBytes < record.deliveredBytes + bytes.length ∨
      hashLimit < record.hash.length + bytes.length then (sink, true)
  else (sink.setRecord ordinal { record with
    deliveredBytes := record.deliveredBytes + bytes.length
    chunks := record.chunks + 1
    hash := record.hash ++ bytes }, false)

def digestCommit (ordinal deliveredBytes : ℕ) : DigestSink × Bool :=
  let record := sink.records ordinal
  if plan.decisions.length ≤ ordinal ∨ sink.finalized = true ∨ record.state ≠ .active ∨
      deliveredBytes ≠ record.deliveredBytes ∨ deliveredBytes ≠ record.expectedBytes ∨
      sink.committedTerminals = ullongMax ∨ ullongMax < sink.outputChunks + record.chunks ∨
      ullongMax < sink.encodedBytes + deliveredBytes ∨
      ullongMax < sink.qtypeBytes record.qtype + deliveredBytes then (sink, true)
  else match sha.digest [.bytes record.hash] with
    | none => (sink, true)
    | some digest =>
      ({ sink.setRecord ordinal { record with state := .committed, digest := digest } with
        committedTerminals := sink.committedTerminals + 1
        outputChunks := sink.outputChunks + record.chunks
        encodedBytes := sink.encodedBytes + deliveredBytes
        qtypeBytes := Function.update sink.qtypeBytes record.qtype
          (sink.qtypeBytes record.qtype + deliveredBytes) }, false)

def digestAbort (ordinal : ℕ) : DigestSink :=
  let record := sink.records ordinal
  if plan.decisions.length ≤ ordinal ∨ (record.state ≠ .active ∧ record.state ≠ .empty) then sink
  else { sink.setRecord ordinal { record with state := .aborted, hash := [] } with
    abortedTerminals := if sink.abortedTerminals = ullongMax then ullongMax
      else sink.abortedTerminals + 1 }

def executionFields (ordinal : ℕ) (decision : QuantDecision) : List HashField :=
  let record := sink.records ordinal
  [.word ordinal, .text decision.decisionIdentity, .word record.deliveredBytes,
    .text record.digest]

def payloadFields (ordinal : ℕ) (decision : QuantDecision) : List HashField :=
  let record := sink.records ordinal
  [.word ordinal, .word decision.qtype, .word record.deliveredBytes, .text record.digest]

def digestSinkFinalize : Option DigestSink :=
  let rows := plan.decisions.zipIdx
  if sink.finalized = true ∨ sink.committedTerminals ≠ plan.decisions.length ∨
      sink.abortedTerminals ≠ 0 ∨
      ∃ row ∈ rows, (sink.records row.2).state ≠ .committed then none
  else do
    let execution ← sha.digest ([.text "yvex.quant.execution.v1".toList,
      .text plan.profileIdentity, .text plan.payloadIdentity, .word 1,
      .word plan.decisions.length] ++ rows.flatMap fun row => executionFields sink row.2 row.1)
    let payload ← sha.digest ([.text "yvex.quant.payload.bytes.v1".toList,
      .word plan.decisions.length] ++ rows.flatMap fun row => payloadFields sink row.2 row.1)
    return { sink with
      executionIdentity := execution
      payloadByteIdentity := payload
      finalized := true }

end Calls

variable {plan : QuantPlan} {sha : Sha256} {sink : DigestSink}

structure Hashing (plan : QuantPlan) (sink : DigestSink) (ordinal : ℕ) (bytes : List UInt8) :
    Prop where
  active : (sink.records ordinal).state = .active
  hash : (sink.records ordinal).hash = bytes
  delivered : (sink.records ordinal).deliveredBytes = bytes.length
  expected : ∃ decision, plan.decisions[ordinal]? = some decision ∧
    (sink.records ordinal).expectedBytes = decision.encodedBytes

structure Digested (sha : Sha256) (sink : DigestSink) (ordinal : ℕ) (bytes : List UInt8) :
    Prop where
  committed : (sink.records ordinal).state = .committed
  digest : sha.digest [.bytes bytes] = some (sink.records ordinal).digest
  delivered : (sink.records ordinal).deliveredBytes = bytes.length

def Untouched (sink : DigestSink) (ordinal : ℕ) : Prop :=
  (sink.records ordinal).state = .aborted ∨
    (sink.records ordinal).state = .empty ∧ (sink.records ordinal).deliveredBytes = 0

def Tracks (plan : QuantPlan) (sink : DigestSink) (ordinal : ℕ) (bytes : List UInt8) : Prop :=
  (sink.records ordinal).state = .aborted ∨ Hashing plan sink ordinal bytes

section Records

variable {other : DigestSink} {k : ℕ} {bs : List UInt8}

theorem Untouched.congr (h : Untouched sink k)
    (hs : other.records k = sink.records k) : Untouched other k := by
  unfold Untouched
  rw [hs]
  exact h

theorem Tracks.congr (h : Tracks plan sink k bs)
    (hs : other.records k = sink.records k) : Tracks plan other k bs := by
  rcases h with hab | ⟨ha, hh, hdl, hex⟩
  · rw [← hs] at hab
    exact .inl hab
  · rw [← hs] at ha hh hdl hex
    exact .inr ⟨ha, hh, hdl, hex⟩

theorem Digested.congr (h : Digested sha sink k bs)
    (hs : other.records k = sink.records k) : Digested sha other k bs := by
  obtain ⟨hcm, digest, hdl⟩ := h
  rw [← hs] at hcm digest hdl
  exact ⟨hcm, digest, hdl⟩

theorem setRecord_same (r : DigestRecord) : (sink.setRecord k r).records k = r :=
  Function.update_self ..

variable {p : ℕ}

theorem setRecord_other (r : DigestRecord) (hap : p ≠ k) :
    (sink.setRecord k r).records p = sink.records p :=
  Function.update_of_ne hap ..

theorem digestBegin_apart (hap : p ≠ k) :
    (digestBegin plan sink k).1.records p = sink.records p := by
  unfold digestBegin
  cases plan.decisions[k]? with
  | none => rfl
  | some =>
    dsimp only
    split_ifs
    · rfl
    · exact setRecord_other _ hap

theorem digestChunk_apart {off : ℕ} (hap : p ≠ k) : (digestChunk plan sink k off bs).1.records p =
      sink.records p := by
  unfold digestChunk
  dsimp only
  split_ifs
  · rfl
  · exact setRecord_other _ hap

theorem digestCommit_apart {db : ℕ} (hap : p ≠ k) :
    (digestCommit plan sha sink k db).1.records p = sink.records p := by
  unfold digestCommit
  dsimp only
  split_ifs
  · rfl
  · cases sha.digest [.bytes (sink.records k).hash] with
    | none => rfl
    | some => exact setRecord_other _ hap

theorem digestAbort_apart (hap : p ≠ k) : (digestAbort plan sink k).records p = sink.records p := by
  unfold digestAbort
  dsimp only
  split_ifs
  · rfl
  all_goals exact setRecord_other _ hap

theorem digestBegin_accepts (hut : Untouched sink k) (ha : (digestBegin plan sink k).2 = false) :
    Tracks plan (digestBegin plan sink k).1 k [] := by
  unfold digestBegin at ha ⊢
  cases hf : plan.decisions[k]? with
  | none =>
    rw [hf] at ha
    cases ha
  | some d =>
    rw [hf] at ha
    dsimp only at ha ⊢
    split_ifs at ha ⊢ with hr
    · cases hut with
      | inl hab =>
        push Not at hr
        rw [hr.2.1] at hab
        cases hab
      | inr hfr =>
        right
        constructor
        · rw [setRecord_same]
        · rw [setRecord_same]
        · rw [setRecord_same]
          exact hfr.2
        · rw [setRecord_same]
          exact ⟨d, hf, rfl⟩

theorem digestChunk_accepts {c : List UInt8} {off : ℕ} (ht : Tracks plan sink k bs)
    (ha : (digestChunk plan sink k off c).2 = false) :
    Tracks plan (digestChunk plan sink k off c).1 k (bs ++ c) := by
  unfold digestChunk at ha ⊢
  dsimp only at ha ⊢
  split_ifs at ha ⊢ with hr
  push Not at hr
  obtain ⟨-, -, -, hac, -, -, -, -, -⟩ := hr
  rcases ht with hab | ⟨-, hash, hdl, hex⟩
  · rw [hab] at hac
    cases hac
  right
  constructor
  · rw [setRecord_same]
    exact hac
  · rw [setRecord_same]
    rw [hash]
  · rw [setRecord_same]
    rw [hdl, List.length_append]
  · rw [setRecord_same]
    exact hex

/-- A committed terminal is hashed over exactly the bytes that were delivered. -/
theorem digestCommit_accepts {db : ℕ} (ht : Tracks plan sink k bs)
    (ha : (digestCommit plan sha sink k db).2 = false) :
    Digested sha (digestCommit plan sha sink k db).1 k bs := by
  unfold digestCommit at ha ⊢
  dsimp only at ha ⊢
  split_ifs at ha ⊢ with hr
  push Not at hr
  obtain ⟨-, -, hac, -⟩ := hr
  rcases ht with hab | ⟨-, hash, hdl, -⟩
  · rw [hab] at hac
    cases hac
  cases found : sha.digest [.bytes (sink.records k).hash] with
  | none =>
    rw [found] at ha
    cases ha
  | some =>
    have hm : ∀ record : DigestRecord, (sink.setRecord k record).records k =
        record := fun record => setRecord_same record
    constructor
    · rw [hm]
    · rw [hm, ← hash]
      exact found
    · rw [hm]
      exact hdl

theorem digestAbort_state : (digestAbort plan sink k).records k = sink.records k ∨
      ((digestAbort plan sink k).records k).state = .aborted := by
  unfold digestAbort
  dsimp only
  split_ifs
  · exact Or.inl rfl
  all_goals
    right
    rw [setRecord_same]

theorem Untouched.abort (h : Untouched sink k) (p : ℕ) : Untouched (digestAbort plan sink p) k := by
  by_cases hs : k = p
  · subst hs
    rcases (digestAbort_state : _ ∨ ((digestAbort plan sink k).records k).state = _) with kept | hab
    · exact h.congr kept
    · exact Or.inl hab
  · exact h.congr (digestAbort_apart hs)

theorem Tracks.abort (h : Tracks plan sink k bs) (p : ℕ) :
    Tracks plan (digestAbort plan sink p) k bs := by
  by_cases hs : k = p
  · subst hs
    rcases (digestAbort_state : _ ∨ ((digestAbort plan sink k).records k).state = _) with kept | hab
    · exact h.congr kept
    · exact Or.inl hab
  · exact h.congr (digestAbort_apart hs)

theorem Digested.abort (h : Digested sha sink k bs) (p : ℕ) :
    Digested sha (digestAbort plan sink p) k bs := by
  by_cases hs : k = p
  · subst hs
    apply h.congr
    unfold digestAbort
    rw [if_pos (Or.inr (by rw [h.committed]; decide))]
  · exact h.congr (digestAbort_apart hs)

theorem finalize_records (d : digestSinkFinalize plan sha sink = some other) :
    other.records = sink.records := by
  unfold digestSinkFinalize at d
  dsimp only at d
  split_ifs at d
  simp only [Option.bind_eq_bind, Option.bind_eq_some_iff] at d
  obtain ⟨e, -, p, -, heq⟩ := d
  cases heq
  rfl

end Records

end Yvex.QuantSink
