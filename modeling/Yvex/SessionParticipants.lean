import Yvex.SessionCommit

/-!
# The participants of a finish

A state owner or a sequence state with an active transaction becomes ready when
it is prepared, and settled when it is published or its abort is accepted.
Nothing another participant does reaches it.
-/

set_option autoImplicit false

namespace Yvex.Provider

open AttentionData RefusableStep Outcome

theorem preflightLayer_transaction (i : ℕ) (st : AttentionState) :
    (preflightLayer i st).state.transaction = st.transaction := by
  unfold preflightLayer
  dsimp only
  split
  · rfl
  split
  · rfl
  · rw [state_map]
    rfl

theorem stateCancelCheck_transaction (env : Environment) (c : Option Cancellation)
    (l : ℕ) (r : String) (st : AttentionState) :
    (stateCancelCheck env c l r st).state.transaction =
      st.transaction := by
  unfold stateCancelCheck
  split
  · rfl
  split
  · rfl
  · split
    · split <;> rfl
    · rfl

theorem transactionResult_active (s : Step) :
    (transactionResult s).state.transaction.active = s.state.transaction.active := by
  cases s with
  | done => rfl
  | refused =>
    simp only [transactionResult, state, AttentionState.failIfActive]
    split <;> rfl

theorem statePreparePublish_active (sha : Sha256) (env : Environment) (st : AttentionState) :
    (statePreparePublish sha env st).state.transaction.active = st.transaction.active := by
  unfold statePreparePublish stateEnter
  split
  · rw [transactionResult_active]
    refine andThen_preserves
      (P := fun t : AttentionState => t.transaction.active = st.transaction.active)
      (forEach_preserves
        (P := fun t : AttentionState => t.transaction.active = st.transaction.active)
        (fun i _ t ht => by rw [preflightLayer_transaction]; exact ht) rfl) fun t ht => ?_
    split
    · exact ht
    split
    · exact ht
    split
    · exact ht
    refine andThen_preserves
      (P := fun u : AttentionState => u.transaction.active = st.transaction.active)
      ?_ fun u hu => hu
    rw [stateCancelCheck_transaction]
    exact ht
  · rfl

theorem stateAbort_settled {env : Environment} {st : AttentionState}
    (ha : st.transaction.active = true) (d : (stateAbort env st).succeeded = true) :
    (stateAbort env st).state.transaction = .zero := by
  unfold stateAbort at d ⊢
  split
  · rename_i hb
    rw [if_pos hb] at d
    simp at d
  rename_i hf
  rw [if_neg hf] at d
  have hl : (st.meet env).transaction.active = true := ha
  simp only [hl] at d ⊢
  simp only [Bool.not_true, Bool.false_eq_true, if_false] at d ⊢
  split
  · rename_i ho
    rw [ho] at d
    simp at d
  · rfl

theorem transactionResult_succeeded (s : Step) : (transactionResult s).succeeded = s.succeeded := by
  cases s <;> rfl

theorem transactionResult_state_of_succeeded {s : Step} (h : s.succeeded = true) :
    (transactionResult s).state = s.state := by
  cases s with
  | done => rfl
  | refused => simp at h

theorem statePreparePublish_prepared {sha : Sha256} {env : Environment} {st : AttentionState}
    (d : (statePreparePublish sha env st).succeeded = true) :
    (statePreparePublish sha env st).state.transaction.publicationPrepared = true := by
  unfold statePreparePublish stateEnter at d ⊢
  split
  · rename_i hl
    rw [if_pos hl, transactionResult_succeeded] at d
    rw [transactionResult_state_of_succeeded d]
    obtain ⟨hp, ha⟩ := andThen_succeeded.mp d
    rw [andThen_state_of_succeeded _ hp]
    split at ha
    · simp at ha
    rename_i hcm
    rw [if_neg hcm]
    split at ha
    · simp at ha
    split at ha
    · simp at ha
    · rw [andThen_state_of_succeeded _ (andThen_succeeded.mp ha).1]
      rfl
  · rename_i hu
    rw [if_neg hu] at d
    simp at d

end Yvex.Provider

namespace Yvex.Session

open AttentionData RefusableStep Provider

variable {ow : StateOwner}

section Owners

def ownerActive (owner : Option StateOwner) : Prop :=
  ∃ o, owner = some o ∧ o.provider.transaction.active = true

def ownerReady (owner : Option StateOwner) : Prop :=
  ∃ o, owner = some o ∧ o.prepared = true ∧ o.provider.transaction.publicationPrepared = true

def StateOwner.settled (owner : StateOwner) : Bool :=
  !owner.prepared && !owner.provider.transaction.active &&
    !owner.provider.transaction.publicationPrepared &&
    owner.residency.all fun residency => !residency.commitPrepared

def ownerSettled (owner : Option StateOwner) : Prop := ∀ o, owner = some o → o.settled = true

theorem prepareResidency_provider (env : OwnerEnvironment) (ow : StateOwner) :
    (prepareResidency env ow).2.provider = ow.provider := by
  unfold prepareResidency
  split <;> rfl

theorem transactionPrepare_active (sha : Sha256) (env : OwnerEnvironment) (ow : StateOwner) :
    (transactionPrepare sha env ow).2.provider.transaction.active =
      ow.provider.transaction.active := by
  have hs := prepareResidency_provider env ow
  unfold transactionPrepare
  split
  · rename_i hpr
    rw [hpr] at hs
    rw [← hs]
  · rename_i hpr
    rw [hpr] at hs
    rw [← hs]
    exact statePreparePublish_active sha env.prepare _

theorem succeeded_of_stepError {σ : Type} {s : Outcome Refusal σ}
    (h : stepError s = none) : s.succeeded = true := by
  cases s with
  | done => rfl
  | refused => simp [stepError] at h

variable {env : OwnerEnvironment}

theorem transactionPrepare_ready {sha : Sha256} (ha : (transactionPrepare sha env ow).1 = none) :
    ownerReady (some (transactionPrepare sha env ow).2) := by
  refine ⟨_, rfl, ?_⟩
  unfold transactionPrepare at ha ⊢
  split
  · rename_i hr
    rw [hr] at ha
    simp at ha
  · rename_i hpr
    rw [hpr] at ha
    have d := succeeded_of_stepError ha
    exact ⟨d, statePreparePublish_prepared d⟩

theorem residencyPublishCommit_unprepared (r : Residency) :
    (residencyPublishCommit r).commitPrepared = false := by
  unfold residencyPublishCommit
  split
  · simp_all
  · rfl

theorem transactionPublish_settled (hre : ownerReady (some ow)) :
    (transactionPublish ow).settled = true := by
  obtain ⟨o, hs, hpr, publication⟩ := hre
  cases hs
  have idle : (statePublishPrepared ow.provider).transaction = .zero := by
    simp [statePublishPrepared, publication]
  have hr : (ow.residency.map residencyPublishCommit).all
      (fun residency => !residency.commitPrepared) = true := by
    cases ow.residency <;> simp [residencyPublishCommit_unprepared]
  simp [transactionPublish, hpr, StateOwner.settled, idle, hr, Transaction.zero]

theorem cancelPrepared_active (ow : StateOwner) :
    (cancelPrepared ow).transaction.active = ow.provider.transaction.active := by
  unfold cancelPrepared stateCancelPreparedPublish
  split
  · split <;> rfl
  · rfl

theorem transactionAbort_settled (hac : ow.provider.transaction.active = true)
    (ha : (transactionAbort env ow).1 = none) : (transactionAbort env ow).2.settled = true := by
  have hr : (ow.residency.map residencyAbort).all
      (fun residency => !residency.commitPrepared) = true := by
    cases ow.residency <;> simp [residencyAbort]
  have hid := @stateAbort_settled env.abort (cancelPrepared ow)
    ((cancelPrepared_active ow).trans hac)
  unfold transactionAbort at ha ⊢
  cases hs : stateAbort env.abort (cancelPrepared ow) with
  | done provider =>
    rw [hs] at hid
    have zero : provider.transaction = .zero := hid rfl
    simp [StateOwner.settled, zero, hr, Transaction.zero]
  | refused =>
    simp only [hs] at ha
    split at ha <;> simp at ha

end Owners

section Sequence

def sequenceActive (sequence : Option SequenceState) : Prop :=
  ∃ s, sequence = some s ∧ s.transactionActive = true

def sequenceReady (sequence : Option SequenceState) : Prop :=
  ∃ s, sequence = some s ∧ s.transactionActive = true ∧ s.prepared = true

def sequenceSettled (sequence : Option SequenceState) : Prop :=
  ∀ s, sequence = some s → s.transactionActive = false ∧ s.prepared = false

theorem sequenceStatePrepare_active (st : SequenceState) :
    (sequenceStatePrepare st).2.transactionActive = st.transactionActive := by
  unfold sequenceStatePrepare
  split <;> rfl

variable {st : SequenceState}

theorem sequenceStatePrepare_ready (hac : st.transactionActive = true)
    (ha : (sequenceStatePrepare st).1 = none) :
    sequenceReady (some (sequenceStatePrepare st).2) := by
  refine ⟨_, rfl, (sequenceStatePrepare_active st).trans hac, ?_⟩
  unfold sequenceStatePrepare at ha ⊢
  split
  · rename_i hb
    rw [if_pos hb] at ha
    simp at ha
  · rfl

theorem sequenceStatePublish_settled (hr : sequenceReady (some st)) :
    sequenceSettled (some (sequenceStatePublish st)) := by
  obtain ⟨s, same, ha, hpr⟩ := hr
  cases same
  intro s hs
  cases hs
  simp [sequenceStatePublish, ha, hpr]

theorem sequenceStateAbort_settled (ha : (sequenceStateAbort st).1 = none) :
    sequenceSettled (some (sequenceStateAbort st).2) := by
  intro s hs
  cases hs
  unfold sequenceStateAbort at ha ⊢
  split
  · rename_i ho
    rw [if_pos ho] at ha
    simp at ha
  · exact ⟨rfl, rfl⟩

end Sequence

section Participants

open TwoPhase

variable {ω : Type} {sc : Scope} {w : ExecutionSession × ω}

theorem onOwner_some {f : StateOwner → Option Refusal × StateOwner}
    (h : w.1.stateOwner sc = some ow) :
    onOwner sc f w = ((f ow).1, w.1.setOwner sc (f ow).2, w.2) := by
  simp [onOwner, h]

variable {other : Scope}

theorem onOwner_other (ne : sc ≠ other) (f : StateOwner → Option Refusal × StateOwner)
    (w : ExecutionSession × ω) : (onOwner other f w).2.1.stateOwner sc = w.1.stateOwner sc := by
  unfold onOwner
  split
  · rfl
  · simp [ExecutionSession.setOwner, ne]

theorem onOwner_sequence (sc : Scope) (f : StateOwner → Option Refusal × StateOwner)
    (w : ExecutionSession × ω) : (onOwner sc f w).2.1.sequence = w.1.sequence := by
  unfold onOwner
  split <;> rfl

theorem onSequence_some {f : SequenceState → Option Refusal × SequenceState} {sq : SequenceState}
    (h : w.1.sequence = some sq) :
    onSequence f w = ((f sq).1, { w.1 with sequence := some (f sq).2 }, w.2) := by
  simp [onSequence, h]

theorem onSequence_stateOwner (f : SequenceState → Option Refusal × SequenceState)
    (w : ExecutionSession × ω) : (onSequence f w).2.1.stateOwner = w.1.stateOwner := by
  unfold onSequence
  split <;> rfl

@[simp] theorem setOwner_same (s : ExecutionSession) (sc : Scope) (ow : StateOwner) :
    (s.setOwner sc ow).stateOwner sc = some ow := by
  simp [ExecutionSession.setOwner]

/-- A provider owner takes part in a finish as the protocol expects. -/
theorem stateParticipant_tracks (sha : Sha256) (env : OwnerEnvironment) (sc : Scope) :
    Tracks (stateParticipant sha env sc : Participant Refusal (ExecutionSession × ω))
      (fun w => ownerActive (w.1.stateOwner sc)) (fun w => ownerReady (w.1.stateOwner sc))
      (fun w => ownerSettled (w.1.stateOwner sc)) where
  prepare_live := by
    rintro w ⟨ow, hh, hac⟩
    simp only [stateParticipant, onOwner_some hh, setOwner_same]
    exact ⟨_, rfl, (transactionPrepare_active sha env ow).trans hac⟩
  prepare_ready := by
    rintro w ⟨ow, hh, hac⟩ ha
    simp only [stateParticipant, onOwner_some hh, setOwner_same] at ha ⊢
    exact transactionPrepare_ready ha
  publish_settled := by
    rintro w ⟨ow, hh, hr⟩ o ho
    simp only [stateParticipant, onOwner_some hh, setOwner_same, Option.some.injEq] at ho
    subst ho
    exact transactionPublish_settled ⟨ow, rfl, hr⟩
  abort_settled := by
    rintro w ⟨ow, hh, hac⟩ ha o ho
    simp only [stateParticipant, onOwner_some hh, setOwner_same, Option.some.injEq] at ha ho
    subst ho
    exact transactionAbort_settled hac ha

theorem sequenceParticipant_tracks :
    Tracks (sequenceParticipant : Participant Refusal (ExecutionSession × ω))
      (fun w => sequenceActive w.1.sequence) (fun w => sequenceReady w.1.sequence)
      (fun w => sequenceSettled w.1.sequence) where
  prepare_live := by
    rintro w ⟨sq, hh, hac⟩
    simp only [sequenceParticipant, onSequence_some hh]
    exact ⟨_, rfl, (sequenceStatePrepare_active sq).trans hac⟩
  prepare_ready := by
    rintro w ⟨sq, hh, hac⟩ ha
    simp only [sequenceParticipant, onSequence_some hh] at ha ⊢
    exact sequenceStatePrepare_ready hac ha
  publish_settled := by
    rintro w ⟨sq, hh, hr⟩
    simp only [sequenceParticipant, onSequence_some hh]
    exact sequenceStatePublish_settled ⟨sq, rfl, hr⟩
  abort_settled := by
    rintro w ⟨sq, hh, hac⟩ ha
    simp only [sequenceParticipant, onSequence_some hh] at ha ⊢
    exact sequenceStateAbort_settled ha

theorem stateParticipant_keeps_other (ne : sc ≠ other) (sha : Sha256)
    (env : OwnerEnvironment) (P : Option StateOwner → Prop) :
    Keeps (stateParticipant sha env other : Participant Refusal (ExecutionSession × ω))
      (fun w => P (w.1.stateOwner sc)) := by
  constructor <;> intro w hw <;> simp only [stateParticipant, onOwner_other ne] <;> exact hw

theorem stateParticipant_keeps_sequence (sha : Sha256) (env : OwnerEnvironment) (sc : Scope)
    (P : Option SequenceState → Prop) :
    Keeps (stateParticipant sha env sc : Participant Refusal (ExecutionSession × ω))
      (fun w => P w.1.sequence) := by
  constructor <;> intro w hw <;> simp only [stateParticipant, onOwner_sequence] <;> exact hw

theorem sequenceParticipant_keeps_owner (sc : Scope) (P : Option StateOwner → Prop) :
    Keeps (sequenceParticipant : Participant Refusal (ExecutionSession × ω))
      (fun w => P (w.1.stateOwner sc)) := by
  constructor <;> intro w hw <;> simp only [sequenceParticipant, onSequence_stateOwner] <;> exact hw

theorem liftExternal_keeps (pt : Participant Refusal ω) (P : ExecutionSession → Prop) :
    Keeps (liftExternal pt) (fun w => P w.1) := by
  constructor <;> intro w hw <;> exact hw

variable {externals : List (External ω)} {p : Named ParticipantName Refusal (ExecutionSession × ω)}

theorem externalParticipants_keep (hp : p ∈ externalParticipants externals)
    (P : ExecutionSession → Prop) : Keeps p.2 (fun w => P w.1) := by
  obtain ⟨⟨he, i⟩, _, hm⟩ := List.mem_filterMap.mp hp
  obtain ⟨pt, _, rfl⟩ := Option.map_eq_some_iff.mp hm
  exact liftExternal_keeps pt P

theorem participants_keep_owner {sha : Sha256} {env : FinishEnvironment} {s : List Scope}
    {sq : Bool} (hab : sc ∉ s) (hp : p ∈ participantsOf sha env s sq externals)
    (P : Option StateOwner → Prop) : Keeps p.2 (fun w => P (w.1.stateOwner sc)) := by
  simp only [participantsOf, List.mem_append, List.mem_map] at hp
  rcases hp with (⟨o, hl, rfl⟩ | hs) | he
  · have ne : sc ≠ o := by
      rintro rfl
      exact hab hl
    exact stateParticipant_keeps_other ne sha _ P
  · split at hs
    · obtain rfl := List.mem_singleton.mp hs
      exact sequenceParticipant_keeps_owner sc P
    · simp at hs
  · exact externalParticipants_keep he fun ss => P (ss.stateOwner sc)

end Participants

end Yvex.Session
