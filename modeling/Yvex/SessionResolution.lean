import Yvex.SessionParticipants

/-!
# A coordinated finish is all or nothing

When every summary can be read, the participants gathered are exactly the active
transactions of the session and the external ones. The rules of two-phase
resolution then say which calls they receive and how each of them ends.
-/

set_option autoImplicit false

namespace Yvex.Session

open AttentionData RefusableStep Provider TwoPhase List ParticipantName

variable (c : Bool) (g : Gathered)

variable {ω : Type}

def activeScopes (session : ExecutionSession) : List Scope :=
  [Scope.target, Scope.draft].filter fun scope =>
    (session.stateOwner scope).any fun owner => owner.provider.transaction.active

def sequenceInTransaction (session : ExecutionSession) : Bool :=
  session.sequence.any fun sequence => sequence.transactionActive

def summariesReadable (sha : Sha256) (env : FinishEnvironment) (session : ExecutionSession) :
    Bool :=
  ([Scope.target, Scope.draft].all fun scope => (session.stateOwner scope).all fun owner =>
    (stateSummaryCopy sha (env.owner scope).summary owner.provider).isOk) &&
  session.sequence.all fun sequence => (sequenceSummaryRefusal sequence).isNone &&
    !(sequence.transactionActive && sequence.invalidated)

theorem gatherOwner_sequence (sha : Sha256) (env : FinishEnvironment) (c : Bool)
    (s : ExecutionSession) (g : Gathered) (sc : Scope) :
    (gatherOwner sha env c s g sc).sequence = g.sequence := by
  unfold gatherOwner
  split
  · rfl
  · split <;> rfl

variable {env : FinishEnvironment} {s : ExecutionSession} {sc : Scope} {sha : Sha256}

theorem gatherOwner_scopes
    (hr : (s.stateOwner sc).all (fun ow =>
      (stateSummaryCopy sha (env.owner sc).summary ow.provider).isOk) = true) :
    (gatherOwner sha env c s g sc).scopes = g.scopes ++ [sc].filter fun sc =>
        (s.stateOwner sc).any fun ow => ow.provider.transaction.active := by
  unfold gatherOwner
  cases h : s.stateOwner sc with
  | none => simp [h]
  | some ow =>
    simp only [h, Option.all_some] at hr
    cases hc : stateSummaryCopy sha (env.owner sc).summary ow.provider with
    | error => simp [hc, Except.isOk, Except.toBool] at hr
    | ok =>
      have hs := stateSummaryCopy_transactionActive hc
      cases ha : ow.provider.transaction.active <;> simp [hc, hs, h, ha]

theorem gatherSequence_scopes (s : ExecutionSession) (g : Gathered) :
    (gatherSequence c s g).scopes = g.scopes := by
  unfold gatherSequence
  split
  · rfl
  · split
    · rfl
    · split <;> rfl

theorem gatherSequence_sequence {g : Gathered} (hfr : g.sequence = false)
    (hr : s.sequence.all (fun sq => (sequenceSummaryRefusal sq).isNone &&
      !(sq.transactionActive && sq.invalidated)) = true) :
    (gatherSequence c s g).sequence = sequenceInTransaction s := by
  unfold gatherSequence sequenceInTransaction
  cases held : s.sequence with
  | none => simp [hfr]
  | some =>
    simp only [held, Option.all_some, Bool.and_eq_true, Option.isNone_iff_eq_none,
      Bool.not_eq_true'] at hr
    simp [hr.1, hr.2]

theorem gather_readable (t : ℕ) (c : Bool) (hr : summariesReadable sha env s = true) :
    (gather sha env t c s).scopes = activeScopes s ∧
      (gather sha env t c s).sequence = sequenceInTransaction s := by
  simp only [summariesReadable, all_cons, all_nil, Bool.and_true, Bool.and_eq_true] at hr
  obtain ⟨⟨tgt, d⟩, sq⟩ := hr
  constructor
  · simp only [gather, gatherSequence_scopes, foldl_cons, foldl_nil,
      gatherOwner_scopes _ _ tgt, gatherOwner_scopes _ _ d, nil_append]
    rw [← filter_append]
    rfl
  · refine gatherSequence_sequence c ?_ sq
    simp only [foldl_cons, foldl_nil, gatherOwner_sequence]

def activeParticipants (sha : Sha256) (env : FinishEnvironment) (session : ExecutionSession)
    (externals : List (Participant Refusal ω)) :
    List (Named ParticipantName Refusal (ExecutionSession × ω)) :=
  participantsOf sha env (activeScopes session) (sequenceInTransaction session)
    (externals.map some)

theorem activeScopes_nodup (s : ExecutionSession) : (activeScopes s).Nodup :=
  List.Nodup.filter _ (by decide)

theorem ownerActive_of_mem (h : sc ∈ activeScopes s) :
    ownerActive (s.withFreshParticipants.stateOwner sc) := by
  obtain ⟨_, ha⟩ := mem_filter.mp h
  obtain ⟨ow, hh, ha⟩ := (Option.any_eq_true _ _).mp ha
  refine ⟨{ ow with prepared := false }, ?_, ha⟩
  simp only [ExecutionSession.withFreshParticipants, hh]
  rfl

variable {w : ExecutionSession × ω}

/-- An owner that had work is settled, or its abort was refused. -/
theorem resolve_settles_owner (sha : Sha256) (env : FinishEnvironment) {ss : List Scope}
    (hd : ss.Nodup) (sq : Bool) (ex : List (External ω)) (st : Option Refusal)
    (hl : sc ∈ ss) (ha : ownerActive (w.1.stateOwner sc)) :
    let r := resolve (participantsOf sha env ss sq ex) st w
    ownerSettled (r.world.1.stateOwner sc) ∨ Call.abort (.state sc) true ∈ r.trace := by
  obtain ⟨b, a, rfl⟩ := append_of_mem hl
  have hab : sc ∉ b ++ a := by
    have := nodup_middle.mp hd
    exact (nodup_cons.mp this).1
  have hk : ∀ (P : Option StateOwner → Prop), ∀ p ∈ b.map (fun sc => (state sc,
          (stateParticipant sha (env.owner sc) sc : Participant Refusal (ExecutionSession × ω)))) ++
        (a.map (fun sc => (state sc, stateParticipant sha (env.owner sc) sc)) ++
        ((if sq then [(.sequence, sequenceParticipant)] else []) ++ externalParticipants ex)),
      Keeps p.2 (fun w => P (w.1.stateOwner sc)) := by
    intro P p hp
    have hm : p ∈ participantsOf sha env (b ++ a) sq ex := by simpa [participantsOf] using hp
    exact participants_keep_owner hab hm P
  have hs := resolve_settles (state sc)
    (stateParticipant_tracks sha (env.owner sc) sc) (hk _) (hk _) (hk _)
    st ha
  simpa [participantsOf] using hs

theorem resolve_settles_sequence (sha : Sha256) (env : FinishEnvironment) (ss : List Scope)
    (ex : List (External ω)) (st : Option Refusal) (ha : sequenceActive w.1.sequence) :
    let r := resolve (participantsOf sha env ss true ex) st w
    sequenceSettled r.world.1.sequence ∨ Call.abort .sequence true ∈ r.trace := by
  have hk : ∀ (P : Option SequenceState → Prop),
      ∀ p ∈ ss.map (fun sc => (state sc,
          (stateParticipant sha (env.owner sc) sc :
            Participant Refusal (ExecutionSession × ω)))) ++ externalParticipants ex,
      Keeps p.2 (fun w => P w.1.sequence) := by
    intro P p hp
    rcases mem_append.mp hp with hs | he
    · obtain ⟨sc, _, rfl⟩ := mem_map.mp hs
      exact stateParticipant_keeps_sequence sha _ sc P
    · exact externalParticipants_keep he fun s => P s.sequence
  have hse := resolve_settles sequence sequenceParticipant_tracks (hk _) (hk _) (hk _) st ha
  simpa [participantsOf] using hse

theorem settle_owned (b : Bool) (e : Option Refusal) (s : ExecutionSession) :
    (settle b e s).stateOwner = s.stateOwner ∧ (settle b e s).sequence = s.sequence := by
  unfold settle countFailure
  cases e with
  | none => exact ⟨rfl, rfl⟩
  | some => dsimp only; split <;> split <;> exact ⟨rfl, rfl⟩

theorem settle_invalidated {e : Refusal} (hu : e.status ≠ .cancelled) (s : ExecutionSession) :
    (settle true (some e) s).invalidated = true := by
  simp [settle, hu]

theorem finishCoordinated_accepted (sha : Sha256) (t : ℕ) (st : Option Refusal)
    {ex : List (Participant Refusal ω)} (wo : ω)
    (hb : ex.length ≤ externalCap) (hl : env.lockAvailable = true)
    (hr : summariesReadable sha env s = true) :
    ∃ cleanup : Cleanup,
      let r := resolve (activeParticipants sha env s ex)
        (transactionStatus st cleanup) (s.withFreshParticipants, wo)
      finishCoordinated sha env t st (ex.map some) s wo =
        ⟨r.error, settle (boundaryFailure st cleanup r.abortFailed r.error)
          r.error r.world.1, r.world.2, r.trace⟩ := by
  obtain ⟨ss, sq⟩ := gather_readable t st.isNone hr
  have ha : ¬(externalCap < (ex.map (some : _ → External ω)).length ∨
      (!env.lockAvailable) = true) := by
    simp [hl, hb]
  refine ⟨finalCleanup st.isNone s (gather sha env t st.isNone s) (ex.map some), ?_⟩
  simp only [finishCoordinated, if_neg ha, ss, sq, activeParticipants]

/-- Either every participant is published once, after every preparation was
accepted, or none is and every one is aborted once, last first. None is left in
its transaction unless its own abort was refused, and then the session is
invalidated or the finish reports cancellation. -/
theorem finish_coordinated_all_or_nothing (sha : Sha256) (env : FinishEnvironment) (thread : ℕ)
    (status : Option Refusal) (externals : List (Participant Refusal ω))
    (session : ExecutionSession) (world : ω) (bounded : externals.length ≤ externalCap)
    (locked : env.lockAvailable = true) (readable : summariesReadable sha env session = true) :
    let finished := finishCoordinated sha env thread status (externals.map some) session world
    Outcome (activeParticipants sha env session externals) finished.error finished.trace ∧
    (∀ scope ∈ activeScopes session, ownerSettled (finished.session.stateOwner scope) ∨
      Call.abort (.state scope) true ∈ finished.trace) ∧
    (sequenceInTransaction session = true → sequenceSettled finished.session.sequence ∨
      Call.abort .sequence true ∈ finished.trace) ∧
    ∀ name, Call.abort name true ∈ finished.trace → finished.session.invalidated = true ∨
      ∃ error, finished.error = some error ∧ error.status = .cancelled := by
  obtain ⟨cleanup, resolved⟩ :=
    finishCoordinated_accepted sha thread status world bounded locked readable
  intro finished
  have same : finished = _ := resolved
  rw [same]
  refine ⟨resolve_outcome _ _ _, fun scope listed => ?_, fun active => ?_, fun name refused => ?_⟩
  · rw [(settle_owned _ _ _).1]
    exact resolve_settles_owner sha env (activeScopes_nodup session) _ _ _ listed
      (ownerActive_of_mem listed)
  · rw [(settle_owned _ _ _).2]
    obtain ⟨sequence, held, running⟩ := (Option.any_eq_true _ _).mp active
    rw [activeParticipants, active]
    exact resolve_settles_sequence sha env _ _ _ ⟨sequence, held, running⟩
  · have failed := resolve_abortFailed refused
    obtain ⟨error, reported⟩ := Option.isSome_iff_exists.mp (resolve_error_of_abortFailed failed)
    by_cases cancelled : error.status = .cancelled
    · exact .inr ⟨error, reported, cancelled⟩
    · refine .inl ?_
      rw [failed, reported]
      simpa [boundaryFailure] using settle_invalidated cancelled _

def calm : Environment where
  lockAvailable := true
  cancelRequested _ := false
  publishFault := false
  abortFault := false
  invalidateFault := false
  hostOutcomes := []

def calmFinish : FinishEnvironment where
  lockAvailable := true
  owner _ := ⟨calm, calm, calm, calm, calm, none⟩

def stagedSequence : SequenceState where
  banks _ _ := 0
  bankValues := 2
  bindingCount := 1
  committedPosition := 0
  candidateTokens := 4
  generation := 0
  staged index := index == 0
  stagedLayers := 1
  committedBank := false
  storageBackend := .cpu
  deviceAttached := false
  transactionActive := true
  prepared := false
  invalidated := false

def stagedSession : ExecutionSession where
  isOpen := true
  closing := false
  busy := true
  owner := some 0
  invalidationPending := false
  invalidated := false
  cancelled := false
  engineCurrent := true
  stateOwner _ := none
  sequence := some stagedSequence
  executionCount := 0
  failureCount := 0
  cancellationCount := 0

def refusing : Participant Refusal Unit where
  prepare _ := (some (coordinatedRefusal .io "external participant refused"), ())
  publish _ := ()
  abort _ := (some (coordinatedRefusal .io "external participant refused"), ())

theorem finish_coordinated_with_refusing_participant :
    let finished := finishCoordinated fixedDigest calmFinish 0 none [some refusing]
      stagedSession ()
    Outcome (activeParticipants fixedDigest calmFinish stagedSession [refusing]) finished.error
      finished.trace ∧
    finished.trace = [.prepare .sequence false, .prepare (.external 0) true,
      .abort (.external 0) true, .abort .sequence false] ∧
    sequenceSettled finished.session.sequence ∧ finished.session.invalidated = true := by
  obtain ⟨outcome, _, settled, reported⟩ := finish_coordinated_all_or_nothing fixedDigest
    calmFinish 0 none [refusing] stagedSession () (by decide) rfl (by decide)
  refine ⟨outcome, rfl, ?_, ?_⟩
  · exact (settled rfl).resolve_right (by decide)
  · refine (reported (.external 0) (by decide)).resolve_right ?_
    rintro ⟨error, ⟨⟩, cancelled⟩
    exact absurd cancelled (by decide)

/-- Six external participants are one too many: the finish is refused at its
entry, calls no one, and leaves the staged sequence state in its transaction. -/
theorem finish_coordinated_six_participants :
    let finished := finishCoordinated fixedDigest calmFinish 0 none
      (replicate 6 (some refusing)) stagedSession ()
    (∃ error, finished.error = some error ∧ error.status = .state) ∧ finished.trace = [] ∧
    sequenceActive finished.session.sequence ∧
    ¬Outcome (activeParticipants fixedDigest calmFinish stagedSession (replicate 6 refusing))
      finished.error finished.trace := by
  refine ⟨⟨_, rfl, rfl⟩, rfl, ⟨stagedSequence, rfl, rfl⟩, ?_⟩
  rintro (⟨accepted, _⟩ | ⟨_, count, prepares, aborts, calls, _, undone⟩)
  · cases accepted
  · have none_aborted : aborts = [] := (append_eq_nil_iff.mp calls.symm).2
    have all_aborted := undone.length_eq
    rw [none_aborted] at all_aborted
    exact absurd all_aborted (by decide)

end Yvex.Session
