import Yvex.BankGrowth
import Yvex.ProviderPublish

/-!
# Isolation of the committed state

Until a publication exchanges the banks, a transaction writes candidate banks
only. Preflight does touch the committed banks, but only to admit pages. So no
sequence of calls short of a publish changes what readers of the committed
state see, whatever each call is given and however it ends.
-/

set_option autoImplicit false

namespace Yvex.Provider

open AttentionData RefusableStep StatePages StateBank Outcome AttentionState LayerState

variable (sha : Sha256) (env : Environment) (j : ℕ) (p : Publication)
  (pr e : ℕ) (l : LayerState)

def LayerState.content (layer : LayerState) : HistoryView × Identity :=
  (layer.committed.resolved, layer.committed.stateIdentity)

structure Snapshot where
  layers : ℕ → HistoryView × Identity
  committedSequenceLength : ℕ
  nextPosition : ℕ
  generation : ℕ
  stateContentIdentity : Identity

def AttentionState.snapshot (state : AttentionState) : Snapshot where
  layers i := (state.layers i).content
  committedSequenceLength := state.summary.committedSequenceLength
  nextPosition := state.summary.nextPosition
  generation := state.summary.generation
  stateContentIdentity := state.summary.stateContentIdentity

section Frame

variable (st : AttentionState)

@[simp] theorem snapshot_setPool (po : PagePool) : (st.setPool po).snapshot = st.snapshot := rfl

@[simp] theorem snapshot_meet : (st.meet env).snapshot = st.snapshot := rfl

@[simp] theorem snapshot_invalidated : st.invalidated.snapshot = st.snapshot := rfl

@[simp] theorem snapshot_failIfActive : st.failIfActive.snapshot = st.snapshot := by
  unfold failIfActive
  split <;> rfl

end Frame

variable {st : AttentionState} {b : LayerState}

theorem snapshot_setLayer {j : ℕ} (h : b.content = (st.layers j).content) :
    (st.setLayer j b).snapshot = st.snapshot := by
  have la : (fun i => ((st.setLayer j b).layers i).content) = fun i => (st.layers i).content := by
    funext i
    by_cases hi : i = j
    · subst hi
      simpa [setLayer] using h
    · simp [setLayer, hi]
  simp only [snapshot, la]
  rfl

theorem content_eq {a : LayerState} (h : b.committed = a.committed) : b.content = a.content := by
  simp only [content, h]

@[simp] theorem content_setCandidate (b : Bank) : (l.setCandidate b).content = l.content :=
  content_eq (committed_setCandidate l b)

@[simp] theorem content_bankRestoreCandidate : (bankRestoreCandidate l).content = l.content :=
  content_eq (committed_setCandidate l _)

theorem content_setCommitted {l : LayerState} {b : Bank}
    (h : l.committed.Grows b) : (l.setCommitted b).content = l.content := by
  simp only [content, committed_setCommitted, h.resolved_eq, h.stateIdentity]

theorem stateEnter_snapshot {env : Environment} {l : ℕ}
    {body : AttentionState → Step} (h : ∀ s, (body s).state.snapshot = s.snapshot) :
    (stateEnter env l st body).state.snapshot = st.snapshot := by
  unfold stateEnter
  split
  · rw [h, snapshot_meet]
  · rfl

theorem transactionResult_snapshot (s : Step) :
    (transactionResult s).state.snapshot = s.state.snapshot := by
  cases s with
  | done => rfl
  | refused => simp [transactionResult]

variable (st)

theorem stateCancelCheck_snapshot (c : Option Cancellation)
    (l : ℕ) (r : String) :
    (stateCancelCheck env c l r st).state.snapshot = st.snapshot := by
  unfold stateCancelCheck
  cases c with
  | none => rfl
  | some =>
    dsimp only
    split
    · rfl
    · split
      · split <;> rfl
      · rfl

theorem beginCandidate_snapshot (la tp tc : ℕ) (c : Option Cancellation) :
    (beginCandidate la tp tc c st).state.snapshot =
      st.snapshot := by
  unfold beginCandidate
  dsimp only
  generalize (if extending st then (st.layers la).candidate
    else (st.layers la).committed) = base
  split
  · rfl
  · split <;> rfl

theorem stateBegin_snapshot (la tp tc : ℕ) (c : Option Cancellation) :
    (stateBegin env la tp tc c st).state.snapshot =
      st.snapshot := by
  refine stateEnter_snapshot fun s => ?_
  rw [transactionResult_snapshot]
  split
  · exact snapshot_failIfActive s
  dsimp only
  split
  · rfl
  split
  · exact snapshot_failIfActive s
  have hc := stateCancelCheck_snapshot env s c la "attention state cancelled before begin"
  split
  · next hr => simpa [hr] using hc
  · next ha =>
    rw [beginCandidate_snapshot]
    simpa [ha] using hc

theorem adoptCompletion_snapshot :
    (adoptCompletion st p).snapshot = st.snapshot := by
  unfold adoptCompletion
  dsimp only
  split
  · split
    · rfl
    · split <;> rfl
  · rfl

theorem candidateDeltaReserve_committed (po : PagePool) (l : LayerState) :
    (candidateDeltaReserve po l).state.2.committed = l.committed := by
  unfold candidateDeltaReserve
  split
  · rfl
  · rw [state_map]
    rfl

theorem retainDelta_committed (s : PagePool × LayerState) :
    (retainDelta p s).state.2.committed = s.2.committed := by
  unfold retainDelta
  split <;> rfl

theorem applyToCandidate_snapshot :
    (applyToCandidate sha j p st).state.snapshot = st.snapshot := by
  unfold applyToCandidate
  dsimp only
  split
  · refine (snapshot_setLayer ?_).trans (snapshot_setPool st _)
    exact content_setCandidate _ _
  · refine (snapshot_setLayer ?_).trans (snapshot_setPool st _)
    rw [content_bankRestoreCandidate]
    exact content_setCandidate _ _

theorem stageIfComplete_snapshot :
    (stageIfComplete j st).state.snapshot = st.snapshot := by
  unfold stageIfComplete
  dsimp only
  split
  · rfl
  · split
    · rfl
    · exact snapshot_setLayer (content_eq rfl)

theorem finishApply_snapshot :
    (finishApply sha j p st).state.1.snapshot = st.snapshot := by
  have hm : (st.setLayer j
      { st.layers j with banksSynchronized := false }).snapshot = st.snapshot :=
    snapshot_setLayer (content_eq rfl)
  unfold finishApply
  dsimp only
  split
  · exact hm
  · rw [state_map, stageIfComplete_snapshot]
    exact hm

/-- Applying to the candidate bank leaves what readers see as it was. -/
theorem retainAndApply_snapshot :
    (retainAndApply sha j p st).state.1.snapshot = st.snapshot := by
  have hh : ((candidateDeltaReserve st.pagePool (st.layers j)).andThen
      (retainDelta p)).state.2.committed = (st.layers j).committed :=
    andThen_preserves
      (P := fun s : PagePool × LayerState => s.2.committed = (st.layers j).committed)
      (candidateDeltaReserve_committed _ _)
      fun s hs => (retainDelta_committed p s).trans hs
  unfold retainAndApply
  split
  · next hr =>
    rw [hr] at hh
    exact snapshot_setLayer (content_eq hh)
  next pool l had =>
  rw [had] at hh
  have b : ((st.setPool pool).setLayer j l).snapshot = st.snapshot :=
    snapshot_setLayer (content_eq hh)
  have ha := (applyToCandidate_snapshot sha j p ((st.setPool pool).setLayer j l)).trans b
  split
  · next hr =>
    rw [hr] at ha
    exact ha
  · next hw =>
    rw [hw] at ha
    rw [finishApply_snapshot]
    exact ha

theorem applyAdmitted_snapshot {sha : Sha256} {env : Environment} {j : ℕ}
    {p : Publication} {c : Option Cancellation} :
    (applyAdmitted sha env j p c st).state.1.snapshot =
      st.snapshot := by
  have hc := stateCancelCheck_snapshot env st c st.transaction.layerOrdinal
    "attention state cancelled before candidate apply"
  unfold applyAdmitted
  split
  · next hr =>
    rw [hr] at hc
    exact hc
  next ha =>
  rw [ha] at hc
  split
  · refine Eq.trans ?_ hc
    exact snapshot_setLayer (content_eq rfl)
  · exact (retainAndApply_snapshot _ _ _ _).trans hc

theorem applyBody_snapshot (p : Option Publication)
    (c : Option Cancellation) :
    (applyBody sha env p c st).state.1.snapshot = st.snapshot := by
  have ha : (p.elim st (adoptCompletion st)).snapshot = st.snapshot := by
    cases p with
    | none => rfl
    | some p => exact adoptCompletion_snapshot p st
  unfold applyBody
  dsimp only
  split
  · split
    · exact (applyAdmitted_snapshot _).trans ha
    · exact (snapshot_failIfActive _).trans ha
  · exact (snapshot_failIfActive _).trans ha

theorem stateApply_snapshot (p : Option Publication)
    (c : Option Cancellation) :
    (stateApply sha env p c st).state.1.snapshot = st.snapshot := by
  have hb := applyBody_snapshot sha env (st.meet env) p c
  unfold stateApply
  split
  · split
    · next ha =>
      rw [ha] at hb
      exact hb
    · next hr =>
      rw [hr] at hb
      exact (snapshot_failIfActive _).trans hb
  · rfl

theorem selectLayer_snapshot :
    (selectLayer sha pr e j st).state.snapshot = st.snapshot := by
  unfold selectLayer
  dsimp only
  split
  · rfl
  split
  · rfl
  split
  · rfl
  refine andThen_preserves
    (P := fun s : AttentionState => s.snapshot = st.snapshot) ?_ fun s hs => ?_
  · rw [applyToCandidate_snapshot]
    exact snapshot_setLayer (content_bankRestoreCandidate _)
  · split
    · refine Eq.trans (snapshot_setLayer ?_) hs
      rw [content_bankRestoreCandidate]
      exact content_eq rfl
    · refine Eq.trans ?_ hs
      exact snapshot_setLayer (content_eq rfl)

theorem selectLayers_snapshot :
    (selectLayers sha pr e st).state.snapshot = st.snapshot :=
  forEach_preserves (P := fun s : AttentionState => s.snapshot = st.snapshot)
    (fun j _ s hs => (selectLayer_snapshot sha j pr e s).trans hs) rfl

theorem stateSelectPrefix_snapshot :
    (stateSelectPrefix sha env pr e st).state.snapshot =
      st.snapshot := by
  refine stateEnter_snapshot fun s => ?_
  rw [transactionResult_snapshot]
  have la := selectLayers_snapshot sha pr e s
  split
  · rfl
  split
  · rfl
  dsimp only
  split
  · rfl
  split
  · next hr =>
    rw [hr] at la
    exact la
  · next sel =>
    rw [sel] at la
    exact la

theorem preflightLayer_snapshot :
    (preflightLayer j st).state.snapshot = st.snapshot := by
  unfold preflightLayer
  dsimp only
  split
  · rfl
  split
  · rfl
  rw [state_map, state_mapError]
  refine (snapshot_setLayer ?_).trans (snapshot_setPool st _)
  refine content_setCommitted ?_
  unfold historyPrepareDeltas
  split
  · exact .refl _
  · rw [state_mapError]
    exact preparePublications_grows _ _ _ _

/-- Preparing a publication shows nothing of it. -/
theorem statePreparePublish_snapshot :
    (statePreparePublish sha env st).state.snapshot = st.snapshot := by
  refine stateEnter_snapshot fun s => ?_
  rw [transactionResult_snapshot]
  refine andThen_preserves (P := fun t : AttentionState => t.snapshot = s.snapshot)
    (forEach_preserves (P := fun t : AttentionState => t.snapshot = s.snapshot)
      (fun j _ t ht => (preflightLayer_snapshot j t).trans ht) rfl) fun t ht => ?_
  split
  · exact ht
  split
  · exact ht
  split
  · exact ht
  · exact andThen_preserves (P := fun u : AttentionState => u.snapshot = s.snapshot)
      ((stateCancelCheck_snapshot _ t _ _ _).trans ht) fun u hu => hu

theorem stateCancelPreparedPublish_snapshot :
    (stateCancelPreparedPublish st).snapshot = st.snapshot := by
  unfold stateCancelPreparedPublish
  split <;> rfl

theorem content_abortLayer : (abortLayer l).clearDeltas.content = l.content := by
  by_cases h : l.banksSynchronized = true
  · simp only [abortLayer, h, if_true]
    exact content_eq rfl
  · have hr := content_bankRestoreCandidate l
    simp only [abortLayer, h]
    exact (content_eq rfl).trans hr

theorem stateAbort_snapshot :
    (stateAbort env st).state.snapshot = st.snapshot := by
  unfold stateAbort
  split
  · rfl
  dsimp only
  split
  · rfl
  split
  · rfl
  have la : (fun i => (if i < st.layerCount then
      (abortLayer (st.layers i)).clearDeltas else st.layers i).content) =
      fun i => (st.layers i).content := by
    funext i
    split
    · exact content_abortLayer _
    · rfl
  exact congrArg (fun c => { st.snapshot with layers := c }) la

theorem statePublish_refused {refusal : Refusal} {left : AttentionState}
    (h : statePublish sha env st = .refused refusal left) : left.snapshot = st.snapshot := by
  have prepared := statePreparePublish_snapshot sha env st
  unfold statePublish at h
  cases hp : statePreparePublish sha env st with
  | done => simp [hp] at h
  | refused =>
    rw [hp] at h prepared
    cases h
    exact prepared

inductive TransactionCall where
  | begin (env : Environment) (layerIndex tokenPosition tokenCount : ℕ)
      (cancellation : Option Cancellation)
  | apply (env : Environment) (publication : Option Publication)
      (cancellation : Option Cancellation)
  | selectPrefix (env : Environment) (prefixCount extensionCount : ℕ)
  | prepareThenCancel (env : Environment)
  | refusedPublish (env : Environment)
  | abort (env : Environment)

def TransactionCall.run (sha : Sha256) (state : AttentionState) :
    TransactionCall → AttentionState
  | .begin env layerIndex tokenPosition tokenCount cancellation =>
    (stateBegin env layerIndex tokenPosition tokenCount cancellation state).state
  | .apply env publication cancellation =>
    (stateApply sha env publication cancellation state).state.1
  | .selectPrefix env prefixCount extensionCount =>
    (stateSelectPrefix sha env prefixCount extensionCount state).state
  | .prepareThenCancel env =>
    stateCancelPreparedPublish (statePreparePublish sha env state).state
  | .refusedPublish env => match statePublish sha env state with
    | .refused _ left => left
    | .done _ => state
  | .abort env => (stateAbort env state).state

theorem transactionCall_snapshot
    (ca : TransactionCall) : (ca.run sha st).snapshot = st.snapshot := by
  cases ca with
  | begin he la tp tc c => exact stateBegin_snapshot he st la tp tc c
  | apply he p c => exact stateApply_snapshot sha he st p c
  | selectPrefix he pr e => exact stateSelectPrefix_snapshot sha he pr e st
  | prepareThenCancel he =>
    exact (stateCancelPreparedPublish_snapshot _).trans (statePreparePublish_snapshot sha he st)
  | refusedPublish he =>
    simp only [TransactionCall.run]
    split
    · next hr => exact statePublish_refused sha he st hr
    · rfl
  | abort he => exact stateAbort_snapshot he st

/-- Whatever was committed last stays what every reader of the committed state
sees, through any calls of any transactions that do not publish. -/
theorem transactions_keep_committed_state (sha : Sha256) (state : AttentionState)
    (calls : List TransactionCall) :
    (calls.foldl (TransactionCall.run sha) state).snapshot = state.snapshot := by
  induction calls generalizing state with
  | nil => rfl
  | cons call rest ih =>
    rw [List.foldl_cons, ih]
    exact transactionCall_snapshot sha state call

end Yvex.Provider
