import Yvex.SessionResolution

/-!
# One owner at a time

Begin takes the session in one critical section, validates the engine outside
the lock, and gives the session back in a second one if that fails. Finishing a
scope commits or aborts one provider; an active sequence state is always aborted
here, since only a coordinated finish may publish it. Threads begin and finish
executions of one session in any order, each critical section being one step. The
owner may change its own providers and sequence state while it executes.
-/

set_option autoImplicit false

namespace Yvex.Session

open AttentionData CheckedArithmetic Provider StateRecipe TwoPhase

inductive EngineFailureCode where
  | invalidArgument
  | drift
  | busy
  | cancelled
  | cleanup
  deriving DecidableEq, Repr

structure EngineFailure where
  code : EngineFailureCode
  field : String
  expected : ℕ
  actual : ℕ
  reason : String

structure EngineRefusal where
  status : Status
  site : String
  reason : String
  failure : Option EngineFailure

def engineReject (code : EngineFailureCode) (field : String) (expected actual : ℕ)
    (reason : String) (status : Status) : EngineRefusal :=
  ⟨status, "runtime.model", reason, some ⟨code, field, expected, actual, reason⟩⟩

def beginClaim (lockAvailable : Bool) (thread : ℕ) (session : ExecutionSession) :
    Except EngineRefusal ExecutionSession :=
  if !lockAvailable then
    .error (engineReject .invalidArgument "session" 1 0 "open runtime session is required"
      .invalidArg)
  else if !session.engineCurrent || session.invalidated then
    .error (engineReject .drift "session-invalidated" 0 1 "artifact drift invalidated session"
      .state)
  else if !session.isOpen || session.closing then
    .error (engineReject .busy "session-closing" 0 1 "runtime session is closing" .state)
  else if session.busy then
    .error (engineReject .busy "session-busy" 0 1 "runtime session already owns an execution"
      .state)
  else if session.cancelled then
    .error (engineReject .cancelled "session-cancelled" 0 1 "session cancelled" .cancelled)
  else .ok { session with busy := true, owner := some thread }

def beginValidated (validation : Option EngineRefusal) (lockAvailable : Bool)
    (session : ExecutionSession) : Option EngineRefusal × ExecutionSession :=
  -- The second critical section, entered with the engine's answer. If the lock cannot be
  -- taken again the session stays claimed.
  match validation with
  | none => (none, session)
  | some refusal =>
    if !lockAvailable then
      (some ⟨.state, "runtime.session.begin",
        "runtime session synchronization could not be reacquired",
        some ⟨.cleanup, "session-busy-release", 0, 1,
          "failed model validation could not release session ownership"⟩⟩, session)
    else (some refusal, { session with owner := none, busy := false })

inductive Disposition where
  | commit
  | abort
  | stage
  deriving DecidableEq, Repr

structure ScopeEnvironment extends FinishEnvironment where
  counterFault : Bool
  deviceZero : Bool → Option Refusal
  graphRegistry : Option Refusal

def invalidateOwner (env : OwnerEnvironment) (owner : StateOwner) :
    Option Refusal × StateOwner :=
  let step := stateInvalidate env.invalidate owner.provider
  (stepError step, { owner with
    provider := step.state
    residency := owner.residency.map residencyInvalidate })

def sessionInvalidate (env : ScopeEnvironment) (session : ExecutionSession) :
    Option Refusal × ExecutionSession :=
  let target := onOwner .target (invalidateOwner (env.owner .target)) (session, ())
  let draft := onOwner .draft (invalidateOwner (env.owner .draft)) target.2
  let sequence := onSequence (sequenceStateInvalidate env.deviceZero) draft.2
  (target.1.or (draft.1.or (sequence.1.or env.graphRegistry)), sequence.2.1)

def Cleanup.noteError (cleanup : Cleanup) : Option Refusal → Cleanup
  | none => cleanup
  | some refusal => cleanup.note true refusal

def scopeSummary (sha : Sha256) (env : ScopeEnvironment) (scope : Scope)
    (session : ExecutionSession) : Cleanup × Option SummaryCopy :=
  match session.stateOwner scope with
  | none => (⟨some .state, none⟩, none)
  | some owner =>
    match stateSummaryCopy sha (env.owner scope).summary owner.provider with
    | .error refusal => (⟨some refusal.status, some refusal⟩, none)
    | .ok copy => (.clear, some copy)

def sequenceRefused (session : ExecutionSession) : Option Refusal :=
  session.sequence.bind sequenceSummaryRefusal

def sequenceRunning (session : ExecutionSession) : Bool :=
  (sequenceRefused session).isNone &&
    session.sequence.any fun sequence => sequence.transactionActive

def scopeCleanup (env : ScopeEnvironment) (succeeded : Bool) (session : ExecutionSession)
    (cleanup : Cleanup) (copy : Option SummaryCopy) : Cleanup :=
  let summarised := cleanup.noteError (sequenceRefused session)
  let uncoordinated := summarised.note (succeeded && sequenceRunning session)
    (errorOnly .state "runtime.session.sequence-state"
      "recurrent state requires coordinated transaction finalization")
  let invalidated := uncoordinated.note (copy.any fun copy => copy.summary.invalidated)
    (errorOnly .state "runtime.session.state" "runtime attention state is invalidated")
  let incomplete := invalidated.note (succeeded && copy.any fun copy => copy.candidateActive)
    (errorOnly .state "runtime.session.state"
      "successful execution left an incomplete layer candidate")
  incomplete.note (succeeded && (env.counterFault || (u64Add session.executionCount 1).isNone))
    (errorOnly .bounds "runtime.session.counter"
      "runtime session execution counter overflowed")

def scopeTransaction (sha : Sha256) (env : ScopeEnvironment) (scope : Scope) (committing : Bool)
    (session : ExecutionSession) : Option Refusal × ExecutionSession :=
  let participant := stateParticipant sha (env.owner scope) scope
  let world := (session.withFreshParticipants, ())
  if committing then
    let result := resolve [(ParticipantName.state scope, participant)] none world
    (result.error, result.world.1)
  else ((participant.abort world).1, (participant.abort world).2.1)

def scopeTransactionNeeded (failed : Bool) (scope : Scope) (copy : Option SummaryCopy)
    (session : ExecutionSession) : Bool :=
  (session.stateOwner scope).isSome &&
    (copy.any (fun copy => copy.summary.transactionActive) || failed ||
      session.invalidationPending)

def Cleanup.replace (cleanup : Cleanup) : Option Refusal → Cleanup
  | none => cleanup
  | some refusal => ⟨some refusal.status, some refusal⟩

def scopeSequence (status : Option Refusal) (running : Bool) (cleanup : Cleanup)
    (session : ExecutionSession) : Cleanup × ExecutionSession :=
  -- Aborts an active sequence state. An error that only repeats the status the abort was
  -- called with is not a new one.
  if !running then (cleanup, session)
  else
    let code := ((status.map (·.status)).or cleanup.status).getD .state
    let primary := errorOnly code "runtime.transaction" "transaction failed before publication"
    let noted (error : Option Refusal) : Cleanup :=
      cleanup.noteError (error.filter fun refusal => refusal.status != code)
    if session.sequence.any (fun sequence => sequence.invalidated) then
      (noted (some (sequenceRefusal .state "an active recurrent state transaction is required")),
        session)
    else
      let result := resolve [(ParticipantName.sequence, sequenceParticipant)] (some primary)
        (session, ())
      (noted result.error, result.world.1)

def scopeInvalidation (env : ScopeEnvironment) (succeeded : Bool) (cleanup : Cleanup)
    (session : ExecutionSession) : Cleanup × ExecutionSession :=
  if !session.invalidationPending then (cleanup, session)
  else match sessionInvalidate env session with
  | (some refusal, session) => (cleanup.note true refusal, session)
  | (none, session) =>
    (cleanup.note succeeded (errorOnly .state "runtime.session.invalidated"
      "runtime session was invalidated during execution"),
      { session with invalidationPending := false })

def countScopeFailure (env : ScopeEnvironment) (status : Status) (session : ExecutionSession) :
    ExecutionSession :=
  if env.counterFault then session else countFailure status session

def scopeSettle (env : ScopeEnvironment) (status : Option Refusal) (cleanup : Cleanup)
    (session : ExecutionSession) : ExecutionSession :=
  let counted := match (status.map (·.status)).or cleanup.status with
    | none => { session with executionCount := session.executionCount + 1 }
    | some code =>
      let counted := countScopeFailure env code session
      { counted with invalidated := counted.invalidated ||
          cleanup.status.any fun code => code != Status.cancelled }
  { counted with owner := none, busy := false }

def scopeError (status : Option Refusal) (cleanup : Cleanup) : Option Refusal :=
  -- A provider that is not ready leaves a status without an error text.
  match cleanup.status with
  | some code => some { cleanup.error.getD (errorOnly code "" "") with status := code }
  | none => status

def finishRefusal (reason : String) : Refusal :=
  errorOnly .state "runtime.session.finish" reason

def scopeOwned (session : ExecutionSession) (thread : ℕ) : Bool :=
  session.isOpen && session.busy && ownedBy session thread

def finishScopeOwned (sha : Sha256) (env : ScopeEnvironment) (scope : Scope)
    (disposition : Disposition) (status : Option Refusal) (session : ExecutionSession) :
    Option Refusal × ExecutionSession :=
  let succeeded := status.isNone
  let running := sequenceRunning session
  let (summarised, copy) := scopeSummary sha env scope session
  let checked := scopeCleanup env succeeded session summarised copy
  let failed := !succeeded || checked.status.isSome
  let committing := !failed && !session.invalidationPending && disposition = .commit
  let (transacted, session) :=
    if scopeTransactionNeeded failed scope copy session then
      let (error, session) := scopeTransaction sha env scope committing session
      (checked.replace error, session)
    else (checked, session)
  let (sequenced, session) := scopeSequence status running transacted session
  let (cleanup, session) := scopeInvalidation env succeeded sequenced session
  (scopeError status cleanup, scopeSettle env status cleanup session)

def finishScope (sha : Sha256) (env : ScopeEnvironment) (thread : ℕ) (scope : Scope)
    (disposition : Disposition) (status : Option Refusal) (session : ExecutionSession) :
    Option Refusal × ExecutionSession :=
  if disposition = .stage || !env.lockAvailable then
    (some (finishRefusal "busy synchronized runtime session is required"), session)
  else if !scopeOwned session thread then
    (some (finishRefusal "runtime session has no active execution to finish"), session)
  else finishScopeOwned sha env scope disposition status session

variable {ω : Type}

inductive Phase where
  | idle
  | validating
  | executing
  deriving DecidableEq, Repr

structure Runtime (ω : Type) where
  session : ExecutionSession
  phase : ℕ → Phase
  world : ω

inductive Action (ω : Type) where
  | claim (lockAvailable : Bool)
  | validated (validation : Option EngineRefusal) (lockAvailable : Bool)
  | work (stateOwner : Scope → Option StateOwner) (sequence : Option SequenceState)
  | finishScope (env : ScopeEnvironment) (scope : Scope) (disposition : Disposition)
      (status : Option Refusal)
  | finishCoordinated (env : FinishEnvironment) (status : Option Refusal)
      (externals : List (External ω))

def Runtime.enter (runtime : Runtime ω) (thread : ℕ) (phase : Phase)
    (session : ExecutionSession) : Runtime ω :=
  { runtime with session := session, phase := Function.update runtime.phase thread phase }

def finishScopeAdmitted (env : ScopeEnvironment) (disposition : Disposition) (thread : ℕ)
    (session : ExecutionSession) : Bool :=
  disposition != .stage && env.lockAvailable && scopeOwned session thread

def finishCoordinatedAdmitted (env : FinishEnvironment) (externals : List (External ω)) : Bool :=
  env.lockAvailable && externals.length ≤ externalCap

/-- One step of a thread. A thread inside begin can only leave it, and only an
executing thread changes what the session owns; any other combination is no step. -/
def threadStep (sha : Sha256) (runtime : Runtime ω) (thread : ℕ) : Action ω → Runtime ω
  | .claim lockAvailable =>
    if runtime.phase thread = .validating then runtime
    else match beginClaim lockAvailable thread runtime.session with
    | .error _ => runtime
    | .ok session => runtime.enter thread .validating session
  | .validated validation lockAvailable =>
    if runtime.phase thread = .validating then
      let (error, session) := beginValidated validation lockAvailable runtime.session
      runtime.enter thread (if error.isNone then .executing else .idle) session
    else runtime
  | .work stateOwner sequence =>
    if runtime.phase thread = .executing then
      { runtime with session := { runtime.session with
          stateOwner := stateOwner
          sequence := sequence } }
    else runtime
  | .finishScope env scope disposition status =>
    if runtime.phase thread = .validating then runtime
    else
      let (_, session) := finishScope sha env thread scope disposition status runtime.session
      runtime.enter thread (if finishScopeAdmitted env disposition thread runtime.session
        then .idle else runtime.phase thread) session
  | .finishCoordinated env status externals =>
    if runtime.phase thread = .validating then runtime
    else
      let finished := finishCoordinated sha env thread status externals runtime.session
        runtime.world
      { runtime.enter thread (if finishCoordinatedAdmitted env externals then .idle
          else runtime.phase thread) finished.session with world := finished.world }

def execute (sha : Sha256) : Runtime ω → List (ℕ × Action ω) → Runtime ω
  | runtime, [] => runtime
  | runtime, (thread, action) :: rest => execute sha (threadStep sha runtime thread action) rest

/-- A coordinated finish that is admitted while the session is owned comes from
the owner. -/
def Respects (runtime : Runtime ω) (thread : ℕ) : Action ω → Prop
  | .finishCoordinated env _ externals => finishCoordinatedAdmitted env externals = true →
      ∀ owner, runtime.session.owner = some owner → owner = thread
  | _ => True

def RespectsAlong (sha : Sha256) : Runtime ω → List (ℕ × Action ω) → Prop
  | _, [] => True
  | runtime, (thread, action) :: rest => Respects runtime thread action ∧
      RespectsAlong sha (threadStep sha runtime thread action) rest

structure Exclusive (runtime : Runtime ω) : Prop where
  busy : runtime.session.busy = runtime.session.owner.isSome
  owner : ∀ thread, runtime.phase thread ≠ .idle → runtime.session.owner = some thread

structure Undisturbed (before after : Runtime ω) : Prop where
  session : after.session = before.session
  phase : after.phase = before.phase

variable {rt : Runtime ω}

theorem Exclusive.unique (hex : Exclusive rt) {t u : ℕ} (ht : rt.phase t ≠ .idle)
    (hu : rt.phase u ≠ .idle) : t = u := by
  have hs := (hex.owner t ht).symm.trans (hex.owner u hu)
  exact Option.some.inj hs

theorem scopeSettle_released (env : ScopeEnvironment) (st : Option Refusal)
    (cleanup : Cleanup) (s : ExecutionSession) :
    (scopeSettle env st cleanup s).owner = none ∧ (scopeSettle env st cleanup s).busy = false :=
  ⟨rfl, rfl⟩

variable {sha : Sha256} {scope : Scope} {d : Disposition} {c : ExecutionSession}
  {st : Option Refusal} {th : ℕ} {env : ScopeEnvironment}

theorem finishScope_of_not_admitted (h : finishScopeAdmitted env d th c = false) :
    (finishScope sha env th scope d st c).2 = c := by
  unfold finishScope
  split
  · rfl
  rename_i he
  simp only [Bool.or_eq_true, decide_eq_true_eq, Bool.not_eq_true', not_or,
    Bool.not_eq_false] at he
  have hu : scopeOwned c th = false := by simpa [finishScopeAdmitted, he] using h
  simp [hu]

theorem finishScope_of_admitted (h : finishScopeAdmitted env d th c = true) :
    (finishScope sha env th scope d st c).2.owner = none ∧
      (finishScope sha env th scope d st c).2.busy = false := by
  simp only [finishScopeAdmitted, Bool.and_eq_true, bne_iff_ne] at h
  obtain ⟨⟨hd, hl⟩, ho⟩ := h
  simp only [finishScope, hd, hl, ho]
  exact scopeSettle_released _ _ _ _

theorem owner_of_scopeOwned (h : scopeOwned c th = true) : c.owner = some th := by
  simp only [scopeOwned, ownedBy, Bool.and_eq_true, beq_iff_eq] at h
  exact h.2

variable {env : FinishEnvironment}

theorem finishCoordinated_of_not_admitted {th : ℕ} {st : Option Refusal} {ex : List (External ω)}
    {s : ExecutionSession} {w : ω} (h : finishCoordinatedAdmitted env ex = false) :
    (finishCoordinated sha env th st ex s w).session = s := by
  have hr : externalCap < ex.length ∨ (!env.lockAvailable) = true := by
    simp only [finishCoordinatedAdmitted, Bool.and_eq_false_iff, decide_eq_false_iff_not,
      not_le] at h
    rcases h with h | h
    · exact .inr (by simp [h])
    · exact .inl h
  rw [finishCoordinated, if_pos hr]

theorem settle_released (b : Bool) (e : Option Refusal) (s : ExecutionSession) :
    (settle b e s).owner = none ∧ (settle b e s).busy = false := ⟨rfl, rfl⟩

theorem finishCoordinated_of_admitted {th : ℕ} {st : Option Refusal} {ex : List (External ω)}
    {s : ExecutionSession} {w : ω} (h : finishCoordinatedAdmitted env ex = true) :
    (finishCoordinated sha env th st ex s w).session.owner = none ∧
      (finishCoordinated sha env th st ex s w).session.busy = false := by
  have ha : ¬(externalCap < ex.length ∨ (!env.lockAvailable) = true) := by
    simp only [finishCoordinatedAdmitted, Bool.and_eq_true, decide_eq_true_eq] at h
    simp [h.1, h.2]
  rw [finishCoordinated, if_neg ha]
  exact settle_released _ _ _

theorem enter_self (th : ℕ) {s : ExecutionSession} (hs : s = rt.session) :
    rt.enter th (rt.phase th) s = rt := by
  simp [Runtime.enter, hs]

/-- Giving up the session is exclusive again if no one else owned it. -/
theorem Exclusive.release (hex : Exclusive rt) {th : ℕ}
    (hal : ∀ o, rt.session.owner = some o → o = th)
    {s : ExecutionSession} (hr : s.owner = none ∧ s.busy = false) :
    Exclusive (rt.enter th .idle s) where
  busy := by simp [Runtime.enter, hr]
  owner := by
    intro ot hi
    by_cases hs : ot = th
    · simp [Runtime.enter, hs] at hi
    · simp only [Runtime.enter, Function.update_of_ne hs] at hi
      exact absurd (hal ot (hex.owner ot hi)) hs

variable {l : Bool}

theorem beginClaim_ok {s : ExecutionSession} (h : beginClaim l th s = .ok c) :
    s.busy = false ∧ c = { s with busy := true, owner := some th } := by
  unfold beginClaim at h
  split at h
  · cases h
  split at h
  · cases h
  split at h
  · cases h
  split at h
  · cases h
  rename_i hf
  split at h
  · cases h
  · cases h
    exact ⟨by simpa using hf, rfl⟩

theorem exclusive_claim (hex : Exclusive rt) (h : beginClaim l th rt.session = .ok c) :
    Exclusive (rt.enter th .validating c) := by
  obtain ⟨hf, rfl⟩ := beginClaim_ok h
  refine ⟨rfl, fun o hi => ?_⟩
  by_cases hs : o = th
  · rw [hs]
    rfl
  simp only [Runtime.enter, Function.update_of_ne hs] at hi
  have ho := hex.owner o hi
  have hb := hex.busy
  rw [hf, ho] at hb
  cases hb

theorem exclusive_validated (hex : Exclusive rt)
    (hi : rt.phase th = .validating) (v : Option EngineRefusal)
    (l : Bool) :
    Exclusive (rt.enter th
      (if (beginValidated v l rt.session).1.isNone then .executing
        else .idle)
      (beginValidated v l rt.session).2) := by
  have ho := hex.owner th (by simp [hi])
  have hal : ∀ o, rt.session.owner = some o → o = th := by
    intro o hh
    exact Option.some.inj (hh.symm.trans ho)
  have hk : ∀ p, Exclusive (rt.enter th p rt.session) := by
    intro p
    refine ⟨hex.busy, fun ot he => ?_⟩
    by_cases hs : ot = th
    · rw [hs]
      exact ho
    · simp only [Runtime.enter, Function.update_of_ne hs] at he
      exact hex.owner ot he
  cases v with
  | none => exact hk _
  | some =>
    cases l with
    | false => exact hk _
    | true => exact hex.release hal ⟨rfl, rfl⟩

variable {a : Action ω}

/-- Each step leaves the session with one owner, or none. -/
theorem exclusive_step (sha : Sha256) (he : Exclusive rt) {th : ℕ}
    (hre : Respects rt th a) : Exclusive (threadStep sha rt th a) := by
  cases a with simp only [threadStep]
  | claim l =>
    split
    · exact he
    split
    · exact he
    · rename_i hc
      exact exclusive_claim he hc
  | validated v l =>
    split
    · rename_i hi
      exact exclusive_validated he hi v l
    · exact he
  | work =>
    split
    · exact ⟨he.busy, he.owner⟩
    · exact he
  | finishScope env scope d =>
    split
    · exact he
    cases ha : finishScopeAdmitted env d th rt.session with
    | false =>
      simp only [Bool.false_eq_true, if_false]
      rw [enter_self th (finishScope_of_not_admitted ha)]
      exact he
    | true =>
      have ho : scopeOwned rt.session th = true := by
        simp only [finishScopeAdmitted, Bool.and_eq_true] at ha
        exact ha.2
      refine he.release (fun o hh => ?_) (finishScope_of_admitted ha)
      exact Option.some.inj (hh.symm.trans (owner_of_scopeOwned ho))
  | finishCoordinated env st ex =>
    split
    · exact he
    cases ha : finishCoordinatedAdmitted env ex with
    | false =>
      have hs := enter_self th
        (@finishCoordinated_of_not_admitted ω sha env th st ex rt.session rt.world ha)
      simp only [Bool.false_eq_true, if_false]
      rw [hs]
      exact ⟨he.busy, he.owner⟩
    | true =>
      have hr := he.release (hre ha)
        (@finishCoordinated_of_admitted ω sha env th st ex rt.session rt.world ha)
      exact ⟨hr.busy, hr.owner⟩

theorem exclusive_execute (sha : Sha256) (hex : Exclusive rt)
    {ss : List (ℕ × Action ω)} (hr : RespectsAlong sha rt ss) :
    Exclusive (execute sha rt ss) := by
  induction ss generalizing rt with
  | nil => exact hex
  | cons head r ih => exact ih (exclusive_step sha hex hr.1) hr.2

/-- A thread that does not own the session leaves its owner undisturbed. -/
theorem undisturbed_step (sha : Sha256) (hex : Exclusive rt) {th o : ℕ}
    (ho : rt.session.owner = some o) (ne : o ≠ th) (hre : Respects rt th a) :
    Undisturbed rt (threadStep sha rt th a) := by
  have hid : rt.phase th = .idle := by
    by_contra hi
    exact ne (Option.some.inj (ho.symm.trans (hex.owner th hi)))
  have hb : rt.session.busy = true := by rw [hex.busy, ho]; rfl
  cases a with
  | claim l =>
    simp only [threadStep, hid]
    cases c : beginClaim l th rt.session with
    | error => exact ⟨rfl, rfl⟩
    | ok =>
      have hf := (beginClaim_ok c).1
      rw [hb] at hf
      cases hf
  | validated | work =>
    simp only [threadStep, hid]
    exact ⟨rfl, rfl⟩
  | finishScope he scope d =>
    have hr : finishScopeAdmitted he d th rt.session = false := by
      by_contra ha
      simp only [finishScopeAdmitted, Bool.not_eq_false, Bool.and_eq_true] at ha
      exact ne (Option.some.inj (ho.symm.trans (owner_of_scopeOwned ha.2)))
    simp only [threadStep, hr, Bool.false_eq_true, if_false]
    rw [enter_self th (finishScope_of_not_admitted hr), ite_self]
    exact ⟨rfl, rfl⟩
  | finishCoordinated he st ex =>
    have hr : finishCoordinatedAdmitted he ex = false := by
      by_contra ha
      exact ne (hre (by simpa using ha) o ho)
    have hs := enter_self th
      (@finishCoordinated_of_not_admitted ω sha he th st ex rt.session rt.world hr)
    simp only [threadStep, hr, Bool.false_eq_true, if_false]
    rw [hs]
    split <;> exact ⟨rfl, rfl⟩

def Runtime.start (session : ExecutionSession) (world : ω) : Runtime ω :=
  ⟨session, fun _ => .idle, world⟩

theorem exclusive_start (hf : c.busy = false)
    (hu : c.owner = none) (w : ω) : Exclusive (Runtime.start c w) where
  busy := by simp [Runtime.start, hf, hu]
  owner := by
    intro th hi
    exact absurd rfl hi

/-- From a free session, whatever begins and finishes any threads interleave: at
most one thread is inside an execution, it is the owner, and no step of another
thread disturbs it. -/
theorem session_ownership_exclusive (sha : Sha256) (session : ExecutionSession)
    (free : session.busy = false) (unowned : session.owner = none) (world : ω)
    (steps : List (ℕ × Action ω))
    (respects : RespectsAlong sha (Runtime.start session world) steps) :
    let runtime := execute sha (Runtime.start session world) steps
    (∀ t u, runtime.phase t ≠ .idle → runtime.phase u ≠ .idle → t = u) ∧
    (∀ t, runtime.phase t ≠ .idle →
      runtime.session.owner = some t ∧ runtime.session.busy = true) ∧
    ∀ owner thread action, runtime.session.owner = some owner → owner ≠ thread →
      Respects runtime thread action →
      Undisturbed runtime (threadStep sha runtime thread action) := by
  intro runtime
  have exclusive : Exclusive runtime :=
    exclusive_execute sha (exclusive_start free unowned world) respects
  refine ⟨fun t u ht hu => exclusive.unique ht hu, fun t inside => ?_,
    fun owner thread action owned ne admitted => undisturbed_step sha exclusive owned ne admitted⟩
  have owned := exclusive.owner t inside
  refine ⟨owned, ?_⟩
  rw [exclusive.busy, owned]
  rfl

def freeSession : ExecutionSession :=
  { stagedSession with busy := false, owner := none, sequence := none }

def stagingSteps : List (ℕ × Action Unit) :=
  [(0, .claim true), (0, .validated none true),
    (0, .work (fun _ => none) (some stagedSequence))]

-- the owner finishes its staged execution, and thread 1 begins one of its own
def handoverSteps : List (ℕ × Action Unit) :=
  stagingSteps ++ [(0, .finishCoordinated calmFinish none []), (1, .claim true),
    (1, .validated none true)]

theorem session_ownership_exclusive_staging :
    let runtime := execute fixedDigest (Runtime.start freeSession ()) handoverSteps
    RespectsAlong fixedDigest (Runtime.start freeSession ()) handoverSteps ∧
    runtime.phase 0 = .idle ∧ runtime.phase 1 = .executing ∧ runtime.session.owner = some 1 ∧
    Undisturbed runtime (threadStep fixedDigest runtime 0 (.claim true)) := by
  have respects : RespectsAlong fixedDigest (Runtime.start freeSession ()) handoverSteps :=
    ⟨trivial, trivial, trivial, fun _ _ owned => (Option.some.inj owned).symm, trivial, trivial,
      trivial⟩
  obtain ⟨_, owned, undisturbed⟩ := session_ownership_exclusive fixedDigest freeSession rfl rfl ()
    handoverSteps respects
  refine ⟨respects, rfl, rfl, (owned 1 (by decide)).1, ?_⟩
  exact undisturbed 1 0 (.claim true) rfl (by decide) trivial

def cancelledRefusal : Refusal := errorOnly .cancelled "runtime.session" "execution cancelled"

/-- Thread 1, which owns nothing, finishes the session under thread 0: the staged
sequence state is aborted, the session is released, and thread 2 can begin while
thread 0 still executes. -/
theorem foreign_coordinated_finish_releases_session :
    let staged := execute fixedDigest (Runtime.start freeSession ()) stagingSteps
    let finished := threadStep fixedDigest staged 1
      (.finishCoordinated calmFinish (some cancelledRefusal) [])
    let claimed := threadStep fixedDigest finished 2 (.claim true)
    (staged.session.owner = some 0 ∧ staged.session.busy = true ∧
      sequenceActive staged.session.sequence) ∧
    (finished.session.owner = none ∧ finished.session.busy = false ∧
      ¬sequenceActive finished.session.sequence) ∧
    claimed.session.owner = some 2 ∧ claimed.phase 0 = .executing ∧
      claimed.phase 2 = .validating := by
  refine ⟨⟨rfl, rfl, stagedSequence, rfl, rfl⟩, ⟨rfl, rfl, ?_⟩, rfl, rfl, rfl⟩
  rintro ⟨sequence, ⟨⟩, active⟩
  cases active

end Yvex.Session
