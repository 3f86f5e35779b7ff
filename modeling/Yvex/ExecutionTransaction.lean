import Yvex.RefusableStep
import Yvex.Runs
import Yvex.StateRecipe

/-!
# Execution transactions

A transaction runs its admitted quanta one after the other through a callback,
with a safe point after each, and then publishes once. Cancellation is asked for
at safe points, before each quantum, on resumption and before publication. The
callbacks it has called are at every moment one of a few words: the quanta that
ran, then at most one failed quantum or one publication, then at most one discard,
then the attempts to release the resource. One call keeps this shape, whatever its
callbacks answer.
-/

set_option autoImplicit false

namespace Yvex.ExecutionTransaction

open AttentionData RefusableStep StateRecipe

inductive TransactionState where
  | prepared
  | executing
  | safe
  | yielded
  | readyToCommit
  | committed
  | aborted
  deriving DecidableEq, Repr

inductive SafePointAction where
  | continue
  | yield
  | cancel
  | commit
  deriving DecidableEq, Repr

inductive Effect where
  | executed (ordinal : ℕ) (ok : Bool)
  | published (ok : Bool)
  | discarded
  | released (ok : Bool)
  deriving DecidableEq, Repr

structure ResourceLease where
  identity : Option Identity
  context : Bool
  retain : Bool
  release : Bool

structure Options where
  requestIdentity : Option Identity
  quantumCount : ℕ
  resource : Option ResourceLease
  execute : Bool
  cancelRequested : Bool
  yieldRequested : Bool
  publish : Bool
  discard : Bool

structure Transaction where
  options : Options
  state : TransactionState
  admittedQuanta : ℕ
  startedQuanta : ℕ
  completedQuanta : ℕ
  safePoints : ℕ
  yields : ℕ
  resumes : ℕ
  cancellations : ℕ
  publications : ℕ
  discards : ℕ
  retainedResources : ℕ
  requestIdentity : Identity
  resourceIdentity : Identity
  resourceRetained : Bool
  discarded : Bool

structure CallbackFailure where
  status : Status
  error : Option Refusal

structure Answers where
  cancelBefore : Bool
  cancelAfter : Bool
  yieldRequested : Bool
  execute : Option CallbackFailure
  publish : Option CallbackFailure
  release : Option Refusal

structure Live where
  transaction : Transaction
  effects : List Effect

def transactionRefuse (status : Status) (reason : String) : Refusal :=
  errorOnly status "runtime.execution-transaction" reason

def CallbackFailure.refusal (failure : CallbackFailure) (reason : String) : Refusal :=
  failure.error.getD (transactionRefuse failure.status reason)

def Live.note (live : Live) (given : Bool) (effect : Effect) : Live :=
  { live with effects := if given then live.effects ++ [effect] else live.effects }

def transactionDiscard (live : Live) : Live :=
  if live.transaction.discarded || live.transaction.publications != 0 then live
  else
    let noted := live.note live.transaction.options.discard .discarded
    { noted with transaction := { live.transaction with
      discarded := true
      discards := live.transaction.discards + 1 } }

def setState (live : Live) (state : TransactionState) : Live :=
  { live with transaction := { live.transaction with state := state } }

def transactionCancel (live : Live) : Live :=
  setState (transactionDiscard { live with transaction := { live.transaction with
    cancellations := live.transaction.cancellations + 1 } }) .aborted

def cancelRequested (live : Live) (answer : Bool) : Bool :=
  live.transaction.options.cancelRequested && answer

def leaseComplete (resource : ResourceLease) : Bool :=
  resource.identity.any hexValid && resource.context && resource.retain && resource.release

def optionsComplete (options : Options) : Bool :=
  options.requestIdentity.any hexValid && options.quantumCount != 0 && options.execute &&
    options.resource.all leaseComplete

def transactionOpen (options : Options) (allocated : Bool) (retain : Option Refusal) :
    Except Refusal Live :=
  if !optionsComplete options then
    .error (transactionRefuse .invalidArg
      "one bounded identity-bound execution request is required")
  else if !allocated then
    .error (transactionRefuse .nomem "execution transaction allocation failed")
  else match options.resource, retain with
  | some _, some refusal => .error refusal
  | resource, _ => .ok {
      effects := []
      transaction := {
        options := options
        state := .prepared
        admittedQuanta := options.quantumCount
        startedQuanta := 0
        completedQuanta := 0
        safePoints := 0
        yields := 0
        resumes := 0
        cancellations := 0
        publications := 0
        discards := 0
        retainedResources := if resource.isSome then 1 else 0
        requestIdentity := options.requestIdentity.getD []
        resourceIdentity := (resource.bind (·.identity)).getD []
        resourceRetained := resource.isSome
        discarded := false } }

def transactionQuantumBegin (ordinal : ℕ) (answers : Answers) (live : Live) :
    Outcome Refusal Live :=
  let transaction := live.transaction
  if (transaction.state ≠ .prepared ∧ transaction.state ≠ .safe) ∨
      ordinal ≠ transaction.completedQuanta ∨ transaction.admittedQuanta ≤ ordinal then
    .refused (transactionRefuse .state "the next admitted execution quantum is required") live
  else if cancelRequested live answers.cancelBefore then
    .refused (transactionRefuse .cancelled "execution was cancelled before the next quantum")
      (transactionCancel live)
  else .done { live with transaction := { transaction with
    state := .executing
    startedQuanta := transaction.startedQuanta + 1 } }

def transactionSafePoint (answers : Answers) (live : Live) :
    Outcome Refusal (Live × Option SafePointAction) :=
  if live.transaction.state ≠ .executing then
    .refused (transactionRefuse .state "one completed execution quantum is required")
      (live, none)
  else
    let transaction := { live.transaction with
      completedQuanta := live.transaction.completedQuanta + 1
      safePoints := live.transaction.safePoints + 1 }
    let live := { live with transaction := transaction }
    if cancelRequested live answers.cancelAfter then
      .done (setState (transactionDiscard { live with transaction := { transaction with
        cancellations := transaction.cancellations + 1 } }) .aborted, some .cancel)
    else if transaction.completedQuanta = transaction.admittedQuanta then
      .done (setState live .readyToCommit, some .commit)
    else if transaction.options.yieldRequested && answers.yieldRequested then
      .done (setState { live with transaction := { transaction with
        yields := transaction.yields + 1 } } .yielded, some .yield)
    else .done (setState live .safe, some .continue)

def transactionAbort (live : Live) : Outcome Refusal Live :=
  match live.transaction.state with
  | .committed => .refused (transactionRefuse .state
      "a committed execution transaction cannot be aborted") live
  | .aborted => .done live
  | _ => .done (setState (transactionDiscard live) .aborted)

def executeQuantum (answers : Answers) (live : Live) :
    Outcome Refusal (Live × Option SafePointAction) :=
  let ordinal := live.transaction.completedQuanta
  match transactionQuantumBegin ordinal answers live with
  | .refused refusal live => .refused refusal (live, none)
  | .done live =>
    match answers.execute with
    | some failure =>
      .refused (failure.refusal "execution quantum failed without an error")
        ((transactionAbort (live.note true (.executed ordinal false))).state, none)
    | none => transactionSafePoint answers (live.note true (.executed ordinal true))

def transactionResume (answers : Answers) (live : Live) : Outcome Refusal Live :=
  if live.transaction.state ≠ .yielded then
    .refused (transactionRefuse .state "a yielded execution transaction is required") live
  else if cancelRequested live answers.cancelBefore then
    .refused (transactionRefuse .cancelled "yielded execution was cancelled before resumption")
      (transactionCancel live)
  else .done { live with transaction := { live.transaction with
    state := .safe
    resumes := live.transaction.resumes + 1 } }

def transactionCommit (answers : Answers) (live : Live) : Outcome Refusal Live :=
  if live.transaction.state ≠ .readyToCommit then
    .refused (transactionRefuse .state
      "a fully executed transaction is required for publication") live
  else if cancelRequested live answers.cancelBefore then
    .refused (transactionRefuse .cancelled "execution was cancelled before publication")
      (transactionCancel live)
  else
    let publish := live.transaction.options.publish
    match publish, answers.publish with
    | true, some failure =>
      .refused (failure.refusal "transaction publication failed without an error")
        (setState (transactionDiscard (live.note true (.published false))) .aborted)
    | _, _ =>
      let noted := live.note publish (.published true)
      .done { noted with transaction := { live.transaction with
        state := .committed
        publications := live.transaction.publications + 1 } }

structure World where
  live : Live
  closed : Bool

def settled (live : Live) : Live :=
  if live.transaction.state = .committed ∨ live.transaction.state = .aborted then live
  else setState (transactionDiscard live) .aborted

def transactionClose (answers : Answers) (live : Live) : Outcome Refusal World :=
  let live := settled live
  match live.transaction.resourceRetained, answers.release with
  | true, some refusal => .refused refusal ⟨live.note true (.released false), false⟩
  | retained, _ => .done ⟨live.note retained (.released true), true⟩

inductive Call where
  | executeQuantum (action : Bool) (answers : Answers)
  | resume (answers : Answers)
  | commit (answers : Answers)
  | abort
  | close (answers : Answers)

def World.step (world : World) (call : Call) : World :=
  if world.closed then world
  else match call with
  | .executeQuantum action answers =>
    if action then { world with live := (executeQuantum answers world.live).state.1 } else world
  | .resume answers => { world with live := (transactionResume answers world.live).state }
  | .commit answers => { world with live := (transactionCommit answers world.live).state }
  | .abort => { world with live := (transactionAbort world.live).state }
  | .close answers => (transactionClose answers world.live).state

def ran (count : ℕ) : List Effect := (List.range count).map fun ordinal => .executed ordinal true

def given (present : Bool) (effect : Effect) : List Effect := if present then [effect] else []

def releases (attempts : ℕ) (done : Bool) : List Effect :=
  List.replicate attempts (.released false) ++ given done (.released true)

inductive Cut (options : Options) : List Effect → Prop where
  | between (count : ℕ) (few : count ≤ options.quantumCount) : Cut options (ran count)
  | quantum (count : ℕ) (few : count < options.quantumCount) :
      Cut options (ran count ++ [.executed count false])
  | publication : Cut options (ran options.quantumCount ++ [.published false])

structure Fixed (options : Options) (transaction : Transaction) : Prop where
  asked : transaction.options = options
  admitted : transaction.admittedQuanta = options.quantumCount
  retained : transaction.resourceRetained = options.resource.isSome

structure Ongoing (options : Options) (live : Live) (count : ℕ) : Prop where
  fixed : Fixed options live.transaction
  publications : live.transaction.publications = 0
  discarded : live.transaction.discarded = false
  completed : live.transaction.completedQuanta = count
  effects : live.effects = ran count

inductive Ended (options : Options) : TransactionState → List Effect → Prop where
  | committed : Ended options .committed
      (ran options.quantumCount ++ given options.publish (.published true))
  | aborted (before : List Effect) (cut : Cut options before) :
      Ended options .aborted (before ++ given options.discard .discarded)

theorem Ended.final {o : Options} {s : TransactionState} {done : List Effect}
    (h : Ended o s done) : s = .committed ∨ s = .aborted := by
  cases h with
  | committed => exact .inl rfl
  | aborted => exact .inr rfl

inductive Shape (options : Options) (world : World) : Prop where
  | running (count : ℕ) (held : world.closed = false)
      (state : world.live.transaction.state = .prepared ∨ world.live.transaction.state = .safe ∨
        world.live.transaction.state = .yielded)
      (ongoing : Ongoing options world.live count) (few : count < options.quantumCount)
  | ready (held : world.closed = false) (state : world.live.transaction.state = .readyToCommit)
      (ongoing : Ongoing options world.live options.quantumCount)
  | ended (fixed : Fixed options world.live.transaction) (done : List Effect)
      (ended : Ended options world.live.transaction.state done) (attempts : ℕ)
      (effects : world.live.effects =
        done ++ releases attempts (world.closed && options.resource.isSome))

section Steps

variable {o : Options} {lv : Live}

theorem ran_succ (n : ℕ) : ran (n + 1) = ran n ++ [.executed n true] := by
  simp [ran, List.range_succ]

theorem note_effects (lv : Live) (p : Bool) (e : Effect) :
    (lv.note p e).effects = lv.effects ++ given p e := by
  cases p <;> simp [Live.note, given]

variable {n q p : ℕ} {s : TransactionState} {es : List Effect}

theorem Ongoing.moved {m y r : ℕ} (h : Ongoing o lv n) (he : es = ran m) :
    Ongoing o ⟨{ lv.transaction with
      state := s
      startedQuanta := q
      completedQuanta := m
      safePoints := p
      yields := y
      resumes := r }, es⟩ m :=
  ⟨⟨h.fixed.asked, h.fixed.admitted, h.fixed.retained⟩, h.publications, h.discarded, rfl, he⟩

theorem Ongoing.between (h : Ongoing o lv n) (few : n ≤ o.quantumCount) : Cut o lv.effects := by
  rw [h.effects]
  exact .between n few

theorem Ongoing.discard {m c : ℕ} (h : Ongoing o lv n) (cut : Cut o es) :
    Shape o ⟨setState (transactionDiscard ⟨{ lv.transaction with
      state := s
      startedQuanta := q
      completedQuanta := m
      safePoints := p
      cancellations := c }, es⟩) .aborted, false⟩ := by
  simp only [transactionDiscard, h.publications, h.discarded]
  apply Shape.ended ⟨h.fixed.asked, h.fixed.admitted, h.fixed.retained⟩ _ (.aborted es cut) 0
  change (Live.note ⟨_, es⟩ lv.transaction.options.discard .discarded).effects = _
  rw [note_effects, h.fixed.asked]
  simp [releases, given]

theorem shape_safePoint (a : Answers) (h : Ongoing o lv n) (few : n < o.quantumCount) :
    Shape o ⟨(transactionSafePoint a ⟨{ lv.transaction with
      state := .executing
      startedQuanta := q }, ran (n + 1)⟩).state.1, false⟩ := by
  obtain rfl := h.completed
  unfold transactionSafePoint
  rw [if_neg (by simp)]
  dsimp only
  split
  · exact h.discard (.between _ few)
  split
  · next last =>
    rw [h.fixed.admitted] at last
    apply Shape.ready rfl rfl
    rw [← last]
    exact h.moved rfl
  · next more =>
    rw [h.fixed.admitted] at more
    have hf : lv.transaction.completedQuanta + 1 < o.quantumCount := by omega
    split
    · exact .running _ rfl (.inr (.inr rfl)) (h.moved rfl) hf
    · exact .running _ rfl (.inr (.inl rfl)) (h.moved rfl) hf

theorem shape_executeQuantum (a : Answers) (h : Ongoing o lv n)
    (s : lv.transaction.state = .prepared ∨ lv.transaction.state = .safe)
    (hf : n < o.quantumCount) :
    Shape o ⟨(executeQuantum a lv).state.1, false⟩ := by
  have hbe : transactionQuantumBegin lv.transaction.completedQuanta a lv =
      if cancelRequested lv a.cancelBefore then
        .refused (transactionRefuse .cancelled "execution was cancelled before the next quantum")
          (transactionCancel lv)
      else .done { lv with transaction := { lv.transaction with
        state := .executing
        startedQuanta := lv.transaction.startedQuanta + 1 } } := by
    unfold transactionQuantumBegin
    have hb : lv.transaction.completedQuanta < lv.transaction.admittedQuanta := by
      rw [h.completed, h.fixed.admitted]
      exact hf
    rcases s with s | s <;> simp [s, hb]
  unfold executeQuantum
  dsimp only
  rw [hbe]
  split
  · next r other hc =>
    split at hc
    · cases hc
      exact h.discard (h.between hf.le)
    · cases hc
  · next hs hbg =>
    split at hbg
    · cases hbg
    cases hbg
    cases a.execute with
    | some =>
      have cut := Cut.quantum n hf
      rw [← h.effects, ← h.completed] at cut
      exact h.discard cut
    | none =>
      have hs := shape_safePoint (q := lv.transaction.startedQuanta + 1) a h hf
      rw [ran_succ, ← h.effects, ← h.completed] at hs
      exact hs

theorem shape_commit (a : Answers) (h : Ongoing o lv o.quantumCount)
    (s : lv.transaction.state = .readyToCommit) :
    Shape o ⟨(transactionCommit a lv).state, false⟩ := by
  unfold transactionCommit
  rw [if_neg (by rw [s]; decide)]
  split
  · exact h.discard (h.between le_rfl)
  dsimp only
  split
  · have cut : Cut o _ := .publication
    rw [← h.effects] at cut
    exact h.discard cut
  · apply Shape.ended ⟨h.fixed.asked, h.fixed.admitted, h.fixed.retained⟩ _ .committed 0
    rw [note_effects, h.effects, h.fixed.asked]
    simp [releases, given]

theorem abort_ongoing (ho : lv.transaction.state ≠ .committed)
    (o' : lv.transaction.state ≠ .aborted) :
    (transactionAbort lv).state = setState (transactionDiscard lv) .aborted := by
  unfold transactionAbort
  split
  · next s => exact absurd s ho
  · next s => exact absurd s o'
  · rfl

theorem abort_ended (ends : lv.transaction.state = .committed ∨
    lv.transaction.state = .aborted) : (transactionAbort lv).state = lv := by
  unfold transactionAbort
  rcases ends with s | s <;> rw [s] <;> rfl

theorem shape_abort (h : Shape o ⟨lv, false⟩) : Shape o ⟨(transactionAbort lv).state, false⟩ := by
  cases h with
  | running n hh s hg few =>
    have s : lv.transaction.state = .prepared ∨ lv.transaction.state = .safe ∨
      lv.transaction.state = .yielded := s
    rw [abort_ongoing (by rcases s with h | h | h <;> simp [h])
      (by rcases s with h | h | h <;> simp [h])]
    exact hg.discard (hg.between few.le)
  | ready hh s hg =>
    have s : lv.transaction.state = .readyToCommit := s
    rw [abort_ongoing (by simp [s]) (by simp [s])]
    exact hg.discard (hg.between le_rfl)
  | ended hf done hen ats es =>
    rw [abort_ended hen.final]
    exact .ended hf done hen ats es

/-- Close settles the transaction first, by the same discard as abort. -/
theorem settled_eq_abort (lv : Live) : settled lv = (transactionAbort lv).state := by
  unfold settled transactionAbort
  cases lv.transaction.state <;> simp

theorem abort_ends (lv : Live) : (transactionAbort lv).state.transaction.state = .committed ∨
    (transactionAbort lv).state.transaction.state = .aborted := by
  by_cases ho : lv.transaction.state = .committed ∨ lv.transaction.state = .aborted
  · rw [abort_ended ho]
    exact ho
  · rw [not_or] at ho
    rw [abort_ongoing ho.1 ho.2]
    exact .inr rfl

theorem releases_retry (ats : ℕ) :
    releases ats false ++ [.released false] = releases (ats + 1) false := by
  simp [releases, given, List.replicate_succ']

theorem releases_done (ats : ℕ) (done : Bool) :
    releases ats false ++ given done (.released true) = releases ats done := by
  simp [releases, given]

theorem shape_close (a : Answers) (h : Shape o ⟨lv, false⟩) :
    Shape o (transactionClose a lv).state := by
  have hsh := shape_abort h
  have he := abort_ends lv
  unfold transactionClose
  rw [settled_eq_abort]
  generalize (transactionAbort lv).state = last at hsh he ⊢
  cases hsh with
  | running n hh s =>
    have ho : last.transaction.state = .prepared ∨ last.transaction.state = .safe ∨
        last.transaction.state = .yielded := s
    rcases he with hfi | hfi <;> simp [hfi] at ho
  | ready hh s =>
    have ho : last.transaction.state = .readyToCommit := s
    rcases he with hfi | hfi <;> simp [hfi] at ho
  | ended hf d hen ha es =>
    have hrt : last.transaction.resourceRetained = o.resource.isSome := hf.retained
    have w : last.effects = d ++ releases ha false := es
    dsimp only
    split
    · show Shape o ⟨last.note true (.released false), false⟩
      refine .ended hf d hen (ha + 1) ?_
      change (last.note true (.released false)).effects = _
      rw [note_effects, w, List.append_assoc]
      exact congrArg (d ++ ·) (releases_retry ha)
    · rw [hrt]
      refine .ended hf d hen ha ?_
      change (last.note o.resource.isSome (.released true)).effects = _
      rw [note_effects, w, List.append_assoc]
      exact congrArg (d ++ ·) (releases_done ha o.resource.isSome)

theorem executeQuantum_turnedAway (a : Answers) (ho : lv.transaction.state ≠ .prepared)
    (o' : lv.transaction.state ≠ .safe) : (executeQuantum a lv).state.1 = lv := by
  simp [executeQuantum, transactionQuantumBegin, ho, o']

theorem resume_turnedAway (a : Answers) (ho : lv.transaction.state ≠ .yielded) :
    (transactionResume a lv).state = lv := by
  simp [transactionResume, ho]

theorem commit_turnedAway (a : Answers) (ho : lv.transaction.state ≠ .readyToCommit) :
    (transactionCommit a lv).state = lv := by
  simp [transactionCommit, ho]

theorem shape_resume (a : Answers) (hg : Ongoing o lv n)
    (s : lv.transaction.state = .yielded) (few : n < o.quantumCount) :
    Shape o ⟨(transactionResume a lv).state, false⟩ := by
  obtain rfl := hg.completed
  unfold transactionResume
  rw [if_neg (by rw [s]; decide)]
  split
  · exact hg.discard (hg.between few.le)
  · exact .running _ rfl (.inr (.inl rfl)) (hg.moved hg.effects) few

theorem Shape.ongoing (h : Shape o ⟨lv, false⟩) (hs : (lv.transaction.state = .prepared ∨
    lv.transaction.state = .safe) ∨ lv.transaction.state = .yielded) :
    ∃ n, Ongoing o lv n ∧ n < o.quantumCount := by
  cases h with
  | running n hh s hg few => exact ⟨n, hg, few⟩
  | ready hh s => simp [show lv.transaction.state = _ from s] at hs
  | ended hf d he =>
    rcases he.final with hfi | hfi <;> simp [show lv.transaction.state = _ from hfi] at hs

/-- Every call leaves a transaction whose effects have one of the few shapes. -/
theorem shape_step {w : World} (h : Shape o w) (c : Call) : Shape o (w.step c) := by
  obtain ⟨lv, hc⟩ := w
  cases hc with
  | true => exact h
  | false =>
    cases c with
    | abort => exact shape_abort h
    | close a => exact shape_close a h
    | executeQuantum ac a =>
      cases ac with
      | false => exact h
      | true =>
        change Shape o ⟨(executeQuantum a lv).state.1, false⟩
        by_cases hrn : lv.transaction.state = .prepared ∨ lv.transaction.state = .safe
        · obtain ⟨n, hg, few⟩ := h.ongoing (.inl hrn)
          exact shape_executeQuantum a hg hrn few
        · rw [not_or] at hrn
          rw [executeQuantum_turnedAway a hrn.1 hrn.2]
          exact h
    | resume a =>
      change Shape o ⟨(transactionResume a lv).state, false⟩
      by_cases hy : lv.transaction.state = .yielded
      · obtain ⟨n, hg, few⟩ := h.ongoing (.inr hy)
        exact shape_resume a hg hy few
      · rw [resume_turnedAway a hy]
        exact h
    | commit a =>
      change Shape o ⟨(transactionCommit a lv).state, false⟩
      by_cases hr : lv.transaction.state = .readyToCommit
      · cases h with
        | running n hh s =>
          rcases s with ho | ho | ho <;> simp [show lv.transaction.state = _ from ho] at hr
        | ready hh s hg => exact shape_commit a hg hr
        | ended hf d he =>
          rcases he.final with hfi | hfi <;> simp [show lv.transaction.state = _ from hfi] at hr
      · rw [commit_turnedAway a hr]
        exact h

theorem shape_open {allocated : Bool} {retain : Option Refusal}
    (ho : transactionOpen o allocated retain = .ok lv) :
    Shape o ⟨lv, false⟩ := by
  unfold transactionOpen at ho
  split at ho
  · cases ho
  next hc =>
  have some_quanta : 0 < o.quantumCount := by
    simp only [optionsComplete, Bool.not_eq_true', Bool.not_eq_false, Bool.and_eq_true,
      bne_iff_ne, ne_eq] at hc
    omega
  split at ho
  · cases ho
  split at ho
  · cases ho
  · cases ho
    apply Shape.running 0 rfl (.inl rfl) _ some_quanta
    exact ⟨⟨rfl, rfl, rfl⟩, rfl, rfl, rfl, rfl⟩

end Steps

end Yvex.ExecutionTransaction
