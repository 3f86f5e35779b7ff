import Yvex.Runs
import Yvex.SamplingCalls
import Yvex.SlotTable

/-!
# Linear consumption of randomness

Calls on one context in any order: direct selections, any number of
transactions, checkpoints and their restoration. The ledger lists the draws of
the operations behind the published state, and a restored checkpoint brings back
the ledger it was taken with.

Every call but the drawing of uniforms holds the context while it runs, so calls
that overlap are refused and the others happen one after another.
-/

set_option autoImplicit false

namespace Yvex.Sampling

open SlotTable AttentionData CheckedArithmetic WordCounter DrawLedger Runs Function

structure World where
  context : Context
  transactions : ℕ → Option Transaction
  drawn : ℕ → List UInt32
  log : List (Entry UInt32)
  checkpoints : List (Checkpoint × List (Entry UInt32))

inductive Event where
  | select (source : Source) (hasResult : Bool) (cancel : Cancel)
  | transactionBegin (id : ℕ) (allocated : Bool)
  | uniforms (id : ℕ) (valueCount : ℕ) (cancel : Cancel)
  | transactionSelect (id : ℕ) (source : Source) (hasResult : Bool) (cancel : Cancel)
  | prepareCommit (id : ℕ)
  | publishCommit (id : ℕ)
  | finish (id : ℕ) (commit : Bool)
  | abort (id : ℕ)
  | checkpoint
  | restore (index : ℕ)
  | close
  | overlapped

def World.start (c : Context) : World := ⟨c, fun _ => none, fun _ => [], [], []⟩

def World.setTransaction (w : World) (id : ℕ) (t : Option Transaction) (values : List UInt32) :
    World :=
  { w with
    transactions := Function.update w.transactions id t
    drawn := Function.update w.drawn id values }

def World.record (w : World) (values : List UInt32) : World :=
  { w with log := ⟨w.context.successfulDraws, values⟩ :: w.log }

def World.resolve (w : World) (id : ℕ) (t : Transaction) (publish : Bool) : World :=
  { (if publish then w.record (w.drawn id) else w).setTransaction id none [] with
    context := transactionResolvePrepared w.context t publish }

def World.finish (host : Host) (w : World) (id : ℕ) (t : Transaction) (commit : Bool) :
    World × Option Refusal :=
  match transactionFinish host w.context t commit with
  | .refused refusal (c, gone) =>
    ({ (if gone then w.setTransaction id none [] else w) with context := c }, some refusal)
  | .done (c, _) =>
    ({ (if commit then w.record (w.drawn id) else w).setTransaction id none [] with
        context := c }, none)

def World.act (host : Host) (w : World) : Event → World × Option Refusal
  | .select source hasResult cancel =>
    match samplingSelect host source hasResult cancel w.context with
    | .refused refusal (c, _) => ({ w with context := c }, some refusal)
    | .done (c, staged) =>
      match staged.bind Staged.draw with
      | none => ({ w with context := c }, none)
      | some (_, value) => ({ w.record [value] with context := c }, none)
  | .transactionBegin id allocated =>
    if (w.transactions id).isSome then (w, none)
    else match transactionBegin allocated w.context with
    | .refused refusal (c, _) => ({ w with context := c }, some refusal)
    | .done (c, t) => ({ w.setTransaction id t [] with context := c }, none)
  | .uniforms id valueCount cancel =>
    match w.transactions id with
    | none => (w, some (samplingRefuse .invalidArg "sampling transaction draw extent is invalid"))
    | some t =>
      match transactionUniforms host w.context t valueCount cancel with
      | .error refusal => (w, some refusal)
      | .ok (t, values) => (w.setTransaction id (some t) (w.drawn id ++ values), none)
  | .transactionSelect id source hasResult cancel =>
    match w.transactions id with
    | none =>
      (w, some (samplingRefuse .invalidArg "sampling transaction selection extent is invalid"))
    | some t =>
      match transactionSelect host w.context t source hasResult cancel with
      | .refused refusal (c, _) => ({ w with context := c }, some refusal)
      | .done (c, none) => ({ w with context := c }, none)
      | .done (c, some (t, staged)) =>
        ({ w.setTransaction id (some t) (w.drawn id ++ (staged.draw.map Prod.snd).toList) with
            context := c }, none)
  | .prepareCommit id =>
    match w.transactions id with
    | none => (w, some (samplingRefuse .invalidArg "sampling transaction is not commit-ready"))
    | some t =>
      match transactionPrepareCommit host w.context t with
      | .refused refusal (c, _) => ({ w with context := c }, some refusal)
      | .done (c, t) => ({ w.setTransaction id (some t) (w.drawn id) with context := c }, none)
  | .publishCommit id =>
    match w.transactions id with
    | none => (w, none)
    | some t => if t.commitPrepared then (w.resolve id t true, none) else (w, none)
  | .finish id commit =>
    match w.transactions id with
    | none => (w, none)
    | some t => w.finish host id t commit
  | .abort id =>
    match w.transactions id with
    | none => (w, none)
    | some t => if t.commitPrepared then (w.resolve id t false, none) else w.finish host id t false
  | .checkpoint =>
    match contextCheckpoint host w.context with
    | .refused refusal (c, _) => ({ w with context := c }, some refusal)
    | .done (c, none) => ({ w with context := c }, none)
    | .done (c, some taken) =>
      ({ w with context := c, checkpoints := w.checkpoints ++ [(taken, w.log)] }, none)
  | .restore index =>
    match w.checkpoints[index]? with
    | none => (w, some (samplingRefuse .invalidArg "sampling checkpoint is required"))
    | some (checkpoint, log) =>
      match contextRestore host checkpoint w.context with
      | .refused refusal (c, _) => ({ w with context := c }, some refusal)
      | .done (c, _) => ({ w with context := c, log := log }, none)
  | .close => ({ w with context := { w.context with closing := true } }, none)
  | .overlapped => ({ w with context := w.context.refused },
      some (samplingRefuse .state "sampling context is already in use"))

def World.step (host : Host) (w : World) (event : Event) : World := (w.act host event).1

abbrev next : UInt64 → UInt64 := pcgAdvance pcgIncrement

structure Behind (origin state : UInt64) (draws : ℕ) (log : List (Entry UInt32)) : Prop where
  state : state = next^[draws] origin
  ledger : Ledger next pcgOutput origin draws log

variable {ds : ℕ} {log : List (Entry UInt32)}

theorem Behind.commit {o s : UInt64} (hbh : Behind o s ds log) (n : ℕ) :
    Behind o (next^[n] s) (ds + n) (⟨ds, DrawLedger.drawn next pcgOutput s n⟩ :: log) where
  state := by rw [hbh.state, ← iterate_add_apply, Nat.add_comm]
  ledger := by
    rw [hbh.state]
    exact hbh.ledger.commit n

structure Provisional (t : Transaction) (values : List UInt32) : Prop where
  state : t.nextState = next^[t.drawCount] t.initialState
  values : values = DrawLedger.drawn next pcgOutput t.initialState t.drawCount

theorem Advanced.provisional {t t' : Transaction} {n : ℕ} {vs m : List UInt32}
    (ha : Advanced pcgIncrement t t' n m) (b : Provisional t vs) :
    Provisional t' (vs ++ m) where
  state := by
    rw [ha.nextState, ha.drawCount, ha.initialState, b.state, ← iterate_add_apply, Nat.add_comm]
  values := by rw [ha.values, ha.drawCount, ha.initialState, b.values, b.state, drawn_add]

structure Ready (host : Host) (c : Context) (t : Transaction) : Prop where
  rngState : c.rngState = t.initialState
  draws : c.successfulDraws = t.initialDraws
  small : t.initialDraws + t.drawCount < wordLimit
  identity : samplingRngIdentity host c t.nextState (t.initialDraws + t.drawCount) =
    some t.preparedIdentity
  active : c.active = true

structure Linear (host : Host) (origin : UInt64) (w : World) : Prop where
  increment : w.context.rngIncrement = pcgIncrement
  behind : Behind origin w.context.rngState w.context.successfulDraws w.log
  identity : samplingRngIdentity host w.context w.context.rngState w.context.successfulDraws =
    some w.context.summary.rngStateIdentity
  provisional : ∀ id t, w.transactions id = some t → Provisional t (w.drawn id)
  prepared : ∀ id t, w.transactions id = some t → t.commitPrepared = true →
    Ready host w.context t
  single : ∀ i j t u, w.transactions i = some t → w.transactions j = some u →
    t.commitPrepared = true → u.commitPrepared = true → i = j
  checkpoints : ∀ taken ∈ w.checkpoints,
    Behind origin taken.1.rngState taken.1.successfulDraws taken.2

section Steps

variable {host : Host} {o : UInt64} {w : World}

def Unprepared (w : World) : Prop :=
  ∀ id t, w.transactions id = some t → t.commitPrepared = false

theorem Linear.unprepared (hl : Linear host o w) (idle : w.context.active = false) :
    Unprepared w := by
  intro id t live
  cases hp : t.commitPrepared with
  | false => rfl
  | true =>
    have ha := (hl.prepared id t live hp).active
    rw [idle] at ha
    simp at ha

variable {c : Context}

theorem Linear.keep (hl : Linear host o w) (hk : Kept w.context c) :
    Linear host o { w with context := c } where
  increment := hk.rngIncrement.trans hl.increment
  behind := by
    simp only [hk.rngState, hk.successfulDraws]
    exact hl.behind
  identity := by
    simp only [hk.rngState, hk.successfulDraws, hk.identity,
      samplingRngIdentity_congr hk.policy hk.rngIncrement]
    exact hl.identity
  provisional := hl.provisional
  prepared := by
    intro id t live hpr
    have hr := hl.prepared id t live hpr
    refine ⟨hk.rngState.trans hr.rngState, hk.successfulDraws.trans hr.draws,
      hr.small, ?_, hk.active.trans hr.active⟩
    rw [samplingRngIdentity_congr hk.policy hk.rngIncrement]
    exact hr.identity
  single := hl.single
  checkpoints := hl.checkpoints

theorem Linear.publish (hl : Linear host o w) (hf : Unprepared w) {s : UInt64}
    (hp : Publishes host w.context c s ds) (hbh : Behind o s ds log) :
    Linear host o { w with context := c, log := log } where
  increment := hp.rngIncrement.trans hl.increment
  behind := by
    simp only [hp.rngState, hp.successfulDraws]
    exact hbh
  identity := by
    simp only [hp.rngState, hp.successfulDraws, samplingRngIdentity_congr hp.policy hp.rngIncrement]
    exact hp.identity
  provisional := hl.provisional
  prepared := by
    intro id t live hpr
    rw [hf id t live] at hpr
    simp at hpr
  single := hl.single
  checkpoints := hl.checkpoints

variable {vs : List UInt32}

theorem replaced_prepared {id i : ℕ} {t : Option Transaction} {u : Transaction}
    (hs : ∀ u, t = some u → Provisional u vs ∧ u.commitPrepared = false)
    (hl : (w.setTransaction id t vs).transactions i = some u) (hpr : u.commitPrepared = true) :
    w.transactions i = some u := by
  obtain ⟨_, hh⟩ | ⟨_, ht⟩ := update_iff.mp hl
  · rw [(hs u hh).2] at hpr
    cases hpr
  · exact ht

open World

theorem Linear.replace (hl : Linear host o w) (id : ℕ) {t : Option Transaction}
    (hs : ∀ u, t = some u → Provisional u vs ∧ u.commitPrepared = false) :
    Linear host o (w.setTransaction id t vs) where
  increment := hl.increment
  behind := hl.behind
  identity := hl.identity
  provisional := by
    intro i u hli
    by_cases hh : i = id
    · subst hh
      simp only [setTransaction, update_self] at hli ⊢
      exact (hs u hli).1
    · simp only [setTransaction, update_of_ne hh] at hli ⊢
      exact hl.provisional i u hli
  prepared := by
    intro i u hli hpr
    exact hl.prepared i u (replaced_prepared hs hli hpr) hpr
  single := by
    intro i j u v hlv hlj hpi hp
    exact hl.single i j u v (replaced_prepared hs hlv hpi) (replaced_prepared hs hlj hp) hpi hp
  checkpoints := hl.checkpoints

theorem Linear.forget (hl : Linear host o w) (id : ℕ) :
    Linear host o (w.setTransaction id none []) :=
  hl.replace id (by simp)

variable {id : ℕ}

theorem Linear.prepare (hl : Linear host o w) {t t' : Transaction}
    (live : w.transactions id = some t)
    (out : transactionPrepareCommit host w.context t = .done (c, t')) :
    Linear host o { w.setTransaction id (some t') (w.drawn id) with context := c } := by
  obtain ⟨idle, rfl, s, ds, hsm, identity, hn, rfl⟩ := transactionPrepareCommit_ensures.of_done out
  have hf := hl.unprepared idle
  have only : ∀ i u, update w.transactions id (some { t with
      preparedIdentity := identity, commitPrepared := true }) i = some u →
      u.commitPrepared = true →
      i = id ∧ u = { t with preparedIdentity := identity, commitPrepared := true } := by
    intro i u hth hpr
    obtain ⟨rfl, hh⟩ | ⟨_, ht⟩ := update_iff.mp hth
    · exact ⟨rfl, (Option.some.inj hh).symm⟩
    · rw [hf i u ht] at hpr
      cases hpr
  refine ⟨hl.increment, hl.behind, hl.identity, ?_, ?_, ?_, hl.checkpoints⟩
  · intro i u hth
    by_cases hh : i = id
    · subst hh
      simp only [setTransaction, update_self] at hth ⊢
      obtain rfl := Option.some.inj hth
      have b := hl.provisional i t live
      exact ⟨b.state, b.values⟩
    · simp only [setTransaction, update_of_ne hh] at hth ⊢
      exact hl.provisional i u hth
  · intro i u hth hpr
    obtain ⟨rfl, rfl⟩ := only i u hth hpr
    exact ⟨s, ds, hsm, hn, rfl⟩
  · intro i j u v the htr hp hpj
    rw [(only i u the hp).1, (only j v htr hpj).1]

variable {t : Transaction}

/-- The draws of a transaction on the published base follow what is published. -/
theorem Linear.committed (hl : Linear host o w) (live : w.transactions id = some t)
    (hb : w.context.rngState = t.initialState) :
    Behind o t.nextState (w.context.successfulDraws + t.drawCount)
      (⟨w.context.successfulDraws, w.drawn id⟩ :: w.log) := by
  have hp := hl.provisional id t live
  have hbh := hl.behind.commit t.drawCount
  rw [hb, ← hp.state, ← hp.values] at hbh
  exact hbh

theorem Linear.resolve (hl : Linear host o w) (hli : w.transactions id = some t)
    (hpr : t.commitPrepared = true) (publish : Bool) :
    Linear host o (w.resolve id t publish) := by
  have hr := hl.prepared id t hli hpr
  have hf : Unprepared (w.setTransaction id none []) := by
    intro i u hth
    obtain ⟨_, hh⟩ | ⟨hap, ht⟩ := update_iff.mp hth
    · cases hh
    · cases also : u.commitPrepared with
      | false => rfl
      | true => exact absurd (hl.single i id u t ht hli also hpr) hap
  cases publish with
  | true =>
    have hsm := hr.small
    rw [← hr.draws] at hsm
    have identity := hr.identity
    rw [← hr.draws] at identity
    have hps : Publishes host w.context (transactionResolvePrepared w.context t true)
        t.nextState (w.context.successfulDraws + t.drawCount) :=
      ⟨rfl, rfl, rfl, wordAdd_eq hsm, identity⟩
    exact (hl.forget id).publish hf hps (hl.committed hli hr.rngState)
  | false =>
    -- An abandoned commit publishes what was published before.
    have hps : Publishes host w.context (transactionResolvePrepared w.context t false)
        w.context.rngState w.context.successfulDraws := by
      simp only [transactionResolvePrepared, Bool.false_eq_true, if_false, samplingLeave,
        Context.forget]
      exact ⟨rfl, rfl, rfl, rfl, hl.identity⟩
    exact (hl.forget id).publish hf hps hl.behind

variable {commit : Bool}

theorem Linear.finish (hl : Linear host o w) (live : w.transactions id = some t)
    (hsm : commit = true → t.initialDraws + t.drawCount < wordLimit) :
    Linear host o (w.finish host id t commit).1 := by
  unfold World.finish
  split
  · rename_i hg out
    have hk := transactionFinish_ensures.of_refused out
    cases hg with
    | true => exact (hl.forget id).keep hk
    | false => exact hl.keep hk
  · rename_i out
    obtain ⟨idle, ⟨rfl, hk⟩ | ⟨rfl, s, hps⟩⟩ := transactionFinish_ensures.of_done out
    · exact (hl.forget id).keep hk
    · have hf : Unprepared (w.setTransaction id none []) := (hl.forget id).unprepared idle
      exact (hl.forget id).publish hf (hps (hsm rfl)) (hl.committed live s)

def Calm (w : World) : Event → Prop
  -- Uniforms are not drawn once a commit is prepared, and a commit does not overflow the
  -- count.
  | .uniforms id _ _ => ∀ t, w.transactions id = some t → t.commitPrepared = false
  | .finish id commit => commit = true → ∀ t, w.transactions id = some t →
      t.initialDraws + t.drawCount < wordLimit
  | _ => True

theorem Linear.select (hl : Linear host o w) (src : Source) (hasResult : Bool)
    (cancel : Cancel) : Linear host o (w.step host (.select src hasResult cancel)) := by
  simp only [step, act]
  split
  · rename_i out
    exact hl.keep (samplingSelect_ensures.of_refused out)
  rename_i out
  rcases samplingSelect_ensures.of_done out with ⟨hk, none⟩ | ⟨idle, hps, draw⟩
  · rw [none]
    exact hl.keep hk
  · rw [draw]
    rw [hl.increment] at hps
    exact hl.publish (hl.unprepared idle) hps (hl.behind.commit 1)

variable {e : Event}

/-- Each calm event keeps the published state where the draws of the ledger lead. -/
theorem Linear.step (hl : Linear host o w) (hcl : Calm w e) : Linear host o (w.step host e) := by
  cases e with simp only [World.step, World.act]
  | select src ha hcn => exact hl.select src ha hcn
  | transactionBegin id hal =>
    split
    · exact hl
    split
    · rename_i ho
      exact hl.keep (transactionBegin_ensures.of_refused ho)
    rename_i ho
    obtain ⟨hk, rfl⟩ := transactionBegin_ensures.of_done ho
    refine Linear.keep (hl.replace id ?_) hk
    intro u hs
    obtain rfl := Option.some.inj hs
    exact ⟨⟨rfl, rfl⟩, rfl⟩
  | uniforms id v hcn =>
    split
    · exact hl
    rename_i t hh
    split
    · exact hl
    rename_i hd
    have had := transactionUniforms_ok hd
    rw [hl.increment] at had
    refine hl.replace id ?_
    intro u hs
    obtain rfl := Option.some.inj hs
    exact ⟨had.provisional (hl.provisional id t hh), had.commitPrepared.trans (hcl t hh)⟩
  | transactionSelect id src ha hcn =>
    split
    · exact hl
    rename_i t hh
    split
    · rename_i ho
      exact hl.keep ((transactionSelect_ensures t).of_refused ho)
    · rename_i ho
      exact hl.keep ((transactionSelect_ensures t).of_done ho).1
    rename_i ho
    obtain ⟨hk, hu, _, _, value, hs, draw, had⟩ := (transactionSelect_ensures t).of_done ho
    cases hs
    rw [hl.increment] at had
    rw [draw]
    refine Linear.keep (hl.replace id ?_) hk
    intro u htk
    obtain rfl := Option.some.inj htk
    exact ⟨had.provisional (hl.provisional id t hh), had.commitPrepared.trans hu⟩
  | prepareCommit id =>
    split
    · exact hl
    rename_i hh
    split
    · rename_i ho
      exact hl.keep (transactionPrepareCommit_ensures.of_refused ho)
    · rename_i ho
      exact hl.prepare hh ho
  | publishCommit id =>
    split
    · exact hl
    rename_i hh
    split
    · rename_i hpr
      exact hl.resolve hh hpr true
    · exact hl
  | finish id commit =>
    split
    · exact hl
    rename_i t hh
    exact hl.finish hh fun hc => hcl hc t hh
  | abort id =>
    split
    · exact hl
    rename_i hh
    split
    · rename_i hpr
      exact hl.resolve hh hpr false
    · exact hl.finish hh (by simp)
  | checkpoint =>
    split
    · rename_i ho
      exact hl.keep (contextCheckpoint_ensures.of_refused ho)
    · rename_i ho
      exact hl.keep (contextCheckpoint_ensures.of_done ho).1
    rename_i ho
    obtain ⟨hk, _, hs, s, ds⟩ := contextCheckpoint_ensures.of_done ho
    obtain rfl := Option.some.inj hs
    have a := hl.keep hk
    refine ⟨a.increment, a.behind, a.identity, a.provisional, a.prepared, a.single, ?_⟩
    intro hg hm
    rcases List.mem_append.mp hm with hol | hn
    · exact hl.checkpoints hg hol
    · obtain rfl := List.mem_singleton.mp hn
      simp only [s, ds]
      exact hl.behind
  | restore i =>
    split
    · exact hl
    rename_i ch log hf
    split
    · rename_i ho
      exact hl.keep (contextRestore_ensures.of_refused ho)
    · rename_i ho
      obtain ⟨idle, hps⟩ := contextRestore_ensures.of_done ho
      exact hl.publish (hl.unprepared idle) hps (hl.checkpoints (ch, log) (List.mem_of_getElem? hf))
  | close | overlapped => exact hl.keep ⟨rfl, rfl, rfl, rfl, rfl, rfl⟩

structure Unspent (w w' : World) : Prop where
  rngState : w'.context.rngState = w.context.rngState
  successfulDraws : w'.context.successfulDraws = w.context.successfulDraws
  identity : w'.context.summary.rngStateIdentity = w.context.summary.rngStateIdentity
  log : w'.log = w.log
  transactions : ∀ id, w'.transactions id = w.transactions id ∨ w'.transactions id = none

theorem Kept.unspent (hk : Kept w.context c) : Unspent w { w with context := c } :=
  ⟨hk.rngState, hk.successfulDraws, hk.identity, rfl, fun _ => .inl rfl⟩

theorem setTransaction_forgets (w : World) (id i : ℕ) :
    (w.setTransaction id none []).transactions i = w.transactions i ∨
      (w.setTransaction id none []).transactions i = none := by
  simp only [setTransaction, update_apply]
  split_ifs
  · exact .inr rfl
  · exact .inl rfl

theorem Kept.unspent_forgotten (hk : Kept w.context c) (id : ℕ) :
    Unspent w { w.setTransaction id none [] with context := c } :=
  ⟨hk.rngState, hk.successfulDraws, hk.identity, rfl, setTransaction_forgets w id⟩

theorem Unspent.refl (w : World) : Unspent w w := ⟨rfl, rfl, rfl, rfl, fun _ => .inl rfl⟩

theorem finish_unspent (hf : commit = true → ∃ r, (w.finish host id t commit).2 = some r) :
    Unspent w (w.finish host id t commit).1 := by
  unfold finish at hf ⊢
  split at hf
  · rename_i hg out
    have hk := transactionFinish_ensures.of_refused out
    cases hg with
    | true => exact hk.unspent_forgotten id
    | false => exact hk.unspent
  · rename_i out
    cases commit with
    | true =>
      obtain ⟨r, none⟩ := hf rfl
      simp at none
    | false =>
      obtain ⟨-, ⟨-, hk⟩ | ⟨hc, -⟩⟩ := transactionFinish_ensures.of_done out
      · exact hk.unspent_forgotten id
      · simp at hc

/-- A call that fails consumes nothing. -/
theorem failed_unspent {r : Refusal}
    (hf : (w.act host e).2 = some r) : Unspent w (w.step host e) := by
  unfold step
  cases e with simp only [act] at hf ⊢
  | select src ha hc =>
    split at hf
    · rename_i ho
      exact (samplingSelect_ensures.of_refused ho).unspent
    · split at hf <;> simp at hf
  | transactionBegin id hal =>
    split at hf
    · simp at hf
    rename_i hfr
    rw [if_neg hfr]
    split at hf
    · rename_i ho
      exact (transactionBegin_ensures.of_refused ho).unspent
    · simp at hf
  | uniforms =>
    split at hf
    · exact .refl w
    · split at hf
      · exact .refl w
      · simp at hf
  | transactionSelect id src ha hc =>
    split at hf
    · exact .refl w
    split at hf
    · rename_i ho
      exact ((transactionSelect_ensures _).of_refused ho).unspent
    · simp at hf
    · simp at hf
  | prepareCommit id =>
    split at hf
    · exact .refl w
    split at hf
    · rename_i ho
      exact (transactionPrepareCommit_ensures.of_refused ho).unspent
    · simp at hf
  | publishCommit =>
    split at hf
    · simp at hf
    · split at hf <;> simp at hf
  | finish =>
    split at hf
    · exact .refl w
    · exact finish_unspent fun _ => ⟨r, hf⟩
  | abort id =>
    split at hf
    · exact .refl w
    split at hf
    · simp at hf
    · rename_i hu
      rw [if_neg hu]
      exact finish_unspent (by simp)
  | checkpoint =>
    split at hf
    · rename_i ho
      exact (contextCheckpoint_ensures.of_refused ho).unspent
    · simp at hf
    · simp at hf
  | restore i =>
    split at hf
    · exact .refl w
    split at hf
    · rename_i ho
      exact (contextRestore_ensures.of_refused ho).unspent
    · simp at hf
  | close => simp at hf
  | overlapped => exact ⟨rfl, rfl, rfl, rfl, fun _ => .inl rfl⟩

theorem abort_unspent (w : World) (id : ℕ) : Unspent w (w.step host (.abort id)) := by
  simp only [step, act]
  split
  · exact .refl w
  split
  · simp only [resolve, transactionResolvePrepared, Bool.false_eq_true, if_false,
      samplingLeave, Context.forget]
    exact ⟨rfl, rfl, rfl, rfl, setTransaction_forgets w id⟩
  · exact finish_unspent (by simp)

/-- A restored checkpoint brings back its count, its state and its ledger. -/
theorem restore_returns {i : ℕ} {taken : Checkpoint × List (Entry UInt32)}
    (hf : w.checkpoints[i]? = some taken) (hr : (w.act host (.restore i)).2 = none) :
    (w.step host (.restore i)).context.rngState = taken.1.rngState ∧
      (w.step host (.restore i)).context.successfulDraws = taken.1.successfulDraws ∧
      (w.step host (.restore i)).log = taken.2 := by
  simp only [step, act, hf] at hr ⊢
  split at hr
  · simp at hr
  · rename_i out
    obtain ⟨-, hps⟩ := contextRestore_ensures.of_done out
    exact ⟨hps.rngState, hps.successfulDraws, rfl⟩

end Steps

theorem linear_start {host : Host} {p : Policy} {m : ℕ} {d : Bool}
    {checks : Except Refusal Unit} {c : Context}
    (ho : samplingContextOpen host p m d checks = .ok c) :
    Linear host (pcgSeed p.seed) (World.start c) := by
  unfold samplingContextOpen at ho
  split at ho
  · simp at ho
  simp only at ho
  split at ho
  · simp at ho
  rename_i hn
  obtain rfl := Except.ok.inj ho
  exact ⟨rfl, ⟨rfl, .empty⟩, hn, by simp [World.start], by simp [World.start],
    by simp [World.start], by simp [World.start]⟩

/-- Along every calm run the published draws are the outputs of the generator, in order and each
once. -/
theorem randomness_linear (host : Host) (policy : Policy) (maximumRows : ℕ)
    (deviceSelection : Bool) (checks : Except Refusal Unit) (c : Context)
    (opened : samplingContextOpen host policy maximumRows deviceSelection checks = .ok c)
    (events : List Event) (along : Along (World.step host) Calm (World.start c) events) (w : World)
    (reached : w = run (World.step host) (World.start c) events) :
    w.context.rngState = next^[w.context.successfulDraws] (pcgSeed policy.seed) ∧
      samplingRngIdentity host w.context w.context.rngState w.context.successfulDraws =
        some w.context.summary.rngStateIdentity ∧
      (∀ entry ∈ w.log, entry.first + entry.values.length ≤ w.context.successfulDraws ∧
        entry.values = DrawLedger.drawn next pcgOutput (next^[entry.first] (pcgSeed policy.seed))
          entry.values.length) ∧
      w.log.Pairwise (fun newer older => older.first + older.values.length ≤ newer.first) ∧
      (∀ event refusal, (w.act host event).2 = some refusal → Unspent w (w.step host event)) ∧
      (∀ id, Unspent w (w.step host (.abort id))) ∧
      (∀ index taken, w.checkpoints[index]? = some taken →
        (w.act host (.restore index)).2 = none →
          (w.step host (.restore index)).context.rngState = taken.1.rngState ∧
          (w.step host (.restore index)).context.successfulDraws = taken.1.successfulDraws ∧
          (w.step host (.restore index)).log = taken.2) := by
  have linear : Linear host (pcgSeed policy.seed) w := by
    rw [reached]
    exact run_invariant_along (P := Linear host (pcgSeed policy.seed))
      (fun _ _ linear calm => linear.step calm) (linear_start opened) along
  have ledger := linear.behind.ledger
  refine ⟨linear.behind.state, linear.identity, ?_, ledger.apart, ?_, ?_, ?_⟩
  · intro entry member
    exact ⟨ledger.within entry member, ledger.values entry member⟩
  · intro event refusal failed
    exact failed_unspent failed
  · intro id
    exact abort_unspent w id
  · intro index taken found restored
    exact restore_returns found restored

def zeroDigest : Sha256 where
  -- A digest that tells a count of zero from every other one.
  digest fields := some (List.replicate 64
    (if fields.getLast? = some (.word 0) then 'a' else 'b'))
  digest_hex := by
    rintro fields identity ⟨⟩
    split <;> decide

def sampleHost : Host := ⟨zeroDigest, UInt32.toNat⟩

def samplePolicy : Policy := ⟨.stochastic, 7, 1, 1, []⟩

def uncancelled : Cancel := fun _ => false

def committing : List Event :=
  [.transactionBegin 0 true, .uniforms 0 2 uncancelled, .prepareCommit 0, .publishCommit 0]

theorem randomness_linear_committing :
    ∃ c, samplingContextOpen sampleHost samplePolicy 4 false (.ok ()) = .ok c ∧
      (run (World.step sampleHost) (World.start c) committing).context.successfulDraws = 2 ∧
      (run (World.step sampleHost) (World.start c) committing).context.rngState =
        next^[(run (World.step sampleHost) (World.start c) committing).context.successfulDraws]
          (pcgSeed samplePolicy.seed) := by
  refine ⟨_, rfl, by decide +kernel, ?_⟩
  refine (randomness_linear sampleHost samplePolicy 4 false (.ok ()) _ rfl committing ?_ _ rfl).1
  refine ⟨trivial, ?_, trivial, trivial, trivial⟩
  intro t live
  cases live
  rfl

/-- Uniforms drawn after the preparation of a commit are published under the old identity. -/
theorem prepared_draw_unnamed :
    ∃ c, samplingContextOpen sampleHost samplePolicy 4 false (.ok ()) = .ok c ∧
      (run (World.step sampleHost) (World.start c) [.transactionBegin 0 true, .prepareCommit 0,
        .uniforms 0 1 uncancelled, .publishCommit 0]).context.successfulDraws = 1 ∧
      samplingRngIdentity sampleHost
          (run (World.step sampleHost) (World.start c) [.transactionBegin 0 true,
            .prepareCommit 0, .uniforms 0 1 uncancelled, .publishCommit 0]).context
          (run (World.step sampleHost) (World.start c) [.transactionBegin 0 true,
            .prepareCommit 0, .uniforms 0 1 uncancelled, .publishCommit 0]).context.rngState 1 ≠
        some (run (World.step sampleHost) (World.start c) [.transactionBegin 0 true,
          .prepareCommit 0, .uniforms 0 1 uncancelled,
          .publishCommit 0]).context.summary.rngStateIdentity := by
  refine ⟨_, rfl, by decide +kernel, by decide +kernel⟩

end Yvex.Sampling
