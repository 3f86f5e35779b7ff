import Yvex.ProgressRuns

/-!
# Runs of the progress scheduler and its leases

Every event is a call of one lease, the arrival of a new one, a halt, or nothing.
A lease names its slot by a generation, and a generation comes back only after
all the others have been issued.
-/

set_option autoImplicit false

namespace Yvex.ProgressScheduler

open AttentionData CheckedArithmetic SlotTable WordCounter Runs World List Option

structure Halted (s s' : Scheduler) : Prop where
  sound : Sound s'
  calmed : Calmed { s with stopping := true } s'

variable {s : Scheduler}

theorem coordinatorStop_halted (hs : Sound s) : Halted s (coordinatorStop s) := by
  refine foldlRecOn _ _ ⟨hs.stop, .refl _⟩ ?_
  intro t ih i _
  split
  · rename_i hl
    exact ⟨ih.sound.cancelReady hl, ih.calmed.trans (progressCancelReady_calmed hl)⟩
  · exact ih

inductive Acted (w : World) : World → Prop where
  | still : Acted w w
  | halted {scheduler : Scheduler} (halt : Halted w.scheduler scheduler) :
      Acted w { w with scheduler := scheduler }
  | called {w' : World} {lease : Lease} {t : Scheduler} {answers : Answers}
      (live : ∃ work, progressSlot w.scheduler lease = some work)
      (call : CallVia w.scheduler t answers w'.scheduler lease w.scheduler.nextGeneration)
      (issued : w'.issued = w.issued) (distinct : w'.waiting.Nodup)
      (waits : ∀ other ∈ w'.waiting, (other ∈ w.waiting ∧ other ≠ lease) ∨
        (other = lease ∧ ∃ work, w'.scheduler.slots lease.slot = some work)) : Acted w w'
  | entered {w' : World} {lease : Lease} {t : Scheduler} {answers : Answers}
      (free : w.scheduler.slots lease.slot = none)
      (generation : lease.generation = generationAfter w.scheduler.nextGeneration)
      (call : CallVia w.scheduler t answers w'.scheduler lease
        (generationAfter w.scheduler.nextGeneration))
      (issued : w'.issued = lease :: w.issued) (distinct : w'.waiting.Nodup)
      (waits : ∀ other ∈ w'.waiting, other ∈ w.waiting ∨
        (other = lease ∧ ∃ work, w'.scheduler.slots lease.slot = some work)) : Acted w w'

structure Tracked (w : World) : Prop where
  sound : Sound w.scheduler
  waits : ∀ lease ∈ w.waiting, ∃ work, progressSlot w.scheduler lease = some work
  distinct : w.waiting.Nodup
  next : w.scheduler.nextGeneration = generationAt w.issued.length
  issued : ∀ recent lease earlier, w.issued = recent ++ lease :: earlier →
    lease.generation = generationAt (earlier.length + 1)

variable {w : World} {l : Lease} {o : Scheduler × Admission}

theorem await_waits (hl : o.2 = .waiting → ∃ wk, o.1.slots l.slot = some wk) {other : Lease}
    (hm : other ∈ (w.await l o).waiting) :
    other ∈ w.waiting ∨ (other = l ∧ ∃ wk, o.1.slots l.slot = some wk) := by
  unfold await at hm
  cases ha : o.2 with
  | waiting =>
    rw [ha] at hm
    rcases mem_cons.mp hm with rfl | hol
    · exact .inr ⟨rfl, hl ha⟩
    · exact .inl hol
  | admitted | refused =>
    rw [ha] at hm
    exact .inl hm

theorem await_distinct (o : Scheduler × Admission) (hd : w.waiting.Nodup) (hab : l ∉ w.waiting) :
    (w.await l o).waiting.Nodup := by
  unfold await
  cases o.2 with
  | waiting => exact nodup_cons.mpr ⟨hab, hd⟩
  | admitted | refused => exact hd

section Acts

variable {w : World}

theorem Acted.of_call (ht : Tracked w) {a : Answers} (hab : l ∉ w.waiting)
    (hl : ∃ wk, progressSlot w.scheduler l = some wk)
    (hc : CallVia w.scheduler s a o.1 l w.scheduler.nextGeneration)
    (hw : o.2 = .waiting → ∃ wk, o.1.slots l.slot = some wk) : Acted w (w.await l o) := by
  refine .called hl hc rfl (await_distinct o ht.distinct hab) ?_
  intro ot hm
  rcases await_waits hw hm with hol | own
  · exact .inl ⟨hol, fun hs => hab (hs ▸ hol)⟩
  · exact .inr own

theorem requeue_acted (ht : Tracked w) (hab : l ∉ w.waiting) {wk : Work}
    (hf : (progressSlot w.scheduler l).filter Work.active = some wk) (k : ProgressKind)
    (d : String) (a : Answers) :
    Acted w (w.await l (requeue w.scheduler l.slot wk k d a)) := by
  rw [filter_eq_some_iff] at hf
  obtain ⟨⟨t, c⟩, hw⟩ := requeue_call ht.sound hf.1 hf.2 k d a
  exact .of_call ht hab ⟨wk, hf.1⟩ c hw

theorem await_stale (w : World) (l : Lease) (r : Refusal) :
    w.await l (w.scheduler, .refused r) = w := rfl

theorem enter_acted (ht : Tracked w) (r : Request) (a : Answers) :
    Acted w (w.step (.enter r a)) := by
  simp only [step, executionEnter]
  split_ifs with hin hst
  · exact .still
  · exact .still
  split
  · rename_i hr
    split at hr
    · simp at hr
    rename_i i f
    obtain ⟨hi, his⟩ := firstWhere_some f
    have hfr : w.scheduler.slots i = none := by simpa using his
    obtain ⟨rfl, rfl, rfl⟩ := hr
    have c := enter_call ht.sound hfr hi r a
    have hab : (⟨i, generationAfter w.scheduler.nextGeneration⟩ : Lease) ∉
        w.waiting := by
      intro hm
      obtain ⟨wk, hf⟩ := ht.waits _ hm
      have hl := (progressSlot_some hf).1
      rw [hfr] at hl
      simp at hl
    have hs := progressSettle_settled (progressEnqueue (progressAdmit w.scheduler i r) i
      (newWork r (generationAfter w.scheduler.nextGeneration)) a) i
    refine .entered hfr rfl c rfl ?_ ?_
    · exact await_distinct (w := { w with issued := _ }) _ ht.distinct hab
    · intro ot hm
      exact await_waits (w := { w with issued := _ }) hs.waiting_live hm
  · rename_i hr
    split at hr
    · simp only [Prod.mk.injEq] at hr
      rw [← hr.1]
      exact .still
    · simp at hr

theorem wake_acted (ht : Tracked w) (l : Lease) (a : Answers) : Acted w (w.step (.wake l a)) := by
  simp only [step]
  split_ifs with hm
  · obtain ⟨wk, hf⟩ := ht.waits l hm
    have c := wake_call ht.sound hf a
    have hs := progressSettle_settled (progressGrant w.scheduler a) l.slot
    have hab : l ∉ w.waiting.erase l := fun left => (ht.distinct.mem_erase_iff.mp left).1 rfl
    refine .called ⟨wk, hf⟩ c rfl ?_ ?_
    · exact await_distinct (w := { w with waiting := w.waiting.erase l }) _
        (ht.distinct.erase l) hab
    · intro ot hi
      rcases await_waits (w := { w with waiting := w.waiting.erase l }) hs.waiting_live
        hi with hol | own
      · obtain ⟨ha, b⟩ := ht.distinct.mem_erase_iff.mp hol
        exact .inl ⟨b, ha⟩
      · exact .inr own
  · exact .still

theorem step_acted (ht : Tracked w) (e : Event) : Acted w (w.step e) := by
  cases e with
  | enter r a => exact enter_acted ht r a
  | wake l a => exact wake_acted ht l a
  | yieldResume l a =>
    simp only [step]
    split_ifs with hm
    · exact .still
    unfold executionYieldResume
    split
    · exact .still
    · rename_i hf
      exact requeue_acted ht hm hf _ _ a
  | transition l k a =>
    simp only [step]
    split_ifs with hm
    · exact .still
    unfold progressTransition
    split
    · exact .still
    · rename_i hf
      exact requeue_acted ht hm hf _ _ a
  | leave l status a =>
    simp only [step]
    split_ifs with hm
    · exact .still
    unfold executionLeave
    split
    · exact .still
    rename_i wk hf
    have c := leave_call ht.sound hf a
    refine .called ⟨wk, hf⟩ c rfl ht.distinct ?_
    exact fun ot hol => .inl ⟨hol, fun hs => hm (hs ▸ hol)⟩
  | close => exact .halted (coordinatorStop_halted ht.sound)
  | workerLost => exact .halted ⟨ht.sound.stop, .refl _⟩

end Acts

theorem Tracked.kept (ht : Tracked w) (hs : Sound s) (hm : l ∈ w.waiting)
    (hk : ∀ v, w.scheduler.slots l.slot = some v → v.generation = l.generation →
      ∃ v', s.slots l.slot = some v' ∧ v'.generation = v.generation) :
    ∃ wk, progressSlot s l = some wk := by
  obtain ⟨v, hf⟩ := ht.waits l hm
  obtain ⟨hl, g⟩ := progressSlot_some hf
  obtain ⟨v', hl', hg⟩ := hk v hl g
  exact ⟨v', progressSlot_of_live hs hl' (hg.trans g)⟩

variable {w' : World}

/-- Whatever a call does, the leases keep telling their works apart. -/
theorem Acted.tracked (hac : Acted w w') (ht : Tracked w) : Tracked w' := by
  cases hac with
  | still => exact ht
  | halted hh =>
    refine ⟨hh.sound, ?_, ht.distinct, hh.calmed.nextGeneration.trans ht.next, ht.issued⟩
    exact fun l hm => ht.kept hh.sound hm fun _ hl _ => hh.calmed.toGranted.generation hl
  | @called _ l t a hle c hi hd hw =>
    have hso := c.after_grant.1
    refine ⟨hso, ?_, hd, ?_, ?_⟩
    · intro ot hm
      rcases hw ot hm with ⟨hol, ha⟩ | ⟨rfl, wk, hth⟩
      · refine ht.kept hso hol fun v hl g => c.others ?_ hl
        -- Two live leases of one slot carry its one generation.
        intro hs
        obtain ⟨own, hfn⟩ := hle
        obtain ⟨hlv, hgn⟩ := progressSlot_some hfn
        rw [hs, hlv] at hl
        cases ot
        cases l
        simp_all
      · exact ⟨wk, progressSlot_of_live hso hth (c.own_generation hth)⟩
    · rw [c.counters.1, hi]
      exact ht.next
    · rw [hi]
      exact ht.issued
  | @entered _ l t a free g c hi hd hw =>
    have hso := c.after_grant.1
    have had : generationAfter w.scheduler.nextGeneration = generationAt (w.issued.length + 1) := by
      rw [ht.next, generationAfter_generationAt]
    refine ⟨hso, ?_, hd, ?_, ?_⟩
    · intro ot hm
      rcases hw ot hm with hol | ⟨rfl, wk, hth⟩
      · refine ht.kept hso hol fun v hl _ => c.others ?_ hl
        intro hs
        rw [hs, free] at hl
        simp at hl
      · exact ⟨wk, progressSlot_of_live hso hth (c.own_generation hth)⟩
    · rw [c.counters.1, hi, had, length_cons]
    · intro hr hg e hsp
      rw [hi] at hsp
      cases hr with
      | nil =>
        obtain ⟨rfl, rfl⟩ := cons.inj hsp
        rw [g, had]
      | cons f r => exact ht.issued r hg e (cons.inj hsp).2

theorem tracked_run (ht : Tracked w) (es : List Event) : Tracked (run World.step w es) :=
  run_invariant (P := fun w : World => Tracked w) (fun _ e ht => (step_acted ht e).tracked ht) ht es

theorem tracked_start {c wi : ℕ} {allocated started r : Bool}
    (hop : coordinatorOpen c wi allocated started r = .ok s) :
    Tracked (World.start s) := by
  unfold coordinatorOpen at hop
  split_ifs at hop with bad
  push Not at bad
  obtain rfl := Except.ok.inj hop
  refine ⟨⟨bad.2.1, by simp [start], ?_, ?_, ?_, by simp [start], Nat.zero_le _,
    by simp [start]⟩, by simp [start], nodup_nil, rfl, by simp [start]⟩
  all_goals exact (tally_eq_zero fun _ _ => rfl).symm

def Event.lease : Event → Option Lease
  | .wake lease _ => some lease
  | .yieldResume lease _ => some lease
  | .transition lease _ _ => some lease
  | .leave lease _ _ => some lease
  | _ => none

theorem stale_step (ht : Tracked w) {e : Event} (ha : e.lease = some l)
    (hs : progressSlot w.scheduler l = none) : w.step e = w := by
  cases e with
  | wake hg =>
    obtain rfl := some.inj ha
    have hab : hg ∉ w.waiting := by
      intro hm
      obtain ⟨wk, hf⟩ := ht.waits hg hm
      rw [hs] at hf
      simp at hf
    simp only [step, if_neg hab]
  | yieldResume =>
    obtain rfl := some.inj ha
    simp only [step, executionYieldResume, hs, filter_none, await_stale, ite_self]
  | transition =>
    obtain rfl := some.inj ha
    simp only [step, progressTransition, hs, filter_none, await_stale, ite_self]
  | leave =>
    obtain rfl := some.inj ha
    simp only [step, executionLeave, hs, ite_self]
  | enter | close | workerLost => simp [Event.lease] at ha

def Reissued (count : ℕ) (lease : Lease) (w : World) : Prop :=
  count ≤ w.issued.length ∧ ∀ work, w.scheduler.slots lease.slot = some work →
    work.generation = lease.generation →
      ∃ n, count < n ∧ n ≤ w.issued.length ∧ lease.generation = generationAt n

theorem Acted.reissued (ha : Acted w w') (ht : Tracked w) {m : ℕ}
    (hr : Reissued m l w) : Reissued m l w' := by
  cases ha with
  | still => exact hr
  | halted halt =>
    refine ⟨hr.1, ?_⟩
    intro wk hl hn
    obtain ⟨ho, b, hs, -⟩ := halt.calmed.toGranted.origin hl
    exact hr.2 ho b (hs.trans hn)
  | @called _ own t a hl c hi hd hw =>
    refine ⟨by rw [hi]; exact hr.1, ?_⟩
    intro wk hth hn
    rw [hi]
    by_cases hh : l.slot = own.slot
    · obtain ⟨ho, hf⟩ := hl
      obtain ⟨b, g⟩ := progressSlot_some hf
      rw [hh] at hth
      have hs := c.own_generation hth
      refine hr.2 ho (by rw [hh]; exact b) ?_
      rw [g, ← hs, hn]
    · obtain ⟨ho, b, hs, -⟩ := c.origin hth
      rw [c.touched.elsewhere l.slot hh] at b
      exact hr.2 ho b (hs.trans hn)
  | @entered _ own t a free g c hi hd hw =>
    have start := hr.1
    refine ⟨by rw [hi, length_cons]; omega, ?_⟩
    intro wk hth hn
    rw [hi, length_cons]
    by_cases hh : l.slot = own.slot
    · rw [hh] at hth
      have hs := c.own_generation hth
      refine ⟨w.issued.length + 1, by omega, le_rfl, ?_⟩
      rw [← hn, hs, g, ht.next, generationAfter_generationAt]
    · obtain ⟨ho, b, hs, -⟩ := c.origin hth
      rw [c.touched.elsewhere l.slot hh] at b
      obtain ⟨n, af, within, nu⟩ := hr.2 ho b (hs.trans hn)
      exact ⟨n, af, by omega, nu⟩

theorem reissued_run (ht : Tracked w) (hs : progressSlot w.scheduler l = none)
    (es : List Event) : Reissued w.issued.length l (run World.step w es) := by
  have st : Reissued w.issued.length l w := by
    refine ⟨le_rfl, ?_⟩
    intro wk hl hn
    rw [progressSlot_of_live ht.sound hl hn] at hs
    simp at hs
  have both : Tracked (run step w es) ∧ Reissued w.issued.length l (run step w es) :=
    run_invariant (P := fun u : World => Tracked u ∧ Reissued w.issued.length l u)
      (fun u e hk => ⟨(step_acted hk.1 e).tracked hk.1, (step_acted hk.1 e).reissued hk.1 hk.2⟩)
      ⟨ht, st⟩ es
  exact both.2

/-- A released lease stays stale until all other generations have been issued. -/
theorem retired_run (ht : Tracked w) {r earlier : List Lease}
    (his : w.issued = r ++ l :: earlier) (hs : progressSlot w.scheduler l = none)
    {events : List Event}
    (near : (run World.step w events).issued.length < earlier.length + wordLimit) :
    progressSlot (run World.step w events).scheduler l = none := by
  cases hf : progressSlot (run step w events).scheduler l with
  | none => rfl
  | some wk =>
    obtain ⟨live, hn⟩ := progressSlot_some hf
    obtain ⟨n, a, within, hag⟩ := (reissued_run ht hs events).2 wk live hn
    have own := ht.issued r l earlier his
    have length : w.issued.length = r.length + (earlier.length + 1) := by simp [his]
    exact absurd (own.symm.trans hag) (generationAt_ne (by omega) (by omega) (by omega))

structure Safe (w : World) : Prop where
  inUse : w.scheduler.inUseCount = tally Option.isSome w.scheduler.slots w.scheduler.capacity
  ready : w.scheduler.readyCount = tally isQueued w.scheduler.slots w.scheduler.capacity
  active : w.scheduler.activeCount = tally isActive w.scheduler.slots w.scheduler.capacity
  apart : ∀ i work, w.scheduler.slots i = some work →
    ¬(work.queued = true ∧ work.active = true)
  limited : w.scheduler.activeCount ≤ w.scheduler.activeLimit
  exclusive : ∀ i j a b, w.scheduler.slots i = some a → w.scheduler.slots j = some b →
    a.active = true → b.active = true → SameSequence a b → i = j
  stale : ∀ event lease, event.lease = some lease → progressSlot w.scheduler lease = none →
    w.step event = w
  retired : ∀ lease recent earlier, w.issued = recent ++ lease :: earlier →
    progressSlot w.scheduler lease = none → ∀ later,
      (run World.step w later).issued.length < earlier.length + wordLimit →
        progressSlot (run World.step w later).scheduler lease = none
  asked : ∀ lease, executionYieldRequested w.scheduler lease = true ↔
    ∃ work, progressSlot w.scheduler lease = some work ∧ work.active = true ∧
      (w.scheduler.stopping = true ∨
        ∃ i other, w.scheduler.slots i = some other ∧ other.queued = true)

/-- Whatever calls are made, the counters and slots stay consistent, and a lease that names
no work any more changes nothing and is asked for nothing. -/
theorem progress_safe (capacity width : ℕ) (allocated stored ready : Bool) (s : Scheduler)
    (opened : coordinatorOpen capacity width allocated stored ready = .ok s)
    (events : List Event) : Safe (run World.step (World.start s) events) := by
  have tracked := tracked_run (tracked_start opened) events
  have sound := tracked.sound
  exact ⟨sound.inUse, sound.ready, sound.active, sound.apart, sound.limited, sound.exclusive,
    fun event lease about stale => stale_step tracked about stale,
    fun lease recent earlier issued stale later near => retired_run tracked issued stale near,
    sound.yieldRequested_iff⟩

def never : Answers := fun _ _ => false

def sampleRequest (handle : ℕ) : Request := ⟨1, handle, .decode, false⟩

/-- Two works of one sequence: the second waits until the first leaves. -/
theorem progress_safe_pair :
    ∃ s, coordinatorOpen 2 2 true true true = .ok s ∧
      Safe (run World.step (World.start s)
        [.enter (sampleRequest 1) never, .enter (sampleRequest 1) never,
          .yieldResume ⟨0, 1⟩ never, .leave ⟨1, 2⟩ none never, .wake ⟨0, 1⟩ never]) :=
  ⟨_, rfl, progress_safe 2 2 true true true _ rfl _⟩

structure Single (n : ℕ) (active : ℕ) (w : World) : Prop where
  capacity : w.scheduler.capacity = 1
  limit : w.scheduler.activeLimit = 1
  count : w.scheduler.activeCount = active
  next : w.scheduler.nextGeneration = generationAt n
  stopping : w.scheduler.stopping = false
  waiting : w.waiting = []

def Vacant (n : ℕ) (w : World) : Prop := Single n 0 w ∧ w.scheduler.slots 0 = none

def Occupied (n : ℕ) (w : World) : Prop :=
  Single (n + 1) 1 w ∧ ∃ work, w.scheduler.slots 0 = some work ∧
    work.generation = generationAt (n + 1) ∧ work.active = true

def cycleLease (n : ℕ) : Lease := ⟨0, generationAt (n + 1)⟩

def cycle (n : ℕ) : List Event :=
  [.enter (sampleRequest 1) never, .leave (cycleLease n) none never]

def cyclesFrom (first : ℕ) : ℕ → List Event
  | 0 => []
  | count + 1 => cycle first ++ cyclesFrom (first + 1) count

/-- A queued work alone in the scheduler is granted at once. -/
theorem grant_alone {wk : Work} (c : s.capacity = 1) (lim : s.activeLimit = 1)
    (m : s.activeCount = 0) (hs : s.stopping = false) (hl : s.slots 0 = some wk)
    (hq : wk.queued = true) (hk : wk.cancellable = false) :
    progressGrant s never = progressActivate s 0 wk := by
  have scan : progressNextReady s (never 0) = (s, some (0, wk)) := by
    simp [progressNextReady, c, range_succ, scanCandidate, hl, hq, hk, progressActiveConflict]
  simp [progressGrant, hs, lim, m, grantRounds, scan]

theorem grant_empty (c : s.capacity = 1) (lim : s.activeLimit = 1)
    (m : s.activeCount = 0) (hs : s.stopping = false) (hf : s.slots 0 = none) :
    progressGrant s never = s := by
  have scan : progressNextReady s (never 0) = (s, none) := by
    simp [progressNextReady, c, range_succ, scanCandidate, hf]
  simp [progressGrant, hs, lim, m, grantRounds, scan]

variable {n : ℕ}

theorem Vacant.entered (hv : Vacant n w) :
    Occupied n (w.step (.enter (sampleRequest 1) never)) ∧
      (w.step (.enter (sampleRequest 1) never)).issued = cycleLease n :: w.issued := by
  obtain ⟨hh, hf⟩ := hv
  have h1 : firstWhere isNone w.scheduler.slots w.scheduler.capacity = some 0 := by
    rw [hh.capacity]
    simp [firstWhere, range_succ, hf]
  have g : generationAfter w.scheduler.nextGeneration = generationAt (n + 1) := by
    rw [hh.next, generationAfter_generationAt]
  set hq := queuedAs (progressAdmit w.scheduler 0 (sampleRequest 1)) 0
    (newWork (sampleRequest 1) (generationAt (n + 1))) with hqueued
  obtain ⟨wk, hl, hn, hi, hk⟩ : ∃ wk, hq.slots 0 = some wk ∧
      wk.generation = generationAt (n + 1) ∧ wk.queued = true ∧ wk.cancellable = false := by
    rw [hqueued]
    simp only [queuedAs, Scheduler.setSlot, Function.update_self, some.injEq, exists_eq_left']
    exact ⟨rfl, trivial, rfl⟩
  have hgr : progressGrant hq never = progressActivate hq 0 wk :=
    grant_alone hh.capacity hh.limit hh.count hh.stopping hl hi hk
  have i : (progressActivate hq 0 wk).slots 0 = some (grantedWork wk) := by
    simp only [progressActivate, Scheduler.setSlot, Function.update_self, grantedWork]
  have hs : progressSettle (progressActivate hq 0 wk) 0 =
      (progressActivate hq 0 wk, .admitted) := by
    simp [progressSettle, i, grantedWork]
  have o : executionEnter w.scheduler (sampleRequest 1) never =
      (progressActivate hq 0 wk, some (cycleLease n), .admitted) := by
    have hva : ¬((sampleRequest 1).engineGeneration = 0 ∨
        (sampleRequest 1).sequenceHandle = 0) := by decide
    simp only [executionEnter, if_neg hva, hh.stopping, Bool.false_eq_true, if_false, h1,
      g, progressEnqueue_eq, ← hqueued, hgr, hs]
    rfl
  have hct : (progressActivate hq 0 wk).activeCount = 1 := by
    change wordAdd w.scheduler.activeCount 1 = 1
    rw [hh.count]
    exact wordAdd_eq (by decide)
  simp only [step, o, await]
  refine ⟨⟨⟨hh.capacity, hh.limit, hct, g, hh.stopping,
    hh.waiting⟩, grantedWork wk, i, hn, rfl⟩, trivial⟩

theorem Occupied.found (hoc : Occupied n w) :
    ∃ wk, progressSlot w.scheduler (cycleLease n) = some wk ∧ wk.active = true := by
  obtain ⟨hsi, wk, hl, hn, ha⟩ := hoc
  refine ⟨wk, ?_, ha⟩
  simp [progressSlot, cycleLease, hsi.capacity, hl, hn]

theorem Occupied.left (hoc : Occupied n w) :
    Vacant (n + 1) (w.step (.leave (cycleLease n) none never)) := by
  obtain ⟨wk, hf, ha⟩ := hoc.found
  obtain ⟨hs, -⟩ := hoc
  have hl := (progressSlot_some hf).1
  have hr := progressActiveRemove_slot hl
  set hfd := progressRelease (progressActiveRemove w.scheduler 0 wk) 0 with hh
  have hfr : hfd.slots 0 = none := progressRelease_empty _ 0
  have ht : Touched w.scheduler hfd 0 :=
    (progressActiveRemove_touched _ 0 wk).trans (progressRelease_touched _ 0)
  have g : hfd.nextGeneration = generationAt (n + 1) :=
    ((progressRelease_counters _ 0).1.trans (progressActiveRemove_counters _ 0 wk).1).trans hs.next
  have m : hfd.activeCount = 0 := by
    have r : (progressActiveRemove w.scheduler 0 wk).activeCount = 0 := by
      simp only [progressActiveRemove, ha, Bool.not_true, Bool.false_eq_true, if_false, hs.count]
      exact wordSub_eq le_rfl (by decide)
    have rm : (progressActiveRemove w.scheduler 0 wk).slots 0 =
        some { wk with active := false } := hr
    rw [hh, progressRelease]
    simp [rm, r]
  have hgr : progressGrant hfd never = hfd :=
    grant_empty (ht.capacity.trans hs.capacity) (ht.activeLimit.trans hs.limit) m
      (ht.stopping.trans hs.stopping) hfr
  have hab : cycleLease n ∉ w.waiting := by simp [hs.waiting]
  have o : w.step (.leave (cycleLease n) none never) = { w with scheduler := hfd } := by
    simp only [step, if_neg hab, executionLeave, hf]
    rw [show (cycleLease n).slot = 0 from rfl, ← hh, hgr]
  rw [o]
  exact ⟨⟨ht.capacity.trans hs.capacity, ht.activeLimit.trans hs.limit, m,
    g, ht.stopping.trans hs.stopping, hs.waiting⟩, hfr⟩

theorem Vacant.cycled (hv : Vacant n w) :
    Vacant (n + 1) (run World.step w (cycle n)) := hv.entered.1.left

theorem Vacant.cycles (hv : Vacant n w) (m : ℕ) :
    Vacant (n + m) (run World.step w (cyclesFrom n m)) := by
  induction m generalizing n w with
  | zero => exact hv
  | succ m ih =>
    have r := ih hv.cycled
    rwa [Nat.add_assoc, Nat.add_comm 1 m] at r

theorem recurs_after {m : ℕ} (hag : cycleLease (1 + m) = cycleLease 0) :
    ∃ s b la l, coordinatorOpen 1 1 true true true = .ok s ∧
      l ∈ (run World.step (World.start s) b).issued ∧
      progressSlot (run World.step (World.start s) b).scheduler l = none ∧
      ∃ e, e.lease = some l ∧
        ((run World.step (World.start s) (b ++ la)).step e).scheduler.slots ≠
          (run World.step (World.start s) (b ++ la)).scheduler.slots := by
  obtain ⟨s, hop, start⟩ : ∃ s, coordinatorOpen 1 1 true true true = .ok s ∧
      Vacant 0 (start s) := ⟨_, rfl, ⟨rfl, rfl, rfl, rfl, rfl, rfl⟩, rfl⟩
  have lap := (start.cycled.cycles m).entered.1
  have hem := lap.left.2
  obtain ⟨-, wk, hl, -, -⟩ := lap
  rw [Nat.zero_add, hag] at hem
  refine ⟨s, cycle 0, cyclesFrom 1 m ++ [.enter (sampleRequest 1) never], cycleLease 0, hop,
    ?_, ?_, .leave (cycleLease 0) none never, rfl, ?_⟩
  · have hk : ∀ u : World, (u.step (.leave (cycleLease 0) none never)).issued = u.issued := by
      intro u
      simp only [step]
      split_ifs <;> rfl
    rw [cycle, run, run, run, hk, start.entered.2]
    exact mem_cons_self
  · simp [progressSlot, cycleLease, start.cycled.2]
  · rw [run_append, run_append, run, run]
    intro hs
    have hg := congrFun hs 0
    rw [hem, hl] at hg
    simp at hg

/-- With one slot, the generation of the first work returns when the counter wraps. -/
theorem released_lease_recurs :
    ∃ s before later lease, coordinatorOpen 1 1 true true true = .ok s ∧
      lease ∈ (run World.step (World.start s) before).issued ∧
      progressSlot (run World.step (World.start s) before).scheduler lease = none ∧
      ∃ event, event.lease = some lease ∧
        ((run World.step (World.start s) (before ++ later)).step event).scheduler.slots ≠
          (run World.step (World.start s) (before ++ later)).scheduler.slots := by
  have limit : 2 < wordLimit := by decide
  obtain ⟨count, whole⟩ : ∃ count, 1 + count = wordLimit - 1 := ⟨wordLimit - 2, by omega⟩
  refine recurs_after (?_ : cycleLease (1 + count) = cycleLease 0)
  rw [whole]
  simp only [cycleLease, generationAt_wrap, Nat.zero_add]

end Yvex.ProgressScheduler
