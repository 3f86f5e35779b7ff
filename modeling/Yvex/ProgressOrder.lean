import Yvex.ProgressLeases

/-!
# The order of grants

After every event the scheduler is saturated, and each grant goes to the earliest
submission that no active work conflicts with. A work that yields is submitted
again, behind everything that is queued by then.
-/

set_option autoImplicit false

namespace Yvex.ProgressScheduler

open CheckedArithmetic SlotTable WordCounter Runs World

structure Pick where
  scheduler : Scheduler
  slot : ℕ
  work : Work

def grantPicks : ℕ → Answers → Scheduler → List Pick
  | 0, _, _ => []
  | rounds + 1, answers, s =>
    match progressNextReady s (answers 0) with
    | (_, none) => []
    | (scanned, some (index, work)) =>
      ⟨scanned, index, work⟩ ::
        grantPicks rounds (fun scan => answers (scan + 1)) (progressActivate scanned index work)

def progressPicks (s : Scheduler) (answers : Answers) : List Pick :=
  if s.stopping then [] else grantPicks (s.activeLimit - s.activeCount) answers s

variable {s : Scheduler} {answers : Answers} {r : ℕ}

theorem grantPicks_earliest (hs : Sound s) (left : s.activeLimit = s.activeCount + r) :
    ∀ pi ∈ grantPicks r answers s, Sound pi.scheduler ∧
      Earliest pi.scheduler pi.scheduler.capacity pi.slot pi.work := by
  induction r generalizing s answers with
  | zero => simp [grantPicks]
  | succ r ih =>
    have hsc := progressNextReady_scanned hs (answers 0)
    rw [grantPicks]
    rcases scan : progressNextReady s (answers 0) with ⟨t, f⟩
    rw [scan] at hsc
    cases f with
    | none => simp
    | some p =>
      obtain ⟨k, w⟩ := p
      obtain ⟨ha, -, leftNow⟩ := hsc.activated left
      intro pi hm
      rcases List.mem_cons.mp hm with rfl | hl
      · have hea := hsc.found k w rfl
        rw [← hsc.calmed.capacity] at hea
        exact ⟨hsc.sound, hea⟩
      · exact ih ha leftNow pi hl

variable {i : ℕ}

/-- Whatever the loop activates, it picked. -/
theorem grantRounds_picked (hs : Sound s) (left : s.activeLimit = s.activeCount + r)
    {w : Work} (hl : (grantRounds r answers s).slots i = some w) (hac : w.active = true) :
    s.slots i = some w ∨ ∃ pi ∈ grantPicks r answers s, pi.slot = i ∧ w = grantedWork pi.work := by
  induction r generalizing s answers with
  | zero => exact .inl hl
  | succ r ih =>
    have hsc := progressNextReady_scanned hs (answers 0)
    rw [grantRounds] at hl
    rw [grantPicks]
    rcases scan : progressNextReady s (answers 0) with ⟨t, f⟩
    rw [scan] at hsc hl
    cases f with
    | none => exact .inl (hsc.calmed.active hs hl hac)
    | some p =>
      obtain ⟨k, v⟩ := p
      obtain ⟨ha, -, leftNow⟩ := hsc.activated left
      rcases ih ha leftNow hl with hth | ⟨pi, hm, hh⟩
      · by_cases picked : i = k
        · subst picked
          have slot : (progressActivate t i v).slots i = some (grantedWork v) :=
            Function.update_self ..
          rw [slot] at hth
          exact .inr ⟨_, List.mem_cons_self, rfl, (Option.some.inj hth).symm⟩
        · have hk : (progressActivate t k v).slots i = t.slots i := Function.update_of_ne picked _ _
          rw [hk] at hth
          exact .inl (hsc.calmed.active hs hth hac)
      · exact .inr ⟨pi, List.mem_cons_of_mem _ hm, hh⟩

theorem progressPicks_earliest (hs : Sound s) (answers : Answers) :
    ∀ p ∈ progressPicks s answers, Sound p.scheduler ∧
      Earliest p.scheduler p.scheduler.capacity p.slot p.work := by
  have hlm := hs.limited
  unfold progressPicks
  split_ifs
  · simp
  · exact grantPicks_earliest hs (by omega)

theorem progressGrant_picked (hs : Sound s) {w : Work}
    (hl : (progressGrant s answers).slots i = some w) (ha : w.active = true) :
    s.slots i = some w ∨ ∃ p ∈ progressPicks s answers, p.slot = i ∧ w = grantedWork p.work := by
  have hlm := hs.limited
  unfold progressGrant at hl
  unfold progressPicks
  split_ifs at hl ⊢
  · exact .inl hl
  · exact grantRounds_picked hs (by omega) hl ha

def World.granting (world : World) : Event → Option (Scheduler × Answers)
  | .enter request answers =>
    if request.engineGeneration = 0 ∨ request.sequenceHandle = 0 ∨
        world.scheduler.stopping = true then none
    else (firstWhere Option.isNone world.scheduler.slots world.scheduler.capacity).map
      fun index => (queuedAs (progressAdmit world.scheduler index request) index
        (newWork request (generationAfter world.scheduler.nextGeneration)), answers)
  | .wake lease answers => if lease ∈ world.waiting then some (world.scheduler, answers) else none
  | .yieldResume lease answers =>
    if lease ∈ world.waiting ∨ world.scheduler.stopping = true then none
    else ((progressSlot world.scheduler lease).filter Work.active).map fun work =>
      (queuedAs (progressActiveRemove world.scheduler lease.slot work) lease.slot
        { work with active := false }, answers)
  | .transition lease kind answers =>
    if lease ∈ world.waiting ∨ world.scheduler.stopping = true then none
    else ((progressSlot world.scheduler lease).filter Work.active).map fun work =>
      (queuedAs (progressActiveRemove world.scheduler lease.slot work) lease.slot
        { work with active := false, kind := kind }, answers)
  | .leave lease _ answers =>
    if lease ∈ world.waiting then none
    else (progressSlot world.scheduler lease).map fun work =>
      (progressRelease (progressActiveRemove world.scheduler lease.slot work) lease.slot, answers)
  | .close => none
  | .workerLost => none

def World.picks (world : World) (event : Event) : List Pick :=
  match world.granting event with
  | some (s, answers) => progressPicks s answers
  | none => []

structure GrantsIn (w : World) (event : Event) (t : Scheduler) (answers : Answers) : Prop where
  sound : Sound t
  kept : ∀ i work, t.slots i = some work → work.active = true →
    w.scheduler.slots i = some work
  after : ∀ i work, (w.step event).scheduler.slots i = some work →
    (progressGrant t answers).slots i = some work

def Idles (w : World) (event : Event) : Prop :=
  ∀ i work, (w.step event).scheduler.slots i = some work → work.active = true →
    w.scheduler.slots i = some work

variable {w : World} {e : Event} {t : Scheduler} {l : Lease} {next : ℕ}

theorem CallVia.grantsIn (hc : CallVia w.scheduler t answers (w.step e).scheduler l next)
    (idle : ∀ wk, t.slots l.slot = some wk → wk.active = true →
      w.scheduler.slots l.slot = some wk) :
    GrantsIn w e t answers where
  sound := hc.sound
  kept := by
    intro i wk hl ha
    by_cases hh : i = l.slot
    · subst hh
      exact idle wk hl ha
    · rw [← hc.touched.elsewhere i hh]
      exact hl
  after := by
    intro i wk hl
    obtain ⟨-, ht, slot⟩ := hc.after_grant
    by_cases hh : i = l.slot
    · subst hh
      rcases slot with hs | hg
      · rw [← hs]
        exact hl
      · rw [hl] at hg
        simp at hg
    · rw [← ht.elsewhere i hh]
      exact hl

theorem GrantsIn.idles (hg : GrantsIn w e t answers) (hs : t.stopping = true) :
    Idles w e := by
  intro i wk hl ha
  have hth := hg.after i wk hl
  rw [progressGrant, if_pos hs] at hth
  exact hg.kept i wk hth ha

variable {wk : Work}

section Events

variable {w : World}

theorem idles_of_same (hs : (w.step e).scheduler = w.scheduler) : Idles w e := by
  intro i wk hl _
  rw [hs] at hl
  exact hl

theorem queuedAs_inactive {k : ℕ} {v : Work} (hl : (queuedAs s k v).slots k = some wk) :
    ¬wk.active = true := by
  simp only [queuedAs, Scheduler.setSlot, Function.update_self, Option.some.injEq] at hl
  simp [← hl]

theorem released_vacant {k : ℕ} (hl : (progressRelease s k).slots k = some wk) : False := by
  rw [progressRelease_empty] at hl
  simp at hl

def GrantingRight (w : World) (event : Event) : Prop :=
  match w.granting event with
  | some (t, answers) => GrantsIn w event t answers
  | none => Idles w event

theorem requeue_granting (ht : Tracked w) {k : Work → ProgressKind}
    {o : Scheduler × Admission} (d : String)
    (hn : w.granting e = if l ∈ w.waiting ∨ w.scheduler.stopping = true then none
      else ((progressSlot w.scheduler l).filter Work.active).map fun wk =>
        (queuedAs (progressActiveRemove w.scheduler l.slot wk) l.slot
          { wk with active := false, kind := k wk }, answers))
    (hs : w.step e = if l ∈ w.waiting then w else w.await l o)
    (hr : (progressSlot w.scheduler l).filter Work.active = none → o.1 = w.scheduler)
    (acts : ∀ wk, (progressSlot w.scheduler l).filter Work.active = some wk →
      o = requeue w.scheduler l.slot wk (k wk) d answers) :
    GrantingRight w e := by
  unfold GrantingRight
  rw [hn]
  by_cases hh : l ∈ w.waiting
  · rw [if_pos (.inl hh)]
    rw [if_pos hh] at hs
    exact idles_of_same (by rw [hs])
  rw [if_neg hh] at hs
  have a : (w.step e).scheduler = o.1 := by rw [hs]; rfl
  cases hf : (progressSlot w.scheduler l).filter Work.active with
  | none => simpa using idles_of_same (a.trans (hr hf))
  | some wk =>
    rw [acts wk hf] at a
    rw [Option.filter_eq_some_iff] at hf
    cases hst : w.scheduler.stopping with
    | true =>
      have c := requeue_draining ht.sound hf.1 hst (k wk) d answers
      rw [← a] at c
      have g := c.grantsIn fun _ hl => (released_vacant hl).elim
      simpa using g.idles (c.touched.stopping.trans hst)
    | false =>
      have c := requeue_running ht.sound hf.1 hf.2 hst (k wk) d answers
      rw [← a] at c
      simpa [hh] using c.grantsIn fun _ hl ha => absurd ha (queuedAs_inactive hl)

/-- Every grant loop of a run grants right. -/
theorem granting_right (ht : Tracked w) (e : Event) : GrantingRight w e := by
  cases e with
  | enter re answers =>
    simp only [GrantingRight, granting]
    by_cases hid : re.engineGeneration = 0 ∨ re.sequenceHandle = 0
    · have hs : w.step (.enter re answers) = w := by simp only [step, executionEnter, if_pos hid]
      rw [if_pos (by tauto)]
      exact idles_of_same (by rw [hs])
    cases stopping : w.scheduler.stopping with
    | true =>
      have hs : w.step (.enter re answers) = w := by
        simp only [step, executionEnter, if_neg hid, stopping, if_true]
      simpa using idles_of_same (by rw [hs])
    | false =>
      cases free : firstWhere Option.isNone w.scheduler.slots w.scheduler.capacity with
      | none =>
        have hs : w.step (.enter re answers) = w := by
          simp only [step, executionEnter, if_neg hid, stopping, free]
          rfl
        simpa using idles_of_same (by rw [hs])
      | some ix =>
        obtain ⟨hin, isFree⟩ := firstWhere_some free
        have c := enter_call ht.sound (by simpa using isFree) hin re answers
        have a : (w.step (.enter re answers)).scheduler = (progressSettle
            (progressEnqueue (progressAdmit w.scheduler ix re) ix
              (newWork re (generationAfter w.scheduler.nextGeneration)) answers) ix).1 := by
          simp only [step, executionEnter, if_neg hid, stopping, free]
          rfl
        rw [← a] at c
        have hv : ¬(re.engineGeneration = 0 ∨ re.sequenceHandle = 0 ∨
            false = true) := by simpa [not_or] using hid
        rw [if_neg hv]
        exact c.grantsIn fun _ hl ha => absurd ha (queuedAs_inactive hl)
  | wake l answers =>
    unfold GrantingRight granting
    by_cases hm : l ∈ w.waiting
    · obtain ⟨wk, hf⟩ := ht.waits l hm
      have c := wake_call ht.sound hf answers
      have a : (w.step (.wake l answers)).scheduler =
          (progressSettle (progressGrant w.scheduler answers) l.slot).1 := by
        rw [step, if_pos hm]
        rfl
      rw [← a] at c
      simpa [hm] using c.grantsIn fun _ hl _ => hl
    · have hs : w.step (.wake l answers) = w := by rw [step, if_neg hm]
      simpa [hm] using idles_of_same (by rw [hs])
  | yieldResume =>
    refine requeue_granting (k := Work.kind) ht
      "draining scheduler rejected execution yield" rfl rfl ?_ ?_
    · intro none
      simp only [executionYieldResume, none]
    · intro wk hf
      simp only [executionYieldResume, hf]
  | transition l ki =>
    refine requeue_granting (k := fun _ => ki) ht
      "draining engine scheduler rejected a phase transition" rfl rfl ?_ ?_
    · intro none
      simp only [progressTransition, none]
    · intro wk hf
      simp only [progressTransition, hf]
  | leave l status answers =>
    unfold GrantingRight granting
    by_cases hm : l ∈ w.waiting
    · have hs : w.step (.leave l status answers) = w := by rw [step, if_pos hm]
      simpa [hm] using idles_of_same (by rw [hs])
    cases hf : progressSlot w.scheduler l with
    | none =>
      have hs : (w.step (.leave l status answers)).scheduler = w.scheduler := by
        simp only [step, if_neg hm, executionLeave, hf]
      simpa [hm, hf] using idles_of_same hs
    | some wk =>
      have c := leave_call ht.sound hf answers
      have a : (w.step (.leave l status answers)).scheduler = progressGrant
          (progressRelease (progressActiveRemove w.scheduler l.slot wk) l.slot)
          answers := by
        simp only [step, if_neg hm, executionLeave, hf]
      rw [← a] at c
      simpa [hm, hf] using c.grantsIn fun _ hl => (released_vacant hl).elim
  | close =>
    exact fun i wk hl ha => (coordinatorStop_halted ht.sound).calmed.active ht.sound.stop hl ha
  | workerLost => exact fun i wk hl _ => hl

theorem picks_earliest (ht : Tracked w) (e : Event) :
    ∀ p ∈ w.picks e, Sound p.scheduler ∧
      Earliest p.scheduler p.scheduler.capacity p.slot p.work := by
  have right := granting_right ht e
  unfold GrantingRight at right
  unfold picks
  split at right
  · exact progressPicks_earliest right.sound _
  · simp

theorem picks_all (ht : Tracked w) (hl : (w.step e).scheduler.slots i = some wk)
    (ha : wk.active = true) : w.scheduler.slots i = some wk ∨
      ∃ p ∈ w.picks e, p.slot = i ∧ wk = grantedWork p.work := by
  have right := granting_right ht e
  unfold GrantingRight at right
  unfold picks
  split at right
  · rcases progressGrant_picked right.sound (right.after i wk hl) ha with hth | hp
    · exact .inl (right.kept i wk hth ha)
    · exact .inr hp
  · exact .inl (right i wk hl ha)

end Events

variable {w' : World}

theorem Acted.saturated (ha : Acted w w')
    (hsa : w.scheduler.stopping = false → Saturated w.scheduler)
    (hr : w'.scheduler.stopping = false) : Saturated w'.scheduler := by
  cases ha with
  | still => exact hsa hr
  | halted halt =>
    have hs := halt.calmed.stopping
    rw [hr] at hs
    simp at hs
  | called _ c | entered _ _ c => exact c.saturated hr

structure Numbered (n : ℕ) (w : World) : Prop where
  next : w.scheduler.nextOrdinal ≤ n
  ordinals : ∀ i work, w.scheduler.slots i = some work →
    work.submissionOrdinal ≤ w.scheduler.nextOrdinal

theorem CallVia.numbered {n : ℕ}
    (hc : CallVia w.scheduler t answers w'.scheduler l next) (hn : Numbered n w)
    (hsm : n + 1 < wordLimit) : Numbered (n + 1) w' := by
  have b := hn.next
  have a := generationAfter_eq (n := w.scheduler.nextOrdinal) (by omega)
  obtain ⟨-, hs⟩ := hc.counters
  rcases hc.ordinal with ⟨kept, own⟩ | ⟨had, own⟩
  · refine ⟨by omega, ?_⟩
    intro i wk hl
    obtain ⟨ho, ht, -, j⟩ := hc.origin hl
    have hb : ho.submissionOrdinal ≤ w.scheduler.nextOrdinal := by
      by_cases hh : i = l.slot
      · subst hh
        exact hn.ordinals _ ho (own ho ht)
      · rw [hc.touched.elsewhere i hh] at ht
        exact hn.ordinals i ho ht
    omega
  · refine ⟨by omega, ?_⟩
    intro i wk hl
    obtain ⟨ho, ht, -, j⟩ := hc.origin hl
    by_cases hh : i = l.slot
    · subst hh
      have hfr := own ho ht
      omega
    · rw [hc.touched.elsewhere i hh] at ht
      have hb := hn.ordinals i ho ht
      omega

theorem Acted.numbered (ha : Acted w w') {n : ℕ} (hn : Numbered n w)
    (hsm : n + 1 < wordLimit) : Numbered (n + 1) w' := by
  have b := hn.next
  cases ha with
  | still => exact ⟨by omega, hn.ordinals⟩
  | halted hh =>
    have hs := hh.calmed.nextOrdinal
    refine ⟨le_trans (le_of_eq hs) (by simp only; omega), ?_⟩
    intro i wk hl
    obtain ⟨old, hth, -, j⟩ := hh.calmed.toGranted.origin hl
    have hb := hn.ordinals i old hth
    simp only at hs ⊢
    omega
  | called _ c | entered _ _ c => exact c.numbered hn hsm

theorem numbered_run (ht : Tracked w) (hnm : Numbered 0 w) (es : List Event)
    (hsm : es.length < wordLimit) :
    Numbered es.length (run World.step w es) := by
  induction es using List.reverseRecOn with
  | nil => exact hnm
  | append_singleton es e ih =>
    rw [List.length_append, List.length_singleton] at hsm ⊢
    rw [run_append]
    exact (step_acted (tracked_run ht es) e).numbered (ih (by omega)) hsm

theorem saturated_run (ht : Tracked w)
    (hsa : w.scheduler.stopping = false → Saturated w.scheduler) (es : List Event) :
    (run World.step w es).scheduler.stopping = false →
      Saturated (run World.step w es).scheduler := by
  have both := run_invariant
      (P := fun u : World => Tracked u ∧ (u.scheduler.stopping = false → Saturated u.scheduler))
      (fun u e hk => ⟨(step_acted hk.1 e).tracked hk.1, (step_acted hk.1 e).saturated hk.2⟩)
      ⟨ht, hsa⟩ es
  exact both.2

def Yields (w : World) (lease : Lease) (answers : Answers) (work : Work) : Prop :=
  ∃ t, w.granting (.yieldResume lease answers) = some (t, answers) ∧
    t.slots lease.slot = some work

theorem Yields.ordinal (hy : Yields w l answers wk) :
    wk.submissionOrdinal = generationAfter w.scheduler.nextOrdinal := by
  obtain ⟨t, g, hl⟩ := hy
  simp only [granting] at g
  split_ifs at g
  rw [Option.map_eq_some_iff] at g
  obtain ⟨old, -, hs⟩ := g
  obtain ⟨rfl, -⟩ := Prod.mk.inj hs
  simp only [queuedAs, Scheduler.setSlot, Function.update_self, Option.some.injEq] at hl
  rw [← hl, (progressActiveRemove_counters w.scheduler l.slot old).2]

structure InOrder (w : World) : Prop where
  saturated : w.scheduler.stopping = false → Saturated w.scheduler
  earliest : ∀ event, ∀ pick ∈ w.picks event,
    Earliest pick.scheduler pick.scheduler.capacity pick.slot pick.work
  picked : ∀ event i work, (w.step event).scheduler.slots i = some work → work.active = true →
    w.scheduler.slots i = some work ∨
      ∃ pick ∈ w.picks event, pick.slot = i ∧ work = grantedWork pick.work

/-- Once the work that yielded is granted again, what was queued before the yield and still
waits conflicts with active work. -/
def YieldsBehind (w : World) : Prop :=
  ∀ lease answers yielded rest later event, Yields w lease answers yielded →
    Event.yieldResume lease answers :: rest = later ++ [event] →
    ∀ pick ∈ (run World.step w later).picks event, pick.slot = lease.slot →
      pick.work.submissionOrdinal = yielded.submissionOrdinal →
      ∀ i before now, w.scheduler.slots i = some before → before.queued = true →
        pick.scheduler.slots i = some now → now.queued = true →
        now.submissionOrdinal = before.submissionOrdinal → Conflicts pick.scheduler i now

/-- Along every run, work is granted in the order of its submission as far as sequences and width
allow. -/
theorem progress_in_order (capacity width : ℕ) (allocated stored ready : Bool) (s : Scheduler)
    (opened : coordinatorOpen capacity width allocated stored ready = .ok s)
    (events : List Event) :
    InOrder (run World.step (World.start s) events) ∧
      (events.length + 1 < wordLimit →
        YieldsBehind (run World.step (World.start s) events)) := by
  have start := tracked_start opened
  have tracked := tracked_run start events
  obtain ⟨empty, none⟩ : (∀ i, s.slots i = none) ∧ s.nextOrdinal = 0 := by
    unfold coordinatorOpen at opened
    split_ifs at opened
    obtain rfl := Except.ok.inj opened
    exact ⟨fun _ => rfl, rfl⟩
  constructor
  · refine ⟨saturated_run start ?_ events,
      fun event pick member => (picks_earliest tracked event pick member).2,
      fun event i work => picks_all tracked⟩
    intro _
    right
    intro i work live
    rw [World.start, empty] at live
    simp at live
  · intro small lease answers yielded rest later event yields split pick member slot again i before
      now waited queued live still same
    have numbered : Numbered events.length (run World.step (World.start s) events) := by
      refine numbered_run start ⟨le_of_eq none, ?_⟩ events (by omega)
      intro j work there
      rw [World.start, empty] at there
      simp at there
    have trackedLater := tracked_run tracked later
    obtain ⟨sound, earliest⟩ := picks_earliest trackedLater event pick member
    have ordinal := yields.ordinal
    have bound := numbered.ordinals i before waited
    have next := numbered.next
    rw [generationAfter_eq (by omega)] at ordinal
    by_contra free
    have first := earliest.first i now (sound.placed i now live) live still free
    omega

def crowded : List Event :=
  [.enter (sampleRequest 1) never, .enter (sampleRequest 2) never,
    .enter (sampleRequest 3) never, .enter (sampleRequest 3) never]

theorem progress_in_order_crowded :
    ∃ s, coordinatorOpen 4 2 true true true = .ok s ∧
      InOrder (run World.step (World.start s) crowded) ∧
      YieldsBehind (run World.step (World.start s) crowded) :=
  ⟨_, rfl, (progress_in_order 4 2 true true true _ rfl crowded).1,
    (progress_in_order 4 2 true true true _ rfl crowded).2 (by decide)⟩

/-- The fourth work could be granted when the second one yields, but the third is granted
then and holds the fourth back; the second is granted again before it. -/
theorem yielded_work_overtakes :
    ∃ s yielded waited, coordinatorOpen 4 2 true true true = .ok s ∧
      Yields (run World.step (World.start s) crowded) ⟨1, 2⟩ never yielded ∧
      (run World.step (World.start s) crowded).scheduler.slots 3 = some waited ∧
      waited.queued = true ∧
      (∃ t, (run World.step (World.start s) crowded).granting (.yieldResume ⟨1, 2⟩ never) =
        some (t, never) ∧ progressActiveConflict t 3 waited = false) ∧
      ∃ pick ∈ (run World.step (World.start s) (crowded ++ [.yieldResume ⟨1, 2⟩ never])).picks
          (.leave ⟨0, 1⟩ none never),
        pick.slot = 1 ∧ pick.work.submissionOrdinal = yielded.submissionOrdinal ∧
          pick.scheduler.slots 3 = some waited := by
  refine ⟨_, _, _, rfl, ⟨_, rfl, rfl⟩, rfl, rfl, ⟨_, rfl, rfl⟩, ?_⟩
  decide +kernel

end Yvex.ProgressScheduler
