import Yvex.ProgressGrant

/-!
# Calls of the progress scheduler

A call changes its own slot, grants, and may give the slot back when it was not
admitted. What it does to the other slots is only what granting does.
-/

set_option autoImplicit false

namespace Yvex.ProgressScheduler

open AttentionData WordCounter Option Function

structure Touched (s t : Scheduler) (k : ℕ) : Prop where
  capacity : t.capacity = s.capacity
  activeLimit : t.activeLimit = s.activeLimit
  stopping : t.stopping = s.stopping
  elsewhere : ∀ i, i ≠ k → t.slots i = s.slots i

theorem Touched.refl (s : Scheduler) (k : ℕ) : Touched s s k := ⟨rfl, rfl, rfl, fun _ _ => rfl⟩

variable {k : ℕ}

theorem Touched.trans {s t u : Scheduler} (h1 : Touched s t k) (h2 : Touched t u k) :
    Touched s u k where
  capacity := h2.capacity.trans h1.capacity
  activeLimit := h2.activeLimit.trans h1.activeLimit
  stopping := h2.stopping.trans h1.stopping
  elsewhere := fun i ho => (h2.elsewhere i ho).trans (h1.elsewhere i ho)

theorem progressActiveRemove_touched (s : Scheduler) (k : ℕ) (w : Work) :
    Touched s (progressActiveRemove s k w) k := by
  unfold progressActiveRemove
  split_ifs
  · exact .refl s k
  · exact ⟨rfl, rfl, rfl, fun i ho => update_of_ne ho _ _⟩

theorem progressRelease_touched (s : Scheduler) (k : ℕ) : Touched s (progressRelease s k) k := by
  unfold progressRelease
  split
  · exact .refl s k
  · exact ⟨rfl, rfl, rfl, fun i ho => update_of_ne ho _ _⟩

theorem progressRelease_empty (s : Scheduler) (k : ℕ) : (progressRelease s k).slots k = none := by
  unfold progressRelease
  split
  · assumption
  · exact update_self ..

theorem progressActiveRemove_counters (s : Scheduler) (k : ℕ) (w : Work) :
    (progressActiveRemove s k w).nextGeneration = s.nextGeneration ∧
      (progressActiveRemove s k w).nextOrdinal = s.nextOrdinal := by
  unfold progressActiveRemove
  split_ifs <;> exact ⟨rfl, rfl⟩

theorem progressRelease_counters (s : Scheduler) (k : ℕ) :
    (progressRelease s k).nextGeneration = s.nextGeneration ∧
      (progressRelease s k).nextOrdinal = s.nextOrdinal := by
  unfold progressRelease
  split <;> exact ⟨rfl, rfl⟩

variable {s : Scheduler} {w : Work}

theorem progressRelease_free (hl : s.slots k = none) : progressRelease s k = s := by
  simp [progressRelease, hl]

theorem progressActiveRemove_slot (hl : s.slots k = some w) :
    (progressActiveRemove s k w).slots k = some { w with active := false } := by
  unfold progressActiveRemove
  cases ha : w.active with
  | true => exact update_self ..
  | false =>
    have hs : { w with active := false } = w := by rw [← ha]
    simp only [Bool.not_false, if_true, hl, hs]

inductive Settled (s : Scheduler) (k : ℕ) : Scheduler × Admission → Prop where
  | waits {w : Work} (live : s.slots k = some w) : Settled s k (s, .waiting)
  | admits : Settled s k (s, .admitted)
  | refuses (refusal : Refusal)
      (idle : ∀ w, s.slots k = some w →
        w.active = false ∧ (s.stopping = false → w.queued = false)) :
      Settled s k (progressRelease s k, .refused refusal)

/-- A woken call waits on, is admitted, or is refused and gives its slot back. -/
theorem progressSettle_settled (s : Scheduler) (k : ℕ) : Settled s k (progressSettle s k) := by
  unfold progressSettle
  cases hl : s.slots k with
  | none =>
    have hr := Settled.refuses (s := s) (k := k)
      (schedulerRefuse .state "engine scheduler stopped before sequence work admission")
      (by simp [hl])
    rwa [progressRelease_free hl] at hr
  | some w =>
    simp only
    split_ifs with hw ha
    · exact .waits hl
    · exact .admits
    all_goals
      apply Settled.refuses
      intro v hs
      rw [hl] at hs
      obtain rfl := some.inj hs
      refine ⟨by simpa using ha, ?_⟩
      intro hru
      simpa [hru] using hw

variable {o : Scheduler × Admission}

section Settled

variable (st : Settled s k o)
include st

theorem Settled.state : o.1 = s ∨ o.1 = progressRelease s k := by
  cases st with
  | waits => exact .inl rfl
  | admits => exact .inl rfl
  | refuses => exact .inr rfl

theorem Settled.touched : Touched s o.1 k := by
  rcases st.state with hs | hs <;> rw [hs]
  · exact .refl s k
  · exact progressRelease_touched s k

theorem Settled.sound (hs : Sound s) : Sound o.1 := by
  rcases st.state with h | h <;> rw [h]
  · exact hs
  · exact hs.release k

theorem Settled.waiting_live (hw : o.2 = .waiting) : ∃ w, o.1.slots k = some w := by
  cases st with
  | waits hl => exact ⟨_, hl⟩
  | admits => simp at hw
  | refuses => simp at hw

theorem Settled.slot : o.1.slots k = s.slots k ∨ o.1.slots k = none := by
  rcases st.state with hs | hs <;> rw [hs]
  · exact .inl rfl
  · exact .inr (progressRelease_empty s k)

theorem Settled.counters :
    o.1.nextGeneration = s.nextGeneration ∧ o.1.nextOrdinal = s.nextOrdinal := by
  rcases st.state with hs | hs <;> rw [hs]
  · exact ⟨rfl, rfl⟩
  · exact progressRelease_counters s k

/-- Giving an idle slot back frees nobody's sequence and no grant. -/
theorem Settled.saturated (hh : Saturated s) : Saturated o.1 := by
  cases st with
  | waits => exact hh
  | admits => exact hh
  | refuses r idle =>
    cases hl : s.slots k with
    | none =>
      rw [progressRelease_free hl]
      exact hh
    | some w =>
      have hin := (idle w hl).1
      have hct : (progressRelease s k).activeCount = s.activeCount := by
        simp [progressRelease, hl, hin]
      have ht := progressRelease_touched s k
      rcases hh with hf | hb
      · exact .inl (by rw [hct, ht.activeLimit]; exact hf)
      right
      intro i v hlv hq
      have ho : i ≠ k := by
        rintro rfl
        rw [progressRelease_empty] at hlv
        simp at hlv
      rw [ht.elsewhere i ho] at hlv
      obtain ⟨j, a, ha, hli, hac, hs⟩ := hb i v hlv hq
      have hk : j ≠ k := by
        rintro rfl
        rw [hl] at hli
        obtain rfl := some.inj hli
        rw [hin] at hac
        simp at hac
      exact ⟨j, a, ha, by rw [ht.elsewhere j hk]; exact hli, hac, hs⟩

end Settled

structure CallVia (s t : Scheduler) (answers : Answers) (s' : Scheduler) (lease : Lease)
    (next : ℕ) : Prop where
  touched : Touched s t lease.slot
  sound : Sound t
  own : ∀ w, t.slots lease.slot = some w → w.generation = lease.generation
  generation : t.nextGeneration = next
  ordinal : (t.nextOrdinal = s.nextOrdinal ∧
      ∀ w, t.slots lease.slot = some w → s.slots lease.slot = some w) ∨
    (t.nextOrdinal = generationAfter s.nextOrdinal ∧
      ∀ w, t.slots lease.slot = some w → w.submissionOrdinal = generationAfter s.nextOrdinal)
  settled : s' = progressGrant t answers ∨
    ∃ admission, Settled (progressGrant t answers) lease.slot (s', admission)

section Calls

variable {s t s' : Scheduler} {ans : Answers} {l : Lease} {next : ℕ}

theorem CallVia.after_grant (c : CallVia s t ans s' l next) :
    Sound s' ∧ Touched (progressGrant t ans) s' l.slot ∧
      (s'.slots l.slot = (progressGrant t ans).slots l.slot ∨ s'.slots l.slot = none) := by
  have hgr := (progressGrant_spec ans c.sound).1
  rcases c.settled with rfl | ⟨ha, hs⟩
  · exact ⟨hgr, .refl _ l.slot, .inl rfl⟩
  · exact ⟨hs.sound hgr, hs.touched, hs.slot⟩

theorem CallVia.frame (c : CallVia s t ans s' l next) :
    s'.capacity = s.capacity ∧ s'.activeLimit = s.activeLimit ∧ s'.stopping = s.stopping := by
  have hgr := (progressGrant_spec ans c.sound).2.1
  have a := c.after_grant.2.1
  exact ⟨a.capacity.trans (hgr.capacity.trans c.touched.capacity),
    a.activeLimit.trans (hgr.activeLimit.trans c.touched.activeLimit),
    a.stopping.trans (hgr.stopping.trans c.touched.stopping)⟩

theorem CallVia.counters (c : CallVia s t ans s' l next) :
    s'.nextGeneration = next ∧ s'.nextOrdinal = t.nextOrdinal := by
  have hg := (progressGrant_spec ans c.sound).2.1
  rw [← c.generation]
  rcases c.settled with rfl | ⟨ha, hs⟩
  · exact ⟨hg.nextGeneration, hg.nextOrdinal⟩
  · exact ⟨hs.counters.1.trans hg.nextGeneration, hs.counters.2.trans hg.nextOrdinal⟩

variable {i : ℕ}

theorem Granted.generation (hgr : Granted s t) (hl : s.slots i = some w) :
    ∃ w', t.slots i = some w' ∧ w'.generation = w.generation := by
  rcases hgr.slots i with hs | ⟨v, b, -, hc | ha⟩
  · exact ⟨w, by rw [hs]; exact hl, rfl⟩
  · rw [hl] at b
    exact ⟨_, hc, by rw [some.inj b]; rfl⟩
  · rw [hl] at b
    exact ⟨_, ha, by rw [some.inj b]; rfl⟩

theorem Granted.origin {w' : Work} (hgr : Granted s t) (hl : t.slots i = some w') :
    ∃ w, s.slots i = some w ∧ w.generation = w'.generation ∧
      w.submissionOrdinal = w'.submissionOrdinal := by
  rcases hgr.slots i with hs | ⟨v, b, -, hc | ha⟩
  · exact ⟨w', by rw [← hs]; exact hl, rfl, rfl⟩
  · rw [hl] at hc
    exact ⟨v, b, by rw [some.inj hc]; exact ⟨rfl, rfl⟩⟩
  · rw [hl] at ha
    exact ⟨v, b, by rw [some.inj ha]; exact ⟨rfl, rfl⟩⟩

section Via

variable (call : CallVia s t ans s' l next)
include call

theorem CallVia.others (ho : i ≠ l.slot) (hl : s.slots i = some w) :
    ∃ w', s'.slots i = some w' ∧ w'.generation = w.generation := by
  have hgr := (progressGrant_spec ans call.sound).2.1
  rw [← call.touched.elsewhere i ho] at hl
  obtain ⟨w', a, hs⟩ := hgr.generation hl
  exact ⟨w', by rw [call.after_grant.2.1.elsewhere i ho]; exact a, hs⟩

theorem CallVia.origin {w' : Work} (hl : s'.slots i = some w') :
    ∃ w, t.slots i = some w ∧ w.generation = w'.generation ∧
      w.submissionOrdinal = w'.submissionOrdinal := by
  have hgr := (progressGrant_spec ans call.sound).2.1
  obtain ⟨-, ht, slot⟩ := call.after_grant
  by_cases hh : i = l.slot
  · subst hh
    rcases slot with hs | hg
    · rw [hl] at hs
      exact hgr.origin hs.symm
    · rw [hl] at hg
      simp at hg
  · rw [ht.elsewhere i hh] at hl
    exact hgr.origin hl

theorem CallVia.own_generation (hl : s'.slots l.slot = some w) : w.generation = l.generation := by
  obtain ⟨v, b, hs, -⟩ := call.origin hl
  exact hs ▸ call.own v b

theorem CallVia.saturated (hr : s'.stopping = false) : Saturated s' := by
  have hs := call.frame.2.2
  rw [hr] at hs
  have hr' : t.stopping = false := call.touched.stopping.trans hs.symm
  have hsa := (progressGrant_spec ans call.sound).2.2 hr'
  rcases call.settled with rfl | ⟨ha, hst⟩
  · exact hsa
  · exact hst.saturated hsa

end Via

end Calls

section Kinds

variable {s : Scheduler} {l : Lease}

theorem progressSlot_some (hf : progressSlot s l = some w) :
    s.slots l.slot = some w ∧ w.generation = l.generation := by
  unfold progressSlot at hf
  split_ifs at hf
  rw [filter_eq_some_iff] at hf
  exact ⟨hf.1, by simpa using hf.2⟩

theorem progressSlot_of_live (hso : Sound s) (hl : s.slots l.slot = some w)
    (hs : w.generation = l.generation) :
    progressSlot s l = some w := by
  have hi := hso.placed l.slot w hl
  rw [progressSlot, if_neg (by omega), hl]
  simp [hs]

def queuedAs (s : Scheduler) (k : ℕ) (w : Work) : Scheduler :=
  { s.setSlot k (some { w with
      submissionOrdinal := generationAfter s.nextOrdinal
      queued := true
      active := false
      status := none }) with
    nextOrdinal := generationAfter s.nextOrdinal
    readyCount := wordAdd s.readyCount 1 }

theorem progressEnqueue_eq (s : Scheduler) (k : ℕ) (w : Work) (ans : Answers) :
    progressEnqueue s k w ans = progressGrant (queuedAs s k w) ans := rfl

variable {t : Scheduler}

theorem enqueue_call {old : Work} (ht : Touched s t k) (hso : Sound t)
    (hl : t.slots k = some old) (idle : old.active = false) (hu : old.queued = false)
    (j : t.nextOrdinal = s.nextOrdinal) (ans : Answers) :
    CallVia s (queuedAs t k w) ans (progressSettle (progressEnqueue t k w ans) k).1
      ⟨k, w.generation⟩ t.nextGeneration := by
  have hpl : ∀ v, (queuedAs t k w).slots k = some v → v = { w with
      submissionOrdinal := generationAfter t.nextOrdinal
      queued := true
      active := false
      status := none } := by
    intro v hs
    have hh : (queuedAs t k w).slots k = some _ := update_self ..
    rw [hh] at hs
    exact (some.inj hs).symm
  refine ⟨ht.trans ⟨rfl, rfl, rfl, fun i ho => update_of_ne ho _ _⟩,
    hso.queue hl idle hu rfl rfl _, ?_, rfl, .inr ⟨?_, ?_⟩,
    .inr ⟨_, progressSettle_settled _ k⟩⟩
  · intro v hs
    rw [hpl v hs]
  · rw [← j]
    rfl
  · intro v hs
    rw [hpl v hs, ← j]

theorem leave_call (hso : Sound s) (hf : progressSlot s l = some w) (ans : Answers) :
    CallVia s (progressRelease (progressActiveRemove s l.slot w) l.slot) ans
      (progressGrant (progressRelease (progressActiveRemove s l.slot w) l.slot) ans)
      l s.nextGeneration := by
  have he := progressRelease_empty (progressActiveRemove s l.slot w) l.slot
  obtain ⟨g, j⟩ := progressActiveRemove_counters s l.slot w
  obtain ⟨hs, hsa⟩ := progressRelease_counters (progressActiveRemove s l.slot w) l.slot
  refine ⟨(progressActiveRemove_touched s l.slot w).trans (progressRelease_touched _ l.slot),
    (hso.activeRemove (progressSlot_some hf).1).release l.slot, ?_, hs.trans g,
    .inl ⟨hsa.trans j, ?_⟩, .inl rfl⟩
  all_goals
    intro w hl
    rw [he] at hl
    simp at hl

section Requeue

variable {l : Lease} {w : Work}

theorem requeue_running (hso : Sound s) (hf : progressSlot s l = some w)
    (hac : w.active = true) (hr : s.stopping = false) (ki : ProgressKind)
    (d : String) (ans : Answers) :
    CallVia s
      (queuedAs (progressActiveRemove s l.slot w) l.slot { w with active := false, kind := ki })
      ans (requeue s l.slot w ki d ans).1 l s.nextGeneration := by
  obtain ⟨hl, g⟩ := progressSlot_some hf
  obtain ⟨hs, hsa⟩ := progressActiveRemove_counters s l.slot w
  have hu : w.queued = false := by
    have ha := hso.apart l.slot w hl
    simpa [hac] using ha
  have c := enqueue_call (w := { w with active := false, kind := ki })
    (progressActiveRemove_touched s l.slot w) (hso.activeRemove hl)
    (progressActiveRemove_slot hl) rfl hu hsa ans
  have hn : (⟨l.slot, w.generation⟩ : Lease) = l := by rw [g]
  rw [hs, hn] at c
  simp only [requeue, hr]
  exact c

theorem requeue_draining (hso : Sound s) (hf : progressSlot s l = some w)
    (hsg : s.stopping = true) (ki : ProgressKind) (d : String)
    (ans : Answers) :
    CallVia s (progressRelease (progressActiveRemove s l.slot w) l.slot) ans
      (requeue s l.slot w ki d ans).1 l s.nextGeneration := by
  have c := leave_call hso hf ans
  rw [progressGrant, if_pos (c.touched.stopping.trans hsg)] at c
  simp only [requeue, hsg]
  exact c

theorem requeue_call (hs : Sound s) (hf : progressSlot s l = some w)
    (ha : w.active = true) (ki : ProgressKind) (d : String) (ans : Answers) :
    (∃ t, CallVia s t ans (requeue s l.slot w ki d ans).1 l s.nextGeneration) ∧
    ((requeue s l.slot w ki d ans).2 = .waiting →
      ∃ v, (requeue s l.slot w ki d ans).1.slots l.slot = some v) := by
  cases hh : s.stopping with
  | true =>
    refine ⟨⟨_, requeue_draining hs hf hh ki d ans⟩, ?_⟩
    simp [requeue, hh]
  | false =>
    refine ⟨⟨_, requeue_running hs hf ha hh ki d ans⟩, ?_⟩
    simp only [requeue, hh]
    exact (progressSettle_settled _ l.slot).waiting_live

end Requeue

theorem wake_call (hso : Sound s) (hf : progressSlot s l = some w) (ans : Answers) :
    CallVia s s ans (progressSettle (progressGrant s ans) l.slot).1 l s.nextGeneration where
  touched := .refl s l.slot
  sound := hso
  own := by
    obtain ⟨hl, g⟩ := progressSlot_some hf
    intro v hs
    rw [hl] at hs
    rw [← some.inj hs]
    exact g
  generation := rfl
  ordinal := .inl ⟨rfl, fun _ hl => hl⟩
  settled := .inr ⟨_, progressSettle_settled _ l.slot⟩

theorem enter_call (hs : Sound s) (hf : s.slots k = none) (hi : k < s.capacity)
    (r : Request) (ans : Answers) :
    CallVia s (queuedAs (progressAdmit s k r) k (newWork r (generationAfter s.nextGeneration))) ans
      (progressSettle (progressEnqueue (progressAdmit s k r) k
        (newWork r (generationAfter s.nextGeneration)) ans) k).1
      ⟨k, generationAfter s.nextGeneration⟩ (generationAfter s.nextGeneration) := by
  have ht : Touched s (progressAdmit s k r) k := ⟨rfl, rfl, rfl, fun i ho => update_of_ne ho _ _⟩
  have hl : (progressAdmit s k r).slots k =
      some (newWork r (generationAfter s.nextGeneration)) := update_self ..
  exact enqueue_call ht (hs.occupy hf hi r) hl rfl rfl rfl ans

end Kinds

end Yvex.ProgressScheduler
