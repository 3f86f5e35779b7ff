import Yvex.ProgressScheduler

/-!
# Moves and grants of the progress scheduler

Every call is made of a few moves, and each of them replaces one slot: a queued
work is cancelled or activated, an active one gives its grant back, a slot is
taken, queued or released. A scan cancels the queued works that ask for it and
finds the earliest of the others that no active work conflicts with. The grant
loop activates what the scans find until the limit is reached or none is found.
-/

set_option autoImplicit false

namespace Yvex.ProgressScheduler

open CheckedArithmetic SlotTable WordCounter Option Scheduler Function

def isQueued (slot : Option Work) : Bool := slot.any Work.queued

def isActive (slot : Option Work) : Bool := slot.any Work.active

def SameSequence (a b : Work) : Prop :=
  a.engineGeneration = b.engineGeneration ∧ a.sequenceHandle = b.sequenceHandle

structure Sound (s : Scheduler) : Prop where
  small : s.capacity ≤ 64
  placed : ∀ i w, s.slots i = some w → i < s.capacity
  inUse : s.inUseCount = tally Option.isSome s.slots s.capacity
  ready : s.readyCount = tally isQueued s.slots s.capacity
  active : s.activeCount = tally isActive s.slots s.capacity
  apart : ∀ i w, s.slots i = some w → ¬(w.queued = true ∧ w.active = true)
  limited : s.activeCount ≤ s.activeLimit
  exclusive : ∀ i j a b, s.slots i = some a → s.slots j = some b → a.active = true →
    b.active = true → SameSequence a b → i = j

variable {s' t : Scheduler}

theorem counters_small (so : Sound s') :
    s'.inUseCount + 1 < wordLimit ∧ s'.readyCount + 1 < wordLimit ∧
      s'.activeCount + 1 < wordLimit := by
  have limit : 66 < wordLimit := by decide
  have hsm := so.small
  have inUse := tally_le_capacity isSome s'.slots s'.capacity
  have hr := tally_le_capacity isQueued s'.slots s'.capacity
  have ha := tally_le_capacity isActive s'.slots s'.capacity
  rw [so.inUse, so.ready, so.active]
  omega

theorem Sound.replace (so : Sound t) {i : ℕ} {x : Option Work}
    (hi : i < t.capacity) (hsl : s'.slots = Function.update t.slots i x)
    (c : s'.capacity = t.capacity)
    (hin : s'.inUseCount + (t.slots i).isSome.toNat = t.inUseCount + x.isSome.toNat)
    (hr : s'.readyCount + (isQueued (t.slots i)).toNat = t.readyCount + (isQueued x).toNat)
    (hac : s'.activeCount + (isActive (t.slots i)).toNat = t.activeCount + (isActive x).toNat)
    (hlm : s'.activeCount ≤ s'.activeLimit)
    (ha : ∀ w, x = some w → ¬(w.queued = true ∧ w.active = true))
    (hex : ∀ w, x = some w → w.active = true → ∀ j a, j ≠ i → t.slots j = some a →
      a.active = true → ¬SameSequence w a) : Sound s' where
  small := by rw [c]; exact so.small
  placed := by
    intro j w hl
    rw [c]
    rw [hsl] at hl
    obtain ⟨rfl, _⟩ | ⟨_, ht⟩ := update_iff.mp hl
    · exact hi
    · exact so.placed j w ht
  inUse := by
    have hmv := tally_update isSome t.slots hi x
    have be := so.inUse
    rw [hsl, c]
    omega
  ready := by
    have hmv := tally_update isQueued t.slots hi x
    have be := so.ready
    rw [hsl, c]
    omega
  active := by
    have hmv := tally_update isActive t.slots hi x
    have be := so.active
    rw [hsl, c]
    omega
  apart := by
    intro j w hl
    rw [hsl] at hl
    obtain ⟨_, hh⟩ | ⟨_, ht⟩ := update_iff.mp hl
    · exact ha w hh
    · exact so.apart j w ht
  limited := hlm
  exclusive := by
    intro j k a b h1 h2 aa ac hs
    rw [hsl] at h1 h2
    obtain ⟨rfl, hj⟩ | ⟨atJ, hj⟩ := update_iff.mp h1
    · obtain ⟨rfl, _⟩ | ⟨atK, hk⟩ := update_iff.mp h2
      · rfl
      · exact absurd hs (hex a hj aa k b atK hk ac)
    · obtain ⟨_, hk⟩ | ⟨_, hk⟩ := update_iff.mp h2
      · exact absurd ⟨hs.1.symm, hs.2.symm⟩ (hex b hk ac j a atJ hj aa)
      · exact so.exclusive j k a b hj hk aa ac hs

section Moves

variable {s : Scheduler} {i : ℕ} {w : Work}

theorem Sound.ready_pos (so : Sound s) (hl : s.slots i = some w) (hq : w.queued = true) :
    1 ≤ s.readyCount := by
  rw [so.ready]
  exact tally_pos (so.placed i w hl) (by simp [hl, isQueued, hq])

/-- A work is asked to yield while it is active and another one waits, or nothing is granted
any more. -/
theorem Sound.yieldRequested_iff (so : Sound s) (lease : Lease) :
    executionYieldRequested s lease = true ↔ ∃ work, progressSlot s lease = some work ∧
      work.active = true ∧
      (s.stopping = true ∨ ∃ k other, s.slots k = some other ∧ other.queued = true) := by
  have waits : s.readyCount ≠ 0 ↔ ∃ k other, s.slots k = some other ∧ other.queued = true := by
    constructor
    · intro some
      by_contra none
      refine some (so.ready.trans (tally_eq_zero fun k _ => ?_))
      cases live : s.slots k with
      | none => rfl
      | some other => exact Bool.eq_false_iff.mpr fun queued => none ⟨k, other, live, queued⟩
    · rintro ⟨k, other, live, queued⟩
      exact Nat.ne_of_gt (so.ready_pos live queued)
  simp only [executionYieldRequested, Option.any_eq_true, Bool.and_eq_true, Bool.or_eq_true,
    bne_iff_ne, waits]

theorem Sound.active_pos (so : Sound s) (hl : s.slots i = some w) (ha : w.active = true) :
    1 ≤ s.activeCount := by
  rw [so.active]
  exact tally_pos (so.placed i w hl) (by simp [hl, isActive, ha])

theorem Sound.inUse_pos (so : Sound s) (hl : s.slots i = some w) : 1 ≤ s.inUseCount := by
  rw [so.inUse]
  exact tally_pos (so.placed i w hl) (by simp [hl])

theorem uncount {f : Bool} {n : ℕ} (hsm : n < wordLimit) (hp : f = true → 1 ≤ n) :
    (if f then wordSub n 1 else n) + f.toNat = n := by
  cases f with
  | false => rfl
  | true =>
    have le := hp rfl
    rw [if_pos rfl, wordSub_eq le hsm]
    exact Nat.sub_add_cancel le

section Stops

variable (so : Sound s)
include so

theorem Sound.revise {w' : Work} (hl : s.slots i = some w)
    (hsl : t.slots = update s.slots i (some w')) (c : t.capacity = s.capacity)
    (hin : t.inUseCount = s.inUseCount)
    (hr : t.readyCount + w.queued.toNat = s.readyCount + w'.queued.toNat)
    (hac : t.activeCount + w.active.toNat = s.activeCount + w'.active.toNat)
    (hlm : t.activeCount ≤ t.activeLimit) (ha : ¬(w'.queued = true ∧ w'.active = true))
    (hex : w'.active = true → ∀ j a, j ≠ i → s.slots j = some a → a.active = true →
      ¬SameSequence w' a) : Sound t := by
  refine so.replace (so.placed i w hl) hsl c ?_ ?_ ?_ hlm ?_ ?_
  · rw [hl, hin]
    rfl
  · rw [hl]
    exact hr
  · rw [hl]
    exact hac
  · rintro _ ⟨⟩
    exact ha
  · rintro _ ⟨⟩
    exact hex

theorem Sound.idle (hl : s.slots i = some w) (hq : w.queued = true) : w.active = false := by
  have ha := so.apart i w hl
  simpa [hq] using ha

theorem Sound.cancelReady (hl : s.slots i = some w) : Sound (progressCancelReady s i w) := by
  unfold progressCancelReady
  by_cases hq : w.queued = true
  · have hp := so.ready_pos hl hq
    have hsm := (counters_small so).2.1
    simp only [hq, Bool.not_true, Bool.false_eq_true, if_false]
    refine so.revise hl rfl rfl rfl ?_ rfl so.limited (by simp) (by simp [so.idle hl hq])
    rw [wordSub_eq hp (by omega), hq]
    exact Nat.sub_add_cancel hp
  · simp only [hq]
    exact so

theorem Sound.activate (hl : s.slots i = some w) (hq : w.queued = true)
    (room : s.activeCount < s.activeLimit)
    (hf : ∀ j a, j ≠ i → s.slots j = some a → a.active = true → ¬SameSequence w a) :
    Sound (progressActivate s i w) := by
  have hp := so.ready_pos hl hq
  obtain ⟨-, hr, hal⟩ := counters_small so
  have hct : (progressActivate s i w).activeCount = s.activeCount + 1 := wordAdd_eq hal
  refine so.revise hl rfl rfl rfl ?_ ?_ ?_ (by simp) fun _ => hf
  · change wordSub s.readyCount 1 + _ = _
    rw [wordSub_eq hp (by omega), hq]
    exact Nat.sub_add_cancel hp
  · rw [hct, so.idle hl hq]
    rfl
  · rw [hct]
    exact room

theorem Sound.activeRemove (hl : s.slots i = some w) : Sound (progressActiveRemove s i w) := by
  unfold progressActiveRemove
  by_cases ha : w.active = true
  · have hp := so.active_pos hl ha
    have hsm := (counters_small so).2.2
    have hlm := so.limited
    have hct : wordSub s.activeCount 1 = s.activeCount - 1 := wordSub_eq hp (by omega)
    simp only [ha, Bool.not_true, Bool.false_eq_true, if_false]
    refine so.revise hl rfl rfl rfl rfl ?_ ?_ (by simp) (by simp)
    · rw [hct, ha]
      exact Nat.sub_add_cancel hp
    · change wordSub s.activeCount 1 ≤ s.activeLimit
      omega
  · simp only [ha]
    exact so

theorem Sound.queue (hl : s.slots i = some w) (idle : w.active = false)
    (hu : w.queued = false) {w' : Work} (hq : w'.queued = true)
    (hin : w'.active = false) (k : ℕ) :
    Sound { s.setSlot i (some w') with
      nextOrdinal := k, readyCount := wordAdd s.readyCount 1 } := by
  have hsm := (counters_small so).2.1
  refine so.revise hl rfl rfl rfl ?_ (by rw [idle, hin]; rfl) so.limited (by simp [hin])
    (by simp [hin])
  rw [wordAdd_eq hsm, hq, hu]
  rfl

theorem Sound.release (ix : ℕ) : Sound (progressRelease s ix) := by
  unfold progressRelease
  cases hl : s.slots ix with
  | none => exact so
  | some w =>
    obtain ⟨hi, hr, hac⟩ := counters_small so
    have hlm := so.limited
    have hrd := uncount (Nat.lt_of_succ_lt hr) (so.ready_pos hl)
    have ha := uncount (Nat.lt_of_succ_lt hac) (so.active_pos hl)
    refine so.replace (so.placed ix w hl) rfl rfl ?_ ?_ ?_ ?_ (by simp) (by simp)
    · rw [hl, wordSub_eq (so.inUse_pos hl) (by omega)]
      exact Nat.sub_add_cancel (so.inUse_pos hl)
    · rw [hl]
      exact hrd
    · rw [hl]
      exact ha
    · change (if w.active then wordSub s.activeCount 1 else s.activeCount) ≤ s.activeLimit
      omega

theorem Sound.occupy (hf : s.slots i = none) (hi : i < s.capacity)
    (r : Request) : Sound (progressAdmit s i r) := by
  have hsm := (counters_small so).1
  refine so.replace hi rfl rfl ?_ ?_ ?_ so.limited ?_ ?_
  · change wordAdd s.inUseCount 1 + _ = _
    rw [hf, wordAdd_eq hsm]
    rfl
  · rw [hf]
    rfl
  · rw [hf]
    rfl
  all_goals
    rintro _ ⟨⟩
    simp [newWork]

theorem Sound.stop : Sound { s with stopping := true } where
  small := so.small
  placed := so.placed
  inUse := so.inUse
  ready := so.ready
  active := so.active
  apart := so.apart
  limited := so.limited
  exclusive := so.exclusive

end Stops

end Moves

def Conflicts (s : Scheduler) (i : ℕ) (w : Work) : Prop :=
  ∃ j a, j ≠ i ∧ s.slots j = some a ∧ a.active = true ∧ SameSequence a w

variable {s : Scheduler}

theorem progressActiveConflict_iff (so : Sound s) (i : ℕ) (w : Work) :
    progressActiveConflict s i w = true ↔ Conflicts s i w := by
  simp only [progressActiveConflict, List.any_eq_true, List.mem_range, Bool.and_eq_true,
    bne_iff_ne, any_eq_true, beq_iff_eq]
  constructor
  · rintro ⟨j, -, ho, a, hl, ⟨ha, e⟩, h⟩
    exact ⟨j, a, ho, hl, ha, e, h⟩
  · rintro ⟨j, a, ho, hl, ha, e, h⟩
    exact ⟨j, so.placed j a hl, ho, a, hl, ⟨ha, e⟩, h⟩

def cancelledWork (w : Work) : Work := { w with queued := false, status := some .cancelled }

def grantedWork (w : Work) : Work := { w with queued := false, active := true }

structure Granted (s s' : Scheduler) : Prop where
  capacity : s'.capacity = s.capacity
  activeLimit : s'.activeLimit = s.activeLimit
  nextGeneration : s'.nextGeneration = s.nextGeneration
  nextOrdinal : s'.nextOrdinal = s.nextOrdinal
  stopping : s'.stopping = s.stopping
  slots : ∀ i, s'.slots i = s.slots i ∨ ∃ w, s.slots i = some w ∧ w.queued = true ∧
    (s'.slots i = some (cancelledWork w) ∨ s'.slots i = some (grantedWork w))

theorem Granted.refl (s : Scheduler) : Granted s s := ⟨rfl, rfl, rfl, rfl, rfl, fun _ => .inl rfl⟩

variable {i : ℕ} {w : Work}

theorem Granted.queued (hgr : Granted s s') (hl : s'.slots i = some w)
    (hq : w.queued = true) : s.slots i = some w := by
  rcases hgr.slots i with hs | ⟨v, -, -, hc | ha⟩
  · rw [← hs]
    exact hl
  · rw [hl] at hc
    rw [some.inj hc] at hq
    simp [cancelledWork] at hq
  · rw [hl] at ha
    rw [some.inj ha] at hq
    simp [grantedWork] at hq

theorem Granted.trans (h1 : Granted s t) (h2 : Granted t s') : Granted s s' where
  capacity := h2.capacity.trans h1.capacity
  activeLimit := h2.activeLimit.trans h1.activeLimit
  nextGeneration := h2.nextGeneration.trans h1.nextGeneration
  nextOrdinal := h2.nextOrdinal.trans h1.nextOrdinal
  stopping := h2.stopping.trans h1.stopping
  slots := by
    intro i
    rcases h2.slots i with hs | ⟨w, hl, hq, a⟩
    · rw [hs]
      exact h1.slots i
    · exact .inr ⟨w, h1.queued hl hq, hq, a⟩

/-- Active works stay active, so conflicts stay. -/
theorem Granted.conflicts (hgr : Granted s s') (so : Sound s)
    (c : Conflicts s i w) : Conflicts s' i w := by
  obtain ⟨j, a, ho, hl, ha, hs⟩ := c
  refine ⟨j, a, ho, ?_, ha, hs⟩
  rcases hgr.slots j with hun | ⟨v, b, hq, -⟩
  · rw [hun]
    exact hl
  · rw [hl] at b
    obtain rfl := some.inj b
    exact absurd ⟨hq, ha⟩ (so.apart j a hl)

structure Calmed (s s' : Scheduler) : Prop extends Granted s s' where
  activeCount : s'.activeCount = s.activeCount
  only : ∀ i, s'.slots i = s.slots i ∨ ∃ w, s.slots i = some w ∧ w.queued = true ∧
    s'.slots i = some (cancelledWork w)

theorem Calmed.conflicts_iff (hcl : Calmed s s') (so : Sound s) (i : ℕ)
    (w : Work) : Conflicts s' i w ↔ Conflicts s i w := by
  constructor
  · rintro ⟨j, a, ho, hl, ha, hs⟩
    refine ⟨j, ?_⟩
    rcases hcl.only j with hun | ⟨v, b, hq, hc⟩
    · exact ⟨a, ho, by rw [← hun]; exact hl, ha, hs⟩
    · rw [hl] at hc
      rw [some.inj hc] at ha hs
      exact ⟨v, ho, b, ha, hs⟩
  · exact hcl.conflicts so

theorem progressCancelReady_calmed (hl : s.slots i = some w) :
    Calmed s (progressCancelReady s i w) := by
  unfold progressCancelReady
  by_cases hq : w.queued = true
  · simp only [hq, Bool.not_true, Bool.false_eq_true, if_false]
    have only : ∀ j, update s.slots i (some (cancelledWork w)) j = s.slots j ∨
        ∃ v, s.slots j = some v ∧ v.queued = true ∧
          update s.slots i (some (cancelledWork w)) j = some (cancelledWork v) := by
      intro j
      by_cases hh : j = i
      · subst hh
        exact .inr ⟨w, hl, hq, by rw [update_self]⟩
      · exact .inl (update_of_ne hh _ _)
    refine ⟨⟨rfl, rfl, rfl, rfl, rfl, ?_⟩, rfl, only⟩
    intro j
    rcases only j with hs | ⟨v, b, hw, a⟩
    · exact .inl hs
    · exact .inr ⟨v, b, hw, .inl a⟩
  · simp only [hq]
    exact ⟨.refl s, rfl, fun _ => .inl rfl⟩

theorem Calmed.refl (s : Scheduler) : Calmed s s := ⟨.refl s, rfl, fun _ => .inl rfl⟩

theorem Calmed.trans (h1 : Calmed s t) (h2 : Calmed t s') : Calmed s s' where
  toGranted := h1.toGranted.trans h2.toGranted
  activeCount := h2.activeCount.trans h1.activeCount
  only := by
    intro i
    rcases h2.only i with hs | ⟨w, hl, hq, a⟩
    · rw [hs]
      exact h1.only i
    · exact .inr ⟨w, h1.queued hl hq, hq, a⟩

theorem Calmed.active (hcl : Calmed s s') (so : Sound s)
    (hl : s'.slots i = some w) (ha : w.active = true) : s.slots i = some w := by
  rcases hcl.only i with hs | ⟨u, b, hq, hc⟩
  · rw [← hs]
    exact hl
  · rw [hl] at hc
    rw [some.inj hc] at ha
    exact absurd ⟨hq, ha⟩ (so.apart i u b)

structure Earliest (s : Scheduler) (n k : ℕ) (w : Work) : Prop where
  inside : k < n
  live : s.slots k = some w
  queued : w.queued = true
  free : ¬Conflicts s k w
  first : ∀ i v, i < n → s.slots i = some v → v.queued = true → ¬Conflicts s i v →
    w.submissionOrdinal ≤ v.submissionOrdinal

structure Scanned (s : Scheduler) (n : ℕ) (scan : Scheduler × Option (ℕ × Work)) : Prop where
  sound : Sound scan.1
  calmed : Calmed s scan.1
  nothing : scan.2 = none → ∀ i w, i < n → scan.1.slots i = some w → w.queued = true →
    Conflicts scan.1 i w
  found : ∀ k w, scan.2 = some (k, w) → Earliest scan.1 n k w

section Scan

variable {s : Scheduler} {n : ℕ} {scan : Scheduler × Option (ℕ × Work)}

theorem Scanned.skip (hh : Scanned s n scan)
    (hb : ∀ w, scan.1.slots n = some w → w.queued = true → Conflicts scan.1 n w) :
    Scanned s (n + 1) scan where
  sound := hh.sound
  calmed := hh.calmed
  nothing := by
    intro none i w hi hl hq
    by_cases l : i = n
    · subst l
      exact hb w hl hq
    · exact hh.nothing none i w (by omega) hl hq
  found := by
    intro k w hs
    have he := hh.found k w hs
    refine ⟨by have := he.inside; omega, he.live, he.queued, he.free, ?_⟩
    intro i v hi hl hq hf
    by_cases l : i = n
    · subst l
      exact absurd (hb v hl hq) hf
    · exact he.first i v (by omega) hl hq hf

theorem Scanned.cancel (hsc : Scanned s n scan) {c : Work}
    (hl : scan.1.slots n = some c) (hq : c.queued = true) :
    Scanned s (n + 1) (progressCancelReady scan.1 n c, scan.2) := by
  have hc := progressCancelReady_calmed hl
  have cn := hc.conflicts_iff hsc.sound
  have hel : ∀ i, i ≠ n → (progressCancelReady scan.1 n c).slots i = scan.1.slots i := by
    intro i ho
    simp [progressCancelReady, hq, Scheduler.setSlot, update_of_ne ho]
  have hh : ∀ w, (progressCancelReady scan.1 n c).slots n = some w → w.queued = false := by
    intro w a
    simp only [progressCancelReady, hq, Bool.not_true, Bool.false_eq_true, if_false,
      Scheduler.setSlot, update_self, some.injEq] at a
    rw [← a]
  refine Scanned.skip ⟨hsc.sound.cancelReady hl, hsc.calmed.trans hc, ?_, ?_⟩ ?_
  · intro none i w hi a hst
    rw [hel i hi.ne] at a
    exact (cn i w).mpr (hsc.nothing none i w hi a hst)
  · intro k w hs
    have he := hsc.found k w hs
    refine ⟨he.inside, ?_, he.queued, ?_, ?_⟩
    · rw [hel k he.inside.ne]
      exact he.live
    · exact fun co => he.free ((cn k w).mp co)
    · intro i v hi a hst hf
      rw [hel i hi.ne] at a
      exact he.first i v hi a hst fun co => hf ((cn i v).mpr co)
  · intro w a hst
    rw [hh w a] at hst
    simp at hst

/-- After a candidate the scan holds the earliest of those looked at. -/
theorem Scanned.step (hh : Scanned s n scan) (ans : ℕ → Bool) :
    Scanned s (n + 1) (scanCandidate ans scan n) := by
  unfold scanCandidate
  cases hl : scan.1.slots n with
  | none =>
    apply hh.skip
    intro w a
    rw [hl] at a
    simp at a
  | some c =>
    simp only
    split_ifs with hu asked co e
    · apply hh.skip
      intro w a hq
      rw [hl] at a
      rw [← some.inj a] at hq
      simp [hq] at hu
    · exact hh.cancel hl (by simpa using hu)
    · apply hh.skip
      intro w a _
      rw [hl] at a
      obtain rfl := some.inj a
      exact (progressActiveConflict_iff hh.sound n c).mp co
    · have free : ¬Conflicts scan.1 n c := fun hf =>
        co ((progressActiveConflict_iff hh.sound n c).mpr hf)
      refine ⟨hh.sound, hh.calmed, by simp, ?_⟩
      intro k w hs
      obtain ⟨rfl, rfl⟩ := Prod.mk.inj (some.inj hs)
      refine ⟨by omega, hl, by simpa using hu, free, ?_⟩
      intro i v hi a hq hun
      by_cases l : i = n
      · subst l
        rw [hl] at a
        rw [some.inj a]
      cases sel : scan.2 with
      | none => exact absurd (hh.nothing sel i v (by omega) a hq) hun
      | some p =>
        have best := (hh.found p.1 p.2 sel).first i v (by omega) a hq hun
        simp only [sel, all_some, decide_eq_true_eq] at e
        omega
    · refine ⟨hh.sound, hh.calmed, ?_, ?_⟩
      · intro none
        simp [none] at e
      · intro k w hs
        have he := hh.found k w hs
        have hi := he.inside
        refine ⟨by omega, he.live, he.queued, he.free, ?_⟩
        intro i v within a hq hun
        by_cases l : i = n
        · subst l
          rw [hl] at a
          rw [← some.inj a]
          simp only [hs, all_some, decide_eq_true_eq, not_lt] at e
          exact e
        · exact he.first i v (by omega) a hq hun

theorem scanned_range (so : Sound s) (ans : ℕ → Bool) (n : ℕ) :
    Scanned s n ((List.range n).foldl (scanCandidate ans) (s, none)) := by
  induction n with
  | zero =>
    exact ⟨so, ⟨.refl s, rfl, fun _ => .inl rfl⟩, fun _ i w hi => absurd hi (by omega), by simp⟩
  | succ n ih =>
    rw [List.range_succ, List.foldl_append, List.foldl_cons, List.foldl_nil]
    exact ih.step ans

theorem progressNextReady_scanned (so : Sound s) (ans : ℕ → Bool) :
    Scanned s s.capacity (progressNextReady s ans) := scanned_range so ans s.capacity

end Scan

def Saturated (s : Scheduler) : Prop :=
  s.activeCount = s.activeLimit ∨
    ∀ i w, s.slots i = some w → w.queued = true → Conflicts s i w

theorem Earliest.activate {k : ℕ} (so : Sound s) (he : Earliest s s.capacity k w)
    (hr : s.activeCount < s.activeLimit) :
    Sound (progressActivate s k w) ∧ Granted s (progressActivate s k w) ∧
      (progressActivate s k w).activeCount = s.activeCount + 1 := by
  refine ⟨so.activate he.live he.queued hr ?_, ⟨rfl, rfl, rfl, rfl, rfl, ?_⟩,
    wordAdd_eq (counters_small so).2.2⟩
  · intro j a ho hl ha hs
    exact he.free ⟨j, a, ho, hl, ha, hs.1.symm, hs.2.symm⟩
  · intro j
    by_cases hh : j = k
    · subst hh
      exact .inr ⟨w, he.live, he.queued, .inr (update_self ..)⟩
    · exact .inl (update_of_ne hh _ _)

/-- One round of the loop: what the scan found is activated. -/
theorem Scanned.activated {k r : ℕ} (hh : Scanned s s.capacity (t, some (k, w)))
    (left : s.activeLimit = s.activeCount + (r + 1)) :
    Sound (progressActivate t k w) ∧ Granted t (progressActivate t k w) ∧
      (progressActivate t k w).activeLimit = (progressActivate t k w).activeCount + r := by
  have hea : Earliest t t.capacity k w := by
    have hf := hh.found k w rfl
    rw [← hh.calmed.capacity] at hf
    exact hf
  have so : Sound t := hh.sound
  have count : t.activeCount = s.activeCount := hh.calmed.activeCount
  have limit : t.activeLimit = s.activeLimit := hh.calmed.activeLimit
  obtain ⟨hac, ha, hct⟩ := hea.activate so (by omega)
  have hs := ha.activeLimit
  exact ⟨hac, ha, by omega⟩

theorem grantRounds_spec {r : ℕ} (ans : Answers) (so : Sound s)
    (left : s.activeLimit = s.activeCount + r) :
    Sound (grantRounds r ans s) ∧ Granted s (grantRounds r ans s) ∧
      Saturated (grantRounds r ans s) := by
  induction r generalizing s ans with
  | zero => exact ⟨so, .refl s, .inl left.symm⟩
  | succ r ih =>
    have hh := progressNextReady_scanned so (ans 0)
    rw [grantRounds]
    rcases hs : progressNextReady s (ans 0) with ⟨t, f⟩
    rw [hs] at hh
    cases f with
    | none =>
      refine ⟨hh.sound, hh.calmed.toGranted, .inr ?_⟩
      intro i w hl hq
      have hi := hh.sound.placed i w hl
      rw [hh.calmed.capacity] at hi
      exact hh.nothing rfl i w hi hl hq
    | some =>
      obtain ⟨hac, ha, hlf⟩ := hh.activated left
      obtain ⟨hen, he, hsa⟩ := ih (fun hs => ans (hs + 1)) hac hlf
      exact ⟨hen, hh.calmed.toGranted.trans (ha.trans he), hsa⟩

theorem progressGrant_spec (answers : Answers) (so : Sound s) :
    Sound (progressGrant s answers) ∧ Granted s (progressGrant s answers) ∧
      (s.stopping = false → Saturated (progressGrant s answers)) := by
  have hlm := so.limited
  unfold progressGrant
  split
  next hs => exact ⟨so, .refl s, by simp [hs]⟩
  have left : s.activeLimit = s.activeCount + (s.activeLimit - s.activeCount) := by omega
  obtain ⟨a, hgr, hsa⟩ := grantRounds_spec answers so left
  exact ⟨a, hgr, fun _ => hsa⟩

end Yvex.ProgressScheduler
