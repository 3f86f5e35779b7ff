import Yvex.RequestQueue

/-!
# What the request queue guarantees

In every reachable state the queue is in order for each key. Worker turns use up
a measure, and when no worker can run any more everything accepted has been
executed; after a stop every worker has then left.
-/

set_option autoImplicit false

namespace Yvex.RequestQueue

open KeyedQueue SlotTable Runs World List

variable {ω : Type}

def World.remaining (w : World ω) : ℕ :=
  2 * (w.shared.workerCount + 1) * w.shared.queue.length +
    (w.shared.workerCount + 1) * w.running.length +
    tally Worker.isReady w.workers w.shared.workerCount

def RunnableTurn (w : World ω) (event : Event ω) : Prop :=
  ∃ index, event = .turn index ∧ index < w.shared.workerCount ∧
    (w.workers index).runnable = true

variable {w : World ω} {j : ℕ}

theorem remaining_setWorker (hi : j < w.shared.workerCount)
    (hr : w.workers j = .ready) {wk : Worker ω} (left : wk.isReady = false) :
    (w.setWorker j wk).remaining + 1 = w.remaining := by
  have hmv := tally_update Worker.isReady w.workers hi wk
  rw [hr, left] at hmv
  change _ + 1 = _ + 0 at hmv
  simp only [remaining, setWorker]
  omega

theorem remaining_acquire (hi : j < w.shared.workerCount) (hr : w.workers j = .ready) :
    (w.acquire j).remaining < w.remaining := by
  unfold acquire
  split
  · exact Nat.lt_of_succ_le (remaining_setWorker hi hr rfl).le
  split
  · rename_i e hs hf
    obtain ⟨r, htk, rfl⟩ := requestQueueSelect_some hf
    have hsh := extract_length htk
    have left : (w.setWorker j (.executing e)).remaining + 1 = w.remaining :=
      remaining_setWorker hi hr rfl
    simp only [remaining, setWorker] at left ⊢
    rw [← hsh, Nat.mul_add]
    simp only [length_append, length_cons, length_nil, Nat.mul_add]
    omega
  · exact Nat.lt_of_succ_le (remaining_setWorker hi hr rfl).le

theorem remaining_complete (hc : Consistent w) (hi : j < w.shared.workerCount)
    {e : Numbered ω} (hb : w.workers j = .executing e) :
    (w.complete j e).remaining < w.remaining := by
  have hr := (hc.executing e).mpr ⟨j, hi, hb⟩
  have hsh := length_eraseP_of_mem hr (p := fun o => o.key == e.key) (by simp)
  have hp : 0 < w.running.length := length_pos_of_mem hr
  have ready := tally_le_capacity Worker.isReady (w.complete j e).workers w.shared.workerCount
  have m : (w.complete j e).shared.workerCount = w.shared.workerCount := rfl
  have q : (w.complete j e).shared.queue = w.shared.queue := rfl
  have hf : (w.complete j e).running.length + 1 = w.running.length := by
    change (w.running.eraseP _).length + 1 = _
    omega
  have hs := Nat.mul_add (w.shared.workerCount + 1) (w.complete j e).running.length 1
  rw [hf] at hs
  simp only [remaining, m, q]
  omega

theorem remaining_turn (hc : Consistent w) {ev : Event ω} (turn : RunnableTurn w ev) :
    (w.step ev).remaining < w.remaining := by
  obtain ⟨j, rfl, hi, hr⟩ := turn
  simp only [step, if_pos hi, turn]
  cases s : w.workers j with
  | ready => exact remaining_acquire hi s
  | executing => exact remaining_complete hc hi s
  | waiting | exited => simp [s, Worker.runnable] at hr

theorem turns_bounded (hc : Consistent w) {es : List (Event ω)}
    (ht : Along World.step RunnableTurn w es) : es.length ≤ w.remaining := by
  induction es generalizing w with
  | nil => exact Nat.zero_le _
  | cons e r ih =>
    have hs := remaining_turn hc ht.1
    have hl := ih (hc.step e) ht.2
    rw [length_cons]
    omega

def World.quiet (w : World ω) : Prop :=
  ∀ i, i < w.shared.workerCount → (w.workers i).runnable = false

theorem Consistent.quiet_running (hc : Consistent w) (hq : w.quiet) : w.running = [] := by
  apply eq_nil_iff_forall_not_mem.mpr
  intro e hm
  obtain ⟨i, hi, hexe⟩ := (hc.executing e).mp hm
  have hr := hq i hi
  rw [hexe] at hr
  simp [Worker.runnable] at hr

theorem Consistent.quiet_queue (hc : Consistent w) (hq : w.quiet)
    (hp : 0 < w.shared.workerCount) : w.shared.queue = [] := by
  have idle := hc.quiet_running hq
  have hr := hq 0 hp
  cases s : w.workers 0 with
  | ready | executing => simp [s, Worker.runnable] at hr
  | exited => exact (hc.exited 0 hp s).2
  | waiting =>
    -- Nothing is active, so a queued entry would have been taken.
    have hno := (hc.asleep 0 hp s).1
    rw [hc.selectable_running, idle, extract_eq_none] at hno
    apply eq_nil_iff_forall_not_mem.mpr
    intro e hm
    simpa using hno e hm

theorem Consistent.quiet_stopped (hc : Consistent w) (hq : w.quiet)
    (hs : w.shared.stopping = true) {i : ℕ} (hi : i < w.shared.workerCount) :
    w.workers i = .exited := by
  have he := hc.quiet_queue hq (by omega)
  have hr := hq i hi
  cases s : w.workers i with
  | ready | executing => simp [s, Worker.runnable] at hr
  | exited => rfl
  | waiting => exact absurd ⟨hs, he⟩ (hc.asleep i hi s).2

theorem step_limits (w : World ω) (e : Event ω) :
    (w.step e).shared.workerCount = w.shared.workerCount ∧
      (w.step e).shared.queueCapacity = w.shared.queueCapacity := by
  cases e with
  | submit work key =>
    dsimp only [step, submit]
    split
    · rename_i done
      obtain ⟨-, -, -, -, -, -, rfl⟩ := requestQueueSubmit_ok done
      exact ⟨rfl, rfl⟩
    · exact ⟨rfl, rfl⟩
  | stop => exact ⟨rfl, rfl⟩
  | wake => exact ⟨rfl, rfl⟩
  | turn j =>
    simp only [step, turn]
    split
    · split
      · unfold acquire
        split
        · exact ⟨rfl, rfl⟩
        split
        · rename_i hf
          obtain ⟨r, -, rfl⟩ := requestQueueSelect_some hf
          exact ⟨rfl, rfl⟩
        · exact ⟨rfl, rfl⟩
      · exact ⟨rfl, rfl⟩
      · exact ⟨rfl, rfl⟩
    · exact ⟨rfl, rfl⟩

structure Served (capacity workers : ℕ) (w : World ω) : Prop where
  exclusive : ∀ i j a b, i < workers → j < workers → w.workers i = .executing a →
    w.workers j = .executing b → a.key = b.key → i = j
  executing : ∀ entry, entry ∈ w.running ↔ ∃ i, i < workers ∧ w.workers i = .executing entry
  ordered : ∀ key, ofKey Entry.key key w.accepted = ofKey Entry.key key w.finished ++
    (ofKey Entry.key key w.running ++ ofKey Entry.key key w.shared.queue)
  once : w.accepted.Perm (w.finished ++ (w.running ++ w.shared.queue))
  distinct : (w.accepted.map fun entry => entry.work.1).Nodup
  queued : w.shared.queue.length ≤ capacity
  busy : w.running.length ≤ workers ∧ w.shared.active = w.running.map Entry.key
  turns : ∀ events, Along World.step RunnableTurn w events → events.length ≤ w.remaining
  drained : (∀ i, i < workers → (w.workers i).runnable = false) →
    w.shared.queue = [] ∧ w.running = [] ∧ w.finished.Perm w.accepted ∧
      (w.shared.stopping = true → ∀ i, i < workers → w.workers i = .exited)

theorem Consistent.served (hc : Consistent w) (hp : 0 < w.shared.workerCount) :
    Served w.shared.queueCapacity w.shared.workerCount w where
  exclusive := fun _ _ _ _ h1 h2 left right same => hc.exclusive h1 h2 left right same
  executing := hc.executing
  ordered := hc.inLine.ordered
  once := hc.inLine.perm
  distinct := by
    rw [hc.numbered]
    exact nodup_range
  queued := hc.bounded
  busy := by
    refine ⟨?_, hc.active⟩
    rw [hc.count]
    exact tally_le_capacity _ _ _
  turns := fun _ => turns_bounded hc
  drained := by
    intro hq
    have he := hc.quiet_queue hq hp
    have hid := hc.quiet_running hq
    have hw := hc.inLine.perm
    refine ⟨he, hid, ?_, fun hs i hi => hc.quiet_stopped hq hs hi⟩
    simp only [he, hid, append_nil] at hw
    exact hw.symm

theorem consistent_start {c wo : ℕ} {allocated started mutex co : Bool} {o s : Shared (ℕ × ω)}
    (hi : requestQueueOpen c wo allocated started mutex co = .ok o)
    (his : requestQueueStart o = .ok s) :
    Consistent (World.start s) ∧ 0 < wo ∧ s.workerCount = wo ∧ s.queueCapacity = c := by
  unfold requestQueueOpen at hi
  split_ifs at hi with bad
  push Not at bad
  obtain rfl := Except.ok.inj hi
  obtain rfl := Except.ok.inj his
  refine ⟨⟨⟨⟨fun _ => rfl, nodup_nil⟩, rfl, ?_, ?_, ?_, Nat.zero_le _, rfl, ?_⟩, ?_⟩,
    Nat.pos_of_ne_zero bad.2.1, rfl, rfl⟩
  · simp [start]
  · simp [start]
  · exact (tally_eq_zero fun _ _ => rfl).symm
  · simp [start]
  · simp [start]

/-- Accepted requests finish once each, those of one key in the order of their acceptance. -/
theorem request_queue_served (capacity workers : ℕ)
    (allocated stored mutexReady conditionReady : Bool) (opened started : Shared (ℕ × ω))
    (isOpen : requestQueueOpen capacity workers allocated stored mutexReady conditionReady =
      .ok opened)
    (isStarted : requestQueueStart opened = .ok started) (events : List (Event ω)) :
    Served capacity workers (run World.step (World.start started) events) := by
  obtain ⟨consistent, populated, count, limit⟩ := consistent_start isOpen isStarted
  have kept : Consistent (run step (start started) events) ∧
      (run step (start started) events).shared.workerCount = workers ∧
      (run step (start started) events).shared.queueCapacity = capacity :=
    run_invariant
      (P := fun w : World ω => Consistent w ∧ w.shared.workerCount = workers ∧
        w.shared.queueCapacity = capacity)
      (fun w event held => ⟨held.1.step event, (step_limits w event).1.trans held.2.1,
        (step_limits w event).2.trans held.2.2⟩)
      ⟨consistent, count, limit⟩ events
  have served := kept.1.served (by rw [kept.2.1]; exact populated)
  rw [kept.2.1, kept.2.2] at served
  exact served

theorem request_queue_served_pair :
    ∃ opened started : Shared (ℕ × ℕ), requestQueueOpen 3 2 true true true true = .ok opened ∧
      requestQueueStart opened = .ok started ∧
      ∃ w, w = run World.step (World.start started)
        [.submit (some 7) (some ['a']), .submit (some 8) (some ['a']), .turn 0,
          .submit (some 9) (some ['b']), .turn 1, .stop, .turn 0, .turn 0, .turn 1, .turn 0,
          .turn 0, .turn 1] ∧
      Served 3 2 w ∧ w.accepted.map (fun entry => entry.work.2) = [7, 8, 9] ∧
      w.finished.map (fun entry => entry.work.2) = [7, 9, 8] ∧
      w.workers 0 = .exited ∧ w.workers 1 = .exited :=
  -- 8 waits for 7, whose key it shares, while 9 is executed; the stop comes before 8 is taken
  ⟨_, _, rfl, rfl, _, rfl, request_queue_served 3 2 true true true true _ _ rfl rfl _,
    by decide, by decide, by decide, by decide⟩

end Yvex.RequestQueue
