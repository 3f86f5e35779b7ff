import Yvex.BatchScheduler

/-!
# The lifetime of tickets

While a ticket is queued or executing, its submit waits and the ticket is not
done. A submit stops waiting when its ticket is done or the scheduler is
stopping, so its ticket is free again as long as nothing is queued or executing
when a close begins. Otherwise the submit returns while the worker still holds
the ticket.
-/

set_option autoImplicit false

namespace Yvex.BatchScheduler

open AttentionData Runs World List

def World.pending (w : World) : List ℕ := w.scheduler.queue ++ w.worker.batch

structure Held (w : World) : Prop where
  distinct : w.pending.Nodup
  waiting : ∀ id ∈ w.pending, id ∈ w.calls
  unfinished : ∀ id ∈ w.pending, (w.scheduler.tickets id).done = false
  drained : w.scheduler.stopping = true → w.pending = []

structure Split (before : Tickets) (queue : List ℕ) (after : Tickets)
    (kept selected : List ℕ) : Prop where
  parts : ∃ cancelled, (cancelled ++ (kept ++ selected)).Perm queue ∧
    ∀ id, id ∉ cancelled → (after id).done = (before id).done

variable {ts : Tickets}

theorem completeCancelled_other {id o : ℕ} (hap : o ≠ id) :
    completeCancelled ts id o = ts o := Function.update_of_ne hap _ _

variable {b a : Tickets} {q kept sel : List ℕ} {id : ℕ}

theorem Split.cancel (hsp : Split (completeCancelled b id) q a kept sel) :
    Split b (id :: q) a kept sel := by
  obtain ⟨hc, p, hs⟩ := hsp.parts
  refine ⟨id :: hc, p.cons id, ?_⟩
  intro o hab
  rw [mem_cons, not_or] at hab
  rw [hs o hab.2, completeCancelled_other hab.1]

theorem Split.keep (hsp : Split b q a kept sel) : Split b (id :: q) a (id :: kept) sel := by
  obtain ⟨hc, p, hs⟩ := hsp.parts
  refine ⟨hc, ?_, hs⟩
  exact perm_middle.trans (p.cons id)

theorem Split.take (hsp : Split b q a kept sel) : Split b (id :: q) a kept (id :: sel) := by
  obtain ⟨hc, p, hs⟩ := hsp.parts
  refine ⟨hc, ?_, hs⟩
  rw [← append_assoc]
  refine perm_middle.trans (List.Perm.cons id ?_)
  rw [append_assoc]
  exact p

theorem gather_split (a : ℕ → Bool) (key : CompatibilityKey) (ts : Tickets) (rs : ℕ) (q : List ℕ) :
    Split ts q (gather a key ts rs q).tickets (gather a key ts rs q).kept
      (gather a key ts rs q).selected := by
  induction q generalizing ts rs with
  | nil => exact ⟨[], .refl _, fun _ _ => rfl⟩
  | cons c rest ih =>
    rw [gather]
    split_ifs
    · exact (ih _ rs).cancel
    · exact (ih ts _).take
    · exact (ih ts rs).keep

theorem dropCancelled_split (a : ℕ → Bool) (ts : Tickets) (q : List ℕ) :
    Split ts q (dropCancelled a ts q).1 (dropCancelled a ts q).2 [] := by
  induction q generalizing ts with
  | nil => exact ⟨[], .refl _, fun _ _ => rfl⟩
  | cons id rest ih =>
    rw [dropCancelled]
    split_ifs
    · exact (ih _).cancel
    · exact ⟨[], by simp, fun _ _ => rfl⟩

theorem Split.trans {re kept : List ℕ} (h1 : Split b q ts re [])
    (h2 : Split ts re a kept sel) : Split b q a kept sel := by
  obtain ⟨hc, p, hs⟩ := h1.parts
  obtain ⟨m, hp, hsm⟩ := h2.parts
  rw [append_nil] at p
  refine ⟨hc ++ m, ?_, ?_⟩
  · rw [append_assoc]
    exact (hp.append_left hc).trans p
  · intro id hab
    rw [mem_append, not_or] at hab
    rw [hsm id hab.2, hs id hab.1]

theorem schedulerSelect_split (s : Scheduler) (a : ℕ → Bool) :
    Split s.tickets s.queue (schedulerSelect s a).1.tickets
      (schedulerSelect s a).1.queue (schedulerSelect s a).2 := by
  have hd := dropCancelled_split a s.tickets s.queue
  unfold schedulerSelect
  rcases drop : dropCancelled a s.tickets s.queue with ⟨ts, re⟩
  rw [drop] at hd
  cases re with
  | nil => exact hd
  | cons f re =>
    have hg := gather_split a (ts f).key ts (ts f).rowCount re
    obtain ⟨hc, p, hs⟩ := (hd.trans hg.take).parts
    refine ⟨hc, p, ?_⟩
    intro id hab
    rw [← hs id hab]
    simp only
    split_ifs <;> rfl

theorem schedulerSelect_frame (s : Scheduler) (a : ℕ → Bool) :
    (schedulerSelect s a).1.stopping = s.stopping := by
  unfold schedulerSelect
  split <;> rfl

section Steps

variable {w : World} {s : Scheduler}

theorem Held.select (hh : Held w) (hf : w.worker.batch = [])
    (ts : s.tickets = w.scheduler.tickets) (q : s.queue = w.scheduler.queue)
    (hst : s.stopping = w.scheduler.stopping) (a : ℕ → Bool) : Held (w.select s a) := by
  have hp : w.pending = s.queue := by rw [World.pending, hf, append_nil, q]
  have hpn : (w.select s a).pending = (schedulerSelect s a).1.queue ++ (schedulerSelect s a).2 := by
    simp only [World.pending, World.select]
    cases sel : (schedulerSelect s a).2 with
    | nil => rfl
    | cons => rfl
  obtain ⟨hc, p, hs⟩ := (schedulerSelect_split s a).parts
  have hd : (hc ++ (w.select s a).pending).Nodup := by
    rw [hpn, p.nodup_iff, ← hp]
    exact hh.distinct
  have b : ∀ id ∈ (w.select s a).pending, id ∈ w.pending := by
    intro id hm
    rw [hp, ← p.mem_iff, ← hpn]
    exact mem_append_right hc hm
  refine ⟨(nodup_append.mp hd).2.1, ?_, ?_, ?_⟩
  · intro id hm
    exact hh.waiting id (b id hm)
  · intro id hm
    have hab : id ∉ hc := fun hi => (nodup_append.mp hd).2.2 id hi id hm rfl
    have hu := hh.unfinished id (b id hm)
    rw [← ts, ← hs id hab] at hu
    exact hu
  · intro hsd
    have hsp : w.scheduler.stopping = true := by
      rw [← hst, ← schedulerSelect_frame s a]
      exact hsd
    have he := hh.drained hsp
    refine eq_nil_iff_forall_not_mem.mpr ?_
    intro id hm
    have hi := b id hm
    rw [he] at hi
    simp at hi

theorem schedulerCoalesce_frame (s : Scheduler) (c : Bool) :
    (schedulerCoalesce s c).1.tickets = s.tickets ∧ (schedulerCoalesce s c).1.queue = s.queue ∧
      (schedulerCoalesce s c).1.stopping = s.stopping := by
  simp only [schedulerCoalesce]
  split_ifs <;> exact ⟨rfl, rfl, rfl⟩

theorem Held.same {w' : World} (hh : Held w) (hp : w'.pending = w.pending)
    (hc : ∀ id ∈ w.pending, id ∈ w.calls → id ∈ w'.calls)
    (ts : w'.scheduler.tickets = w.scheduler.tickets)
    (hs : w'.scheduler.stopping = w.scheduler.stopping) : Held w' where
  distinct := hp ▸ hh.distinct
  waiting := by
    intro id hm
    rw [hp] at hm
    exact hc id hm (hh.waiting id hm)
  unfinished := by
    intro id hm
    rw [hp] at hm
    rw [ts]
    exact hh.unfinished id hm
  drained := by
    intro hst
    rw [hp]
    exact hh.drained (hs ▸ hst)

theorem Held.serve (hh : Held w) (hid : w.worker = .idle) (c : Bool)
    (a : ℕ → Bool) : Held (w.serve c a) := by
  have hf : w.worker.batch = [] := by rw [hid]; rfl
  obtain ⟨ts, q, hs⟩ := schedulerCoalesce_frame w.scheduler c
  unfold World.serve
  split_ifs
  · exact hh
  · refine hh.same ?_ (fun _ _ hm => hm) rfl rfl
    rw [pending, pending, hid]
    rfl
  split
  · rename_i cl
    rw [cl] at ts q hs
    refine hh.same ?_ (fun _ _ hm => hm) ts hs
    rw [pending, pending, hid, ← q]
    rfl
  · rename_i cl
    rw [cl] at ts q hs
    exact hh.select hf ts q hs a

theorem Held.finish (hh : Held w) (hexe : w.worker = .executing sel) (status : Option Status)
    (f : Option Refusal) :
    Held { w with scheduler := schedulerFinish w.scheduler sel status f,
                  worker := .idle } := by
  have pending : w.pending = w.scheduler.queue ++ sel := by
    rw [pending, hexe]
    rfl
  have hd := hh.distinct
  rw [pending, nodup_append] at hd
  have a : ({ w with scheduler := schedulerFinish w.scheduler sel status f,
                         worker := .idle } : World).pending = w.scheduler.queue :=
    append_nil _
  refine ⟨a ▸ hd.1, ?_, ?_, ?_⟩
  · intro id hm
    rw [a] at hm
    exact hh.waiting id (pending ▸ mem_append_left sel hm)
  · intro id hm
    rw [a] at hm
    have hab : id ∉ sel := fun hi => hd.2.2 id hm id hi rfl
    simp only [schedulerFinish, if_neg hab]
    exact hh.unfinished id (pending ▸ mem_append_left sel hm)
  · intro hs
    rw [a]
    have he := hh.drained hs
    exact (append_eq_nil_iff.mp he).1

theorem held_lost (w : World) :
    Held { w with scheduler := workerLost w.scheduler, worker := .exited } :=
  ⟨nodup_nil, by simp [pending, workerLost, Worker.batch],
    by simp [pending, workerLost, Worker.batch], fun _ => rfl⟩

theorem schedulerSubmit_ok {s' : Scheduler} {wk : Submission}
    (ha : schedulerSubmit s id wk = .ok s') : s.stopping = false ∧ s' = { s with
      tickets := Function.update s.tickets id ⟨wk, 0, 0, false, none, none⟩
      queue := s.queue ++ [id] } := by
  unfold schedulerSubmit at ha
  split_ifs at ha with invalid full stopping
  exact ⟨by simpa using stopping, (Except.ok.inj ha).symm⟩

theorem Held.submit (hh : Held w) (hab : id ∉ w.calls) (work : Submission) :
    Held (w.submit id work).1 := by
  unfold World.submit
  split
  · exact hh
  rename_i ha
  obtain ⟨hr, rfl⟩ := schedulerSubmit_ok ha
  have hfr : id ∉ w.pending := fun hm => hab (hh.waiting id hm)
  have p : ∀ o, o ∈ (w.scheduler.queue ++ [id]) ++ w.worker.batch ↔ o = id ∨ o ∈ w.pending := by
    simp only [pending, mem_append, mem_singleton]
    tauto
  refine ⟨?_, ?_, ?_, ?_⟩
  · have hmv : ((w.scheduler.queue ++ [id]) ++ w.worker.batch).Perm (id :: w.pending) := by
      rw [append_assoc]
      exact perm_middle
    exact hmv.nodup_iff.mpr (nodup_cons.mpr ⟨hfr, hh.distinct⟩)
  · intro o hm
    rcases (p o).mp hm with rfl | ho
    · exact mem_cons_self
    · exact mem_cons_of_mem id (hh.waiting o ho)
  · intro o hm
    rcases (p o).mp hm with rfl | ho
    · simp
    · have hap : o ≠ id := fun hs => hfr (hs ▸ ho)
      simp only [Function.update_of_ne hap]
      exact hh.unfinished o ho
  · intro hst
    simp only [hr] at hst
    simp at hst

theorem wake_ends (goes : ¬(!(w.scheduler.tickets id).done && !w.scheduler.stopping) = true) :
    (w.scheduler.tickets id).done = true ∨ w.scheduler.stopping = true := by
  by_contra still
  push Not at still
  simp [still.1, still.2] at goes

theorem Held.returned (hh : Held w)
    (hen : (w.scheduler.tickets id).done = true ∨ w.scheduler.stopping = true) :
    id ∉ w.pending := by
  intro hm
  rcases hen with d | hs
  · rw [hh.unfinished id hm] at d
    simp at d
  · rw [hh.drained hs] at hm
    simp at hm

def Quiet (w : World) (event : Event) : Prop := event = .close → w.pending = []

theorem Held.advance (hh : Held w) {st : Worker} (b : w.worker.batch = [])
    (a : st.batch = []) : Held { w with worker := st } := by
  refine hh.same ?_ (fun _ _ hm => hm) rfl rfl
  simp only [pending, b, a]

theorem Held.wake (hh : Held w) (id : ℕ) : Held (w.wake id).1 := by
  unfold World.wake
  split_ifs with hw
  · exact hh
  have hf := hh.returned (wake_ends hw)
  refine hh.same rfl ?_ rfl rfl
  intro o hp hm
  have hap : o ≠ id := by
    rintro rfl
    exact hf hp
  exact (mem_erase_of_ne hap).mpr hm

variable {e : Event}

/-- Through every event of a quiet run the pending tickets are distinct, waited for and
unfinished. -/
theorem Held.act (hh : Held w) (hq : Quiet w e) : Held (w.act e).1 := by
  cases e with simp only [act]
  | start hc =>
    split
    · rename_i st
      split_ifs
      · exact hh
      · exact hh.advance (by rw [st]; rfl) rfl
    · exact hh
  | allocate ha =>
    split
    · rename_i st
      split_ifs
      · exact hh.advance (by rw [st]; rfl) rfl
      · exact held_lost w
    · exact hh
  | setProducers p =>
    unfold schedulerSetProducers
    by_cases hb : w.scheduler.queueCapacity < p
    · rw [if_pos hb]
      exact hh
    · rw [if_neg hb]
      exact hh.same rfl (fun _ _ hm => hm) rfl rfl
  | submit id work =>
    split_ifs with hw
    · exact hh
    · exact hh.submit hw work
  | wake id =>
    split_ifs
    · exact hh.wake id
    · exact hh
  | serve c a =>
    split
    · rename_i st
      exact hh.serve st c a
    · exact hh
  | coalesced ht a =>
    unfold coalesced
    split
    · rename_i st
      split_ifs
      · exact hh
      · exact hh.select (s := { w.scheduler with producerArrivalFloor := 0 })
          (by rw [st]; rfl) rfl rfl rfl a
    · exact hh
  | finish sta f =>
    split
    · rename_i st
      exact hh.finish st sta _
    · exact hh
  | close => exact ⟨hh.distinct, hh.waiting, hh.unfinished, fun _ => hq rfl⟩
  | closeFinish =>
    split
    · exact hh.same rfl (fun _ _ hm => hm) rfl rfl
    · exact hh.same rfl (fun _ _ hm => hm) rfl rfl
    · exact hh

theorem Held.step (hh : Held w) (hq : Quiet w e) : Held (w.step e) := by
  unfold World.step
  split_ifs
  · exact hh
  · exact hh.act hq

variable {r : Option Status × Option Refusal}

theorem act_returns (hr : (w.act e).2 = some (id, r)) :
    (id ∉ w.calls ∧ (w.act e).1 = w) ∨ ((w.act e).1.pending = w.pending ∧
        ((w.scheduler.tickets id).done = true ∨ w.scheduler.stopping = true)) := by
  cases e with
  | submit =>
    simp only [act] at hr ⊢
    split_ifs at hr ⊢ with waits
    unfold submit at hr ⊢
    split at hr
    · simp only [Option.some.injEq, Prod.mk.injEq] at hr
      exact .inl ⟨hr.1 ▸ waits, rfl⟩
    · simp at hr
  | wake =>
    simp only [act, wake] at hr ⊢
    split_ifs at hr ⊢ with waits goes
    simp only [Option.some.injEq, Prod.mk.injEq] at hr
    exact .inr ⟨rfl, hr.1 ▸ wake_ends goes⟩
  | close => simp [act] at hr
  | start | allocate =>
    simp only [act] at hr
    split at hr
    · split_ifs at hr
    · simp at hr
  | setProducers | serve | coalesced | finish | closeFinish =>
    simp only [act] at hr
    split at hr <;> simp at hr

/-- What an event returns with is a ticket the scheduler no longer points to. -/
theorem Held.returns (hh : Held w) (hrt : w.returns e = some (id, r)) :
    id ∉ (w.step e).pending := by
  unfold World.returns at hrt
  unfold World.step
  split_ifs at hrt ⊢
  rcases act_returns hrt with ⟨hab, hs⟩ | ⟨hs, hen⟩
  · rw [hs]
    exact fun hm => hab (hh.waiting id hm)
  · rw [hs]
    exact hh.returned hen

/-- A close while a ticket is pending lets its submit return with the ticket pending. -/
theorem Held.abandoned (hh : Held w) (hop : w.closed = false) (hm : id ∈ w.pending) :
    (w.step .close).returns (.wake id) = some (id, submitResult (w.scheduler.tickets id)) ∧
      id ∈ ((w.step .close).step (.wake id)).pending := by
  have hw := hh.waiting id hm
  simp only [World.step, World.returns, World.act, hop, Bool.false_eq_true, if_false, hw,
    if_true, World.wake, Bool.not_true, Bool.and_false]
  exact ⟨trivial, hm⟩

end Steps

theorem held_start (qu : ℕ) (ts : Tickets) : Held (World.start qu ts) :=
  ⟨nodup_nil, by simp [start, pending, Worker.batch],
    by simp [start, pending, Worker.batch], fun _ => rfl⟩

/-- A submit that returns leaves its ticket free, and a close that finds a pending ticket is
exactly what breaks this. -/
theorem tickets_released (queueCapacity : ℕ) (tickets : Tickets) (events : List Event)
    (along : Along World.step Quiet (World.start queueCapacity tickets) events) (w : World)
    (reached : w = run World.step (World.start queueCapacity tickets) events) :
    (∀ event id result, w.returns event = some (id, result) → id ∉ (w.step event).pending) ∧
      (w.closed = false → ∀ id ∈ w.pending, ∃ result,
        (w.step .close).returns (.wake id) = some (id, result) ∧
          id ∈ ((w.step .close).step (.wake id)).pending) := by
  have held : Held w := by
    rw [reached]
    exact run_invariant_along (P := Held) (fun _ _ held quiet => held.step quiet)
      (held_start queueCapacity tickets) along
  constructor
  · intro event id result returned
    exact held.returns returned
  · intro opened id member
    exact ⟨_, held.abandoned opened member⟩

def sampleWork : Submission := ⟨⟨2, .decode, .outputHead, 1, 0, 0, 1, 0, 4, 2⟩, 1, true⟩

def freshTickets : Tickets := fun _ => ⟨sampleWork, 0, 0, true, none, none⟩

def keep : ℕ → Bool := fun _ => false

theorem tickets_released_pair :
    ∃ events, events = [.start true, .allocate true, .submit 0 sampleWork, .submit 1 sampleWork,
        .serve true keep, .finish none none, .close] ∧
      Along World.step Quiet (World.start 2 freshTickets) events ∧
      (run World.step (World.start 2 freshTickets) events).returns (.wake 0) =
        some (0, none, none) ∧
      0 ∉ ((run World.step (World.start 2 freshTickets) events).step (.wake 0)).pending := by
  have along : Along step Quiet (start 2 freshTickets)
      [.start true, .allocate true, .submit 0 sampleWork, .submit 1 sampleWork, .serve true keep,
        .finish none none, .close] := by
    -- the close comes while both submits still wait, but their batch is finished
    simp only [Along, Quiet, reduceCtorEq, false_implies, true_and, and_true]
    exact fun _ => rfl
  exact ⟨_, rfl, along, rfl, (tickets_released 2 freshTickets _ along _ rfl).1 (.wake 0) 0 _ rfl⟩

/-- A close finds one ticket queued, or one in the batch that the worker executes: its submit
returns all the same. -/
theorem closed_submit_abandons :
    ((run World.step (World.start 1 freshTickets) [.submit 0 sampleWork, .close]).returns
        (.wake 0)).isSome ∧
      0 ∈ ((run World.step (World.start 1 freshTickets)
        [.submit 0 sampleWork, .close]).step (.wake 0)).scheduler.queue ∧
      ((run World.step (World.start 1 freshTickets) [.start true, .allocate true,
        .submit 0 sampleWork, .serve true keep, .close]).returns (.wake 0)).isSome ∧
      0 ∈ ((run World.step (World.start 1 freshTickets) [.start true, .allocate true,
        .submit 0 sampleWork, .serve true keep, .close]).step (.wake 0)).worker.batch := by
  decide

end Yvex.BatchScheduler
