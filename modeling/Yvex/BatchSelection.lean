import Yvex.BatchRuns
import Yvex.WordCounter

/-!
# Selecting a batch

Selection in the words of the machine: what is left of the admitted width is a difference
of words, which would be huge below zero. The tickets of a pending queue have passed
submit, so it never is, and selection is the one of the scheduler.
-/

set_option autoImplicit false

namespace Yvex.BatchScheduler

open CheckedArithmetic WordCounter List World

structure Chosen where
  rows : ℕ
  selected : List ℕ
  kept : List ℕ

section Words

variable (work : ℕ → Submission) (answers : ℕ → Bool) (first : CompatibilityKey)

def admits (rows candidate : ℕ) : Bool :=
  compatibilityKeysMatch first (work candidate).key &&
    decide ((work candidate).rowCount ≤ wordSub first.admittedWidth rows)

def chooseWords : ℕ → List ℕ → Chosen
  | rows, [] => ⟨rows, [], []⟩
  | rows, candidate :: rest =>
    if answers candidate then chooseWords rows rest
    else if admits work first rows candidate then
      let chosen := chooseWords (wordAdd rows (work candidate).rowCount) rest
      { chosen with selected := candidate :: chosen.selected }
    else
      let chosen := chooseWords rows rest
      { chosen with kept := candidate :: chosen.kept }

def compatibleWords : ℕ → List ℕ → ℕ
  | _, [] => 0
  | rows, candidate :: rest =>
    if admits work first rows candidate then
      compatibleWords (wordAdd rows (work candidate).rowCount) rest + 1
    else compatibleWords rows rest

end Words

def selectWords (work : ℕ → Submission) (answers : ℕ → Bool) (queue : List ℕ) : Chosen :=
  match queue.dropWhile answers with
  | [] => ⟨0, [], []⟩
  | first :: rest =>
    let chosen := chooseWords work answers (work first).key (work first).rowCount rest
    { chosen with selected := first :: chosen.selected }

def compatibleCountWords (work : ℕ → Submission) : List ℕ → ℕ
  | [] => 0
  | first :: rest => compatibleWords work (work first).key 0 (first :: rest)

def Scheduler.work (s : Scheduler) (id : ℕ) : Submission := (s.tickets id).toSubmission

def Admitted (work : Submission) : Prop :=
  compatibilityKeyValidate work.key = true ∧ 0 < work.rowCount ∧
    work.rowCount ≤ work.key.admittedWidth

theorem submit_admits {s af : Scheduler} {id : ℕ} {w : Submission}
    (hs : schedulerSubmit s id w = .ok af) : Admitted w := by
  unfold schedulerSubmit at hs
  split_ifs at hs with hr
  simp only [Bool.or_eq_true, Bool.not_eq_true', beq_iff_eq, decide_eq_true_eq, not_or,
    Bool.not_eq_false] at hr
  exact ⟨hr.1.2, by omega, by omega⟩

theorem validate_width {key : CompatibilityKey} (hv : compatibilityKeyValidate key = true) :
    key.admittedWidth < wordLimit := by
  simp only [compatibilityKeyValidate, Bool.and_eq_true, decide_eq_true_eq] at hv
  have : 64 < wordLimit := by decide
  omega

theorem keysMatch_eq {left right : CompatibilityKey}
    (hs : compatibilityKeysMatch left right = true) : right = left := by
  simp only [compatibilityKeysMatch, compatibilityKeyValidate, Bool.and_eq_true, beq_iff_eq,
    decide_eq_true_eq] at hs
  cases left
  cases right
  simp_all

theorem keysMatch_self {key : CompatibilityKey} (hv : compatibilityKeyValidate key = true) :
    compatibilityKeysMatch key key = true := by
  simp [compatibilityKeysMatch, hv]

variable {work : ℕ → Submission} {a : ℕ → Bool} {first : CompatibilityKey} {rows : ℕ}

theorem admits_exact {c : ℕ} (hr : rows ≤ first.admittedWidth)
    (hsm : first.admittedWidth < wordLimit) :
    admits work first rows c = (compatibilityKeysMatch first (work c).key &&
      decide ((work c).rowCount ≤ first.admittedWidth - rows)) := by
  rw [admits, wordSub_eq hr hsm]

theorem admits_fits {c : ℕ} (hr : rows ≤ first.admittedWidth)
    (hsm : first.admittedWidth < wordLimit) (htk : admits work first rows c = true) :
    wordAdd rows (work c).rowCount = rows + (work c).rowCount ∧
      rows + (work c).rowCount ≤ first.admittedWidth ∧ (work c).key = first := by
  rw [admits_exact hr hsm, Bool.and_eq_true, decide_eq_true_eq] at htk
  exact ⟨wordAdd_eq (by omega), by omega, keysMatch_eq htk.1⟩

structure Partition (work : ℕ → Submission) (answers : ℕ → Bool) (first : CompatibilityKey)
    (rows : ℕ) (queue : List ℕ) (chosen : Chosen) : Prop where
  parts : (chosen.selected ++ (queue.filter answers ++ chosen.kept)).Perm queue
  order : chosen.kept.Sublist queue
  keys : ∀ id ∈ chosen.selected, (work id).key = first
  total : chosen.rows = rows + (chosen.selected.map fun id => (work id).rowCount).sum
  fits : chosen.rows ≤ first.admittedWidth

/-- The loop over the queue splits it into cancelled, taken and kept tickets. -/
theorem chooseWords_partition (q : List ℕ) (hr : rows ≤ first.admittedWidth)
    (hsm : first.admittedWidth < wordLimit) :
    Partition work a first rows q (chooseWords work a first rows q) := by
  induction q generalizing rows with
  | nil => exact ⟨.refl _, .refl _, by simp [chooseWords], by simp [chooseWords], hr⟩
  | cons c rs ih =>
    rw [chooseWords]
    by_cases hc : a c = true
    · rw [if_pos hc]
      have hl := ih hr
      refine ⟨?_, hl.order.cons _, hl.keys, hl.total, hl.fits⟩
      rw [filter_cons_of_pos hc]
      exact perm_middle.trans (hl.parts.cons c)
    split_ifs with htk
    · obtain ⟨he', hf, key⟩ := admits_fits hr hsm htk
      rw [he']
      have hl := ih hf
      refine ⟨?_, hl.order.cons _, ?_, ?_, hl.fits⟩
      · rw [filter_cons_of_neg hc]
        exact hl.parts.cons c
      · rintro id hm
        rcases mem_cons.mp hm with rfl | hm
        · exact key
        · exact hl.keys id hm
      · simp only [hl.total, map_cons, sum_cons, Nat.add_assoc]
    · have hl := ih hr
      refine ⟨?_, hl.order.cons_cons c, hl.keys, hl.total, hl.fits⟩
      rw [filter_cons_of_neg hc]
      rw [← append_assoc]
      refine perm_middle.trans ?_
      rw [append_assoc]
      exact hl.parts.cons c

theorem chooseWords_count (q : List ℕ) (hli : ∀ id ∈ q, a id = false) :
    (chooseWords work a first rows q).selected.length =
      compatibleWords work first rows q := by
  induction q generalizing rows with
  | nil => rfl
  | cons c rs ih =>
    have hl := fun rows => @ih rows fun id hm => hli id (mem_cons_of_mem _ hm)
    rw [chooseWords, if_neg (by simp [hli c]), compatibleWords]
    split_ifs
    · simp [hl]
    · exact hl rows

variable {ts : Tickets}

theorem completeCancelled_work (hs : ∀ id, (ts id).toSubmission = work id)
    (cancelled id : ℕ) : (completeCancelled ts cancelled id).toSubmission = work id := by
  unfold completeCancelled
  by_cases hit : id = cancelled
  · subst hit
    rw [Function.update_self]
    exact hs id
  · rw [Function.update_of_ne hit]
    exact hs id

theorem dropCancelled_words (q : List ℕ) (hs : ∀ id, (ts id).toSubmission = work id) :
    (dropCancelled a ts q).2 = q.dropWhile a ∧
      ∀ id, ((dropCancelled a ts q).1 id).toSubmission = work id := by
  induction q generalizing ts with
  | nil => exact ⟨rfl, hs⟩
  | cons head rs ih =>
    rw [dropCancelled, dropWhile_cons]
    split_ifs
    · exact ih (completeCancelled_work hs head)
    · exact ⟨rfl, hs⟩

theorem gather_words (q : List ℕ) (hs : ∀ id, (ts id).toSubmission = work id)
    (hr : rows ≤ first.admittedWidth) (hsm : first.admittedWidth < wordLimit) :
    (gather a first ts rows q).selected = (chooseWords work a first rows q).selected ∧
      (gather a first ts rows q).kept = (chooseWords work a first rows q).kept ∧
      (gather a first ts rows q).rows = (chooseWords work a first rows q).rows := by
  induction q generalizing ts rows with
  | nil => exact ⟨rfl, rfl, rfl⟩
  | cons c rs ih =>
    have hd : admits work first rows c = (compatibilityKeysMatch first (ts c).key &&
          decide ((ts c).rowCount ≤ first.admittedWidth - rows)) := by
      rw [admits_exact hr hsm, ← hs c]
    rw [gather, chooseWords]
    by_cases hc : a c = true
    · rw [if_pos hc, if_pos hc]
      exact ih (completeCancelled_work hs c) hr
    rw [if_neg hc, if_neg hc, ← hd]
    split_ifs with htk
    · obtain ⟨he', hf, -⟩ := admits_fits hr hsm htk
      rw [he', ← hs c] at *
      obtain ⟨s, hk, rows⟩ := ih hs hf
      exact ⟨congrArg (c :: ·) s, hk, rows⟩
    · obtain ⟨s, hk, rows⟩ := ih hs hr
      exact ⟨s, congrArg (c :: ·) hk, rows⟩

theorem compatible_words (q : List ℕ) (hr : rows ≤ first.admittedWidth)
    (hsm : first.admittedWidth < wordLimit) :
    compatibleFrom ts first rows q =
      compatibleWords (fun id => (ts id).toSubmission) first rows q := by
  induction q generalizing rows with
  | nil => rfl
  | cons c rs ih =>
    rw [compatibleFrom, compatibleWords]
    by_cases htk : admits (fun id => (ts id).toSubmission) first rows c = true
    · obtain ⟨he', hf, -⟩ := admits_fits hr hsm htk
      rw [admits_exact hr hsm, Bool.and_eq_true, decide_eq_true_eq] at htk
      rw [if_neg (by simp [htk]), if_pos (by simp [admits_exact hr hsm, htk]), he']
      exact congrArg (· + 1) (ih hf)
    · rw [if_neg htk]
      rw [admits_exact hr hsm] at htk
      rw [if_pos, ih hr]
      simpa [Nat.not_le, imp_iff_not_or] using htk

theorem gather_work (q : List ℕ) (hs : ∀ id, (ts id).toSubmission = work id) (id : ℕ) :
    ((gather a first ts rows q).tickets id).toSubmission = work id := by
  induction q generalizing ts rows with
  | nil => exact hs id
  | cons c rs ih =>
    rw [gather]
    split_ifs
    · exact ih (completeCancelled_work hs c)
    · exact ih hs
    · exact ih hs

theorem schedulerSelect_work (s : Scheduler) (id : ℕ) :
    (schedulerSelect s a).1.work id = s.work id := by
  have dropped := (@dropCancelled_words s.work a s.tickets s.queue fun _ => rfl).2
  unfold schedulerSelect Scheduler.work
  split
  · rename_i hd
    rw [hd] at dropped
    exact dropped id
  · rename_i ts f rs hd
    rw [hd] at dropped
    have gathered := @gather_work s.work a (ts f).key (ts f).rowCount ts rs dropped id
    dsimp only
    split_ifs <;> exact gathered

def Pending (s : Scheduler) : Prop := ∀ id ∈ s.queue, Admitted (s.work id)

variable {s s' : Scheduler}

theorem Pending.of (h : Pending s) (queued : ∀ id ∈ s'.queue, id ∈ s.queue)
    (same : ∀ id, s'.work id = s.work id) : Pending s' :=
  fun id hm => same id ▸ h id (queued id hm)

theorem Pending.select (h : Pending s) : Pending (schedulerSelect s a).1 := by
  obtain ⟨cancelled, parts, -⟩ := (schedulerSelect_split s a).parts
  refine h.of (fun id hm => parts.mem_iff.mp ?_) (schedulerSelect_work s)
  exact mem_append_right _ (mem_append_left _ hm)

theorem Pending.submit (h : Pending s) {id : ℕ} {w : Submission}
    (hs : schedulerSubmit s id w = .ok s') : Pending s' := by
  have admitted := submit_admits hs
  obtain ⟨-, rfl⟩ := schedulerSubmit_ok hs
  intro o hm
  by_cases same : o = id
  · subst same
    simpa [Scheduler.work] using admitted
  · rw [mem_append, mem_singleton, or_iff_left same] at hm
    simpa [Scheduler.work, Function.update_of_ne same] using h o hm

theorem Pending.finish (h : Pending s) (selected : List ℕ) (st : Option AttentionData.Status)
    (f : Option AttentionData.Refusal) : Pending (schedulerFinish s selected st f) := by
  refine h.of (fun _ hm => hm) fun id => ?_
  unfold Scheduler.work schedulerFinish
  dsimp only
  split_ifs <;> rfl

theorem Pending.serve {w : World} (h : Pending w.scheduler) (c : Bool) :
    Pending (w.serve c a).scheduler := by
  obtain ⟨ts, q, -⟩ := schedulerCoalesce_frame w.scheduler c
  have coalesced : Pending (schedulerCoalesce w.scheduler c).1 :=
    h.of (fun _ hm => q ▸ hm) fun id => by rw [Scheduler.work, ts]; rfl
  unfold World.serve
  split_ifs
  · exact h
  · exact h
  split
  · rename_i hc
    rw [hc] at coalesced
    exact coalesced
  · rename_i hc
    rw [hc] at coalesced
    exact coalesced.select

/-- Every event leaves only admitted work queued. -/
theorem Pending.step {w : World} (h : Pending w.scheduler) (e : Event) :
    Pending (w.step e).scheduler := by
  unfold World.step
  split_ifs
  · exact h
  cases e with simp only [act]
  | start =>
    split
    · split_ifs <;> exact h
    · exact h
  | allocate =>
    split
    · split_ifs
      · exact h
      · exact fun _ hm => absurd hm not_mem_nil
    · exact h
  | setProducers p =>
    unfold schedulerSetProducers
    by_cases many : w.scheduler.queueCapacity < p
    · rw [if_pos many]
      exact h
    · rw [if_neg many]
      exact h.of (fun _ hm => hm) fun _ => rfl
  | submit id work =>
    split_ifs
    · exact h
    · unfold World.submit
      split
      · exact h
      · exact h.submit ‹_›
  | wake id =>
    unfold World.wake
    split_ifs <;> exact h
  | serve c a =>
    split
    · exact h.serve c
    · exact h
  | coalesced t a =>
    unfold World.coalesced
    split
    · split_ifs
      · exact h
      · exact Pending.select (h.of (fun _ hm => hm) fun _ => rfl)
    · exact h
  | finish st f =>
    split
    · exact h.finish _ _ _
    · exact h
  | close => exact h.of (fun _ hm => hm) fun _ => rfl
  | closeFinish => split <;> exact h

/-- Whatever the callers and the worker do, the queued tickets have passed submit. -/
theorem reached_pending (capacity : ℕ) (tickets : Tickets) (events : List Event) :
    Pending (Runs.run World.step (World.start capacity tickets) events).scheduler :=
  Runs.run_invariant (P := fun w : World => Pending w.scheduler) (fun _ e h => h.step e)
    (fun _ hm => absurd hm not_mem_nil) events

theorem oldest_split {q : List ℕ} {first : ℕ} (ho : q.find? (fun id => !a id) = some first) :
    ∃ gone rs, q = gone ++ first :: rs ∧ (∀ id ∈ gone, a id = true) ∧
      a first = false ∧ q.dropWhile a = first :: rs := by
  obtain ⟨hl, gone, rs, rfl, hc⟩ := find?_eq_some_iff_append.mp ho
  have hkn : ∀ id ∈ gone, a id = true := by simpa using hc
  have hw : a first = false := by simpa using hl
  refine ⟨gone, rs, rfl, hkn, hw, ?_⟩
  rw [dropWhile_append_of_pos hkn, dropWhile_cons_of_neg (by simp [hw])]

theorem schedulerSelect_words {s : Scheduler} {first : ℕ} {rs : List ℕ}
    (hd : s.queue.dropWhile a = first :: rs)
    (hr : (s.work first).rowCount ≤ (s.work first).key.admittedWidth)
    (hsm : (s.work first).key.admittedWidth < wordLimit) :
    let chosen := chooseWords s.work a (s.work first).key (s.work first).rowCount rs
    ∃ af, schedulerSelect s a = (af, first :: chosen.selected) ∧ af.queue = chosen.kept ∧
      ∀ id ∈ first :: chosen.selected, (af.tickets id).actualWidth = chosen.rows := by
  obtain ⟨hs, hw⟩ := @dropCancelled_words s.work a s.tickets s.queue fun _ => rfl
  rw [hd] at hs
  unfold schedulerSelect
  generalize dropCancelled a s.tickets s.queue = left at hs hw
  obtain ⟨ts, q⟩ := left
  obtain rfl : q = first :: rs := hs
  have head : (ts first).toSubmission = s.work first := hw first
  obtain ⟨se, hk, rows⟩ := @gather_words s.work a (s.work first).key _ ts rs hw hr hsm
  simp only [head, se]
  refine ⟨_, rfl, hk, ?_⟩
  intro id hm
  dsimp only
  rw [if_pos hm]
  exact rows

/-- The batch, the cancelled tickets and the new queue are the old queue. -/
theorem selection_partitions (s : Scheduler) (answers : ℕ → Bool) (pending : Pending s)
    (first : ℕ) (oldest : s.queue.find? (fun id => !answers id) = some first) :
    ∃ batch after, schedulerSelect s answers = (after, batch) ∧ batch.head? = some first ∧
      selectWords s.work answers s.queue =
        ⟨(batch.map fun id => (s.work id).rowCount).sum, batch, after.queue⟩ ∧
      (∀ id ∈ batch, (s.work id).key = (s.work first).key) ∧
      (batch.map fun id => (s.work id).rowCount).sum ≤ (s.work first).key.admittedWidth ∧
      (∀ id ∈ batch, (after.tickets id).actualWidth =
        (batch.map fun id => (s.work id).rowCount).sum) ∧
      (batch ++ (s.queue.filter answers ++ after.queue)).Perm s.queue ∧
      after.queue.Sublist s.queue ∧
      ((∀ id ∈ s.queue, answers id = false) →
        schedulerCompatibleCount s = batch.length ∧
        compatibleCountWords s.work s.queue = batch.length) := by
  obtain ⟨heads, rest, queue, cancelled, waits, dropped⟩ := oldest_split oldest
  obtain ⟨valid, positive, room⟩ := pending first (by simp [queue])
  have small := validate_width valid
  let key := (s.work first).key
  let chosen := chooseWords s.work answers key (s.work first).rowCount rest
  have split : Partition s.work answers key (s.work first).rowCount rest chosen :=
    chooseWords_partition rest room small
  have words : selectWords s.work answers s.queue =
      ⟨chosen.rows, first :: chosen.selected, chosen.kept⟩ := by
    simp only [selectWords, dropped]
    rfl
  have total : chosen.rows = ((first :: chosen.selected).map fun id => (s.work id).rowCount).sum :=
    split.total
  obtain ⟨after, selected, kept, widths⟩ := schedulerSelect_words dropped room small
  refine ⟨first :: chosen.selected, after, selected, rfl, ?_, ?_, ?_, ?_, ?_, ?_, ?_⟩
  · rw [words, total, kept]
  · intro id member
    rcases mem_cons.mp member with rfl | member
    · rfl
    · exact split.keys id member
  · rw [← total]
    exact split.fits
  · rw [← total]
    exact widths
  · have filtered : s.queue.filter answers = heads ++ rest.filter answers := by
      rw [queue, filter_append, filter_eq_self.mpr cancelled,
        filter_cons_of_neg (by simp [waits])]
    rw [filtered, kept, queue, append_assoc]
    refine perm_append_comm_assoc _ _ _ |>.trans ?_
    exact (split.parts.cons first).append_left heads
  · rw [kept, queue]
    exact (split.order.trans (sublist_cons_self ..)).trans (sublist_append_right ..)
  · intro live
    obtain rfl : heads = [] := eq_nil_iff_forall_not_mem.mpr fun id member => by
      have stays := live id (by simp [queue, member])
      rw [cancelled id member] at stays
      cases stays
    have itself : admits s.work key 0 first = true := by
      rw [admits_exact (Nat.zero_le _) small, keysMatch_self valid]
      simpa using room
    have counted : compatibleCountWords s.work s.queue = (first :: chosen.selected).length := by
      have later : ∀ id ∈ rest, answers id = false := fun id member =>
        live id (by simp [queue, member])
      rw [queue, nil_append, compatibleCountWords, compatibleWords, if_pos itself,
        wordAdd_eq (by omega), Nat.zero_add, length_cons]
      exact congrArg (· + 1) (chooseWords_count rest later).symm
    refine ⟨?_, counted⟩
    rw [← counted, schedulerCompatibleCount, queue]
    exact compatible_words _ (Nat.zero_le _) small

def halfWork : Submission := ⟨⟨2, .decode, .moe, 0, 0, 0, 1, 0, 8, 4⟩, 2, true⟩

def waitingThree : Scheduler :=
  (Runs.run World.step (World.start 4 freshTickets)
    [.submit 7 halfWork, .submit 8 halfWork, .submit 9 halfWork]).scheduler

theorem waitingThree_pending : Pending waitingThree := reached_pending _ _ _

theorem selection_partitions_three :
    ∃ batch after, schedulerSelect waitingThree (· == 7) = (after, batch) ∧
      batch.head? = some 8 ∧ (batch ++ ([7] ++ after.queue)).Perm [7, 8, 9] := by
  obtain ⟨batch, after, selected, head, -, -, -, -, parts, -⟩ :=
    selection_partitions waitingThree (· == 7) waitingThree_pending 8 (by decide)
  exact ⟨batch, after, selected, head, parts⟩

/-- When every queued ticket is cancelled, there is no batch. -/
theorem cancelled_queue_empty_batch :
    waitingThree.queue ≠ [] ∧ Pending waitingThree ∧
      (schedulerSelect waitingThree fun _ => true).2 = [] :=
  ⟨by decide, waitingThree_pending, rfl⟩

end Yvex.BatchScheduler
