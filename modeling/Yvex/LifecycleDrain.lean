import Yvex.Runs

/-!
# Closing while operations drain

The sampling context and the incremental decoder share one lifecycle protocol. An
operation sets the active bit; its leave clears the bit, under the drain lock and with
a broadcast if it has seen the closing bit. The closer sets the closing bit and waits
under the lock while the active bit or, for the sampler, the count of open transactions
is set. Every load, exchange, lock and condition operation is one event.
-/

set_option autoImplicit false

namespace Yvex.LifecycleDrain
open Runs Function

inductive Owner where
  | sampler | decoder
  deriving DecidableEq

inductive Place where
  | outside | joining (closing : Bool) | inside | resolving | quiet | locking | holding
  | signalling | unlocking
  deriving DecidableEq

inductive Closer where
  | away | comparing (active : Bool) | locking | checking | counting | blocking | waiting | woken
  | unlocking | through
  deriving DecidableEq

inductive Holder where
  | closer | thread (t : ℕ)
  deriving DecidableEq

structure State where
  active : Bool
  closing : Bool
  openTransactions : ℕ
  drainMutex : Option Holder
  place : ℕ → Place
  closer : Closer

def start : State := ⟨false, false, 0, none, fun _ => .outside, .away⟩

def State.put (s : State) (t : ℕ) (p : Place) : State :=
  { s with place := Function.update s.place t p }

def State.when (s : State) (guard : Prop) [Decidable guard] (next : State) : State :=
  if guard then next else s

def Closer.wake (closer : Closer) : Closer := if closer = .waiting then .woken else closer

inductive Event where
  | enter (t : ℕ) | transactionLoad (t : ℕ) | transactionEnter (t : ℕ) | transactionRetry (t : ℕ)
  | transactionRefuse (t : ℕ) | transactionBegin (t : ℕ) | transactionFinish (t : ℕ)
  | leaveLoad (t : ℕ) | leaveClear (t : ℕ) | leaveLock (t : ℕ) | drainClear (t : ℕ)
  | broadcast (t : ℕ) | leaveUnlock (t : ℕ)
  | closeLoad | closeMark | closeRetry | closeLock | closeCheck | closeCount | closeWait
  | closeUnlock

def step (owner : Owner) (s : State) : Event → State
  | .enter t => s.when (s.place t = .outside ∧ s.active = false ∧ s.closing = false)
      { s.put t .inside with active := true }
  | .transactionLoad t => s.when (s.place t = .outside ∧ owner = .sampler ∧ s.active = false)
      (s.put t (.joining s.closing))
  | .transactionEnter t => s.when (s.place t = .joining s.closing ∧ s.active = false)
      { s.put t .resolving with active := true }
  | .transactionRetry t => s.when (s.place t = .joining (!s.closing) ∧ s.active = false)
      (s.put t (.joining s.closing))
  | .transactionRefuse t =>
    s.when ((s.place t = .joining true ∨ s.place t = .joining false) ∧ s.active = true)
      (s.put t .outside)
  -- The decoder's flag is taken before its enter, and given back inside or outside.
  | .transactionBegin t => s.when (s.place t = (if owner = .sampler then .inside else .outside) ∧
        (owner = .decoder → s.openTransactions = 0))
      { s with openTransactions := s.openTransactions + 1 }
  | .transactionFinish t => s.when (owner = .sampler → s.place t = .resolving)
      { s with openTransactions := s.openTransactions - 1 }
  | .leaveLoad t => s.when (s.place t = .inside ∨ s.place t = .resolving)
      (s.put t (if s.closing then .locking else .quiet))
  | .leaveClear t => s.when (s.place t = .quiet) { s.put t .outside with active := false }
  | .leaveLock t => s.when (s.place t = .locking ∧ s.drainMutex = none)
      { s.put t .holding with drainMutex := some (.thread t) }
  | .drainClear t => s.when (s.place t = .holding) { s.put t .signalling with active := false }
  | .broadcast t => s.when (s.place t = .signalling)
      { s.put t .unlocking with closer := s.closer.wake }
  | .leaveUnlock t => s.when (s.place t = .unlocking) { s.put t .outside with drainMutex := none }
  | .closeLoad => s.when (s.closer = .away) { s with closer := .comparing s.active }
  | .closeMark => s.when (s.closer = .comparing s.active)
      { s with closing := true, closer := .locking }
  | .closeRetry => s.when (s.closer = .comparing (!s.active))
      { s with closer := .comparing s.active }
  | .closeLock => s.when ((s.closer = .locking ∨ s.closer = .woken) ∧ s.drainMutex = none)
      { s with closer := .checking, drainMutex := some .closer }
  | .closeCheck => s.when (s.closer = .checking) { s with closer :=
      if s.active then .blocking else if owner = .sampler then .counting else .unlocking }
  | .closeCount => s.when (s.closer = .counting ∧ owner = .sampler)
      { s with closer := if s.openTransactions = 0 then .unlocking else .blocking }
  | .closeWait => s.when (s.closer = .blocking) { s with closer := .waiting, drainMutex := none }
  | .closeUnlock => s.when (s.closer = .unlocking) { s with closer := .through, drainMutex := none }

section Drain

variable {o : Owner} {s : State} {t : ℕ} {p : Place}

@[simp] def Place.entered : Place → Bool
  | .inside | .resolving | .quiet | .locking | .holding => true
  | _ => false

@[simp] def Place.signals : Place → Bool
  | .inside | .resolving | .locking | .holding | .signalling => true
  | _ => false

@[simp] def Place.locked : Place → Bool
  | .holding | .signalling | .unlocking => true
  | _ => false

@[simp] def Closer.marked : Closer → Bool
  | .away | .comparing _ => false
  | _ => true

@[simp] def Closer.locked : Closer → Bool
  | .checking | .counting | .blocking | .unlocking => true
  | _ => false

@[simp] def Closer.stopped : Closer → Bool
  | .blocking | .waiting => true
  | _ => false

def Attended (owner : Owner) (s : State) : Prop :=
  (∃ t, (s.place t).signals = true) ∨ (owner = .sampler ∧ s.openTransactions ≠ 0)

structure Drained (owner : Owner) (s : State) : Prop where
  marked : s.closing = s.closer.marked
  loud : s.closing = true → ∀ t, s.place t ≠ .quiet
  entered : s.active = true → ∃ t, (s.place t).entered = true
  thread : ∀ t, (s.place t).locked = true → s.drainMutex = some (.thread t)
  closer : s.closer.locked = true → s.drainMutex = some .closer
  attended : s.closer.stopped = true → Attended owner s

theorem drained_start : Drained o start := ⟨rfl, nofun, nofun, nofun, nofun, nofun⟩

theorem Drained.when {g : Prop} [Decidable g] {next : State} (h : Drained o s)
    (ht : g → Drained o next) : Drained o (s.when g next) := by
  unfold State.when
  split_ifs with hg
  · exact ht hg
  · exact h

theorem put_place (u : ℕ) : (s.put t p).place u = if u = t then p else s.place u := update_apply ..

theorem Attended.put (h : Attended o s)
    (hs : (s.place t).signals = true → p.signals = true) : Attended o (s.put t p) := by
  rcases h with ⟨u, hu⟩ | ht
  · refine .inl ⟨u, ?_⟩
    rw [put_place]
    split_ifs with hh
    · exact hs (hh ▸ hu)
    · exact hu
  · exact .inr ht

/-- An operation moves, and takes or drops the lock if nobody else holds it. -/
theorem Drained.move (h : Drained o s) (a : Bool) (m : Option Holder)
    (hq : p = .quiet → s.closing = false)
    (he : a = true → p.entered = true ∨ a = s.active ∧ (s.place t).entered = false)
    (hl : p.locked = true → m = some (.thread t))
    (hf : m = s.drainMutex ∨ s.drainMutex = none ∨ s.drainMutex = some (.thread t))
    (hsg : s.closer.stopped = true → (s.place t).signals = true → p.signals = true) :
    Drained o { s.put t p with active := a, drainMutex := m } where
  marked := h.marked
  loud := by
    intro hc u hu
    rw [put_place] at hu
    split_ifs at hu with here
    · exact Bool.false_ne_true ((hq hu).symm.trans hc)
    · exact h.loud hc u hu
  entered := by
    intro ha
    rcases he ha with hi | ⟨hs, ot⟩
    · exact ⟨t, by simpa [put_place] using hi⟩
    obtain ⟨u, hu⟩ := h.entered (hs ▸ ha)
    refine ⟨u, ?_⟩
    rw [put_place, if_neg (by rintro rfl; rw [ot] at hu; cases hu)]
    exact hu
  thread := by
    intro u hu
    rw [put_place] at hu
    split_ifs at hu with here
    · exact here ▸ hl hu
    have := h.thread u hu
    rcases hf with rfl | none | hm
    · exact this
    all_goals simp_all
  closer := by
    intro hh
    have := h.closer hh
    rcases hf with rfl | none | hm
    · exact this
    all_goals simp_all
  attended stopped := (h.attended stopped).put (hsg stopped)

/-- The closer moves, and takes or drops the lock if no operation holds it. -/
theorem Drained.turn (h : Drained o s) (c : Closer) (m : Option Holder)
    (hf : m = s.drainMutex ∨ ∀ t, s.drainMutex ≠ some (.thread t))
    (hm : s.closer.marked = c.marked) (hl : c.locked = true → m = some .closer)
    (ha : c.stopped = true → Attended o s) :
    Drained o { s with closer := c, drainMutex := m } where
  marked := h.marked.trans hm
  loud := h.loud
  entered := h.entered
  thread t ht := by
    rcases hf with rfl | none
    · exact h.thread t ht
    · exact absurd (h.thread t ht) (none t)
  closer := hl
  attended := ha

/-- Whom the closer sees active will signal it. -/
theorem Drained.seen (h : Drained o s) (hc : s.closer = .checking)
    (ha : s.active = true) : Attended o s := by
  obtain ⟨t, ht⟩ := h.entered ha
  have loud := h.loud (by rw [h.marked, hc]; rfl) t
  have thread := h.thread t
  refine .inl ⟨t, ?_⟩
  cases hp : s.place t <;> simp_all

theorem Drained.transact (h : Drained o s) (n : ℕ)
    (hsm : o = .sampler → n ≠ 0 ∨ ∃ t, (s.place t).signals = true) :
    Drained o { s with openTransactions := n } := by
  refine ⟨h.marked, h.loud, h.entered, h.thread, h.closer, fun hs => ?_⟩
  rcases h.attended hs with hsg | ⟨hi, -⟩
  · exact .inl hsg
  · exact (hsm hi).elim (fun hn => .inr ⟨hi, hn⟩) .inl

def Calm (s : State) (event : Event) : Prop :=
  event = .closeMark → ∀ t, s.place t ≠ .quiet

/-- After a calm step somebody is still left to signal a closer that waits. -/
theorem Drained.step (h : Drained o s) (e : Event) (calm : Calm s e) : Drained o (step o s e) := by
  cases e <;> refine h.when fun g => ?_
  case enter t | transactionEnter t => exact h.move _ _ nofun (by simp) nofun (.inl rfl) (by simp)
  case transactionLoad t | transactionRetry t =>
    exact h.move _ _ nofun (by simp [g]) nofun (.inl rfl) (by simp [g])
  case transactionRefuse t =>
    exact h.move _ _ nofun (by rcases g.1 with hp | hp <;> simp [hp]) nofun (.inl rfl)
      (by rcases g.1 with hp | hp <;> simp [hp])
  case transactionBegin t => exact h.transact _ fun _ => .inl (Nat.succ_ne_zero _)
  case transactionFinish t => exact h.transact _ fun hs => .inr ⟨t, by simp [g hs]⟩
  case leaveLoad t =>
    split_ifs with hcl
    · exact h.move _ _ nofun (by simp) nofun (.inl rfl) (by simp)
    · have hu := h.marked
      exact h.move _ _ (by simp [hcl]) (by simp) nofun (.inl rfl)
        (by cases hc : s.closer <;> simp_all)
  case leaveClear t => exact h.move _ _ nofun nofun nofun (.inl rfl) (by simp [g])
  case leaveLock t => exact h.move _ _ nofun (by simp) (by simp) (.inr (.inl g.2)) (by simp)
  case drainClear t =>
    exact h.move _ _ nofun nofun (fun _ => h.thread t (by simp [g])) (.inl rfl) (by simp)
  case broadcast t =>
    -- The closer does not stand between its check and its wait: the lock is held here.
    have hm := h.thread t (by simp [g])
    have apart := h.closer
    have hw := h.turn s.closer.wake _ (.inl rfl) (by cases hc : s.closer <;> simp_all [Closer.wake])
      (by cases hc : s.closer <;> simp_all [Closer.wake])
      (by cases hc : s.closer <;> simp_all [Closer.wake])
    exact hw.move s.active _ nofun (by simp [g]) (fun _ => hm) (.inl rfl)
      (by cases hc : s.closer <;> simp_all [Closer.wake])
  case leaveUnlock t =>
    exact h.move s.active _ nofun (by simp [g]) nofun (.inr (.inr (h.thread t (by simp [g]))))
      (by simp [g])
  case closeMark => exact ⟨rfl, fun _ => calm rfl, h.entered, h.thread, nofun, nofun⟩
  case closeLoad | closeRetry => exact h.turn _ _ (.inl rfl) (by simp [g]) nofun nofun
  case closeLock =>
    exact h.turn _ _ (.inr (by simp [g])) (by rcases g.1 with hc | hc <;> simp [hc]) (by simp) nofun
  case closeCheck =>
    have hh := h.closer (by simp [g])
    split_ifs with ha
    · exact h.turn _ _ (.inl rfl) (by simp [g]) (fun _ => hh) fun _ => h.seen g ha
    all_goals exact h.turn _ _ (.inl rfl) (by simp [g]) (fun _ => hh) nofun
  case closeCount =>
    have hh := h.closer (by simp [g])
    split_ifs with none
    · exact h.turn _ _ (.inl rfl) (by simp [g]) (fun _ => hh) nofun
    · exact h.turn _ _ (.inl rfl) (by simp [g]) (fun _ => hh) fun _ => .inr ⟨g.2, none⟩
  case closeWait =>
    exact h.turn _ _ (.inr (by simp [h.closer (by simp [g])])) (by simp [g]) nofun
      fun _ => h.attended (by simp [g])
  case closeUnlock =>
    exact h.turn _ _ (.inr (by simp [h.closer (by simp [g])])) (by simp [g]) nofun nofun

/-- In a calm run somebody is left to signal a closer that waits. -/
theorem close_attended (owner : Owner) (events : List Event)
    (calm : Along (step owner) Calm start events)
    (waits : (run (step owner) start events).closer = .waiting) :
    Attended owner (run (step owner) start events) :=
  (run_invariant_along (fun _ e h => h.step e) drained_start calm).attended (by simp [waits])

theorem close_attended_inside :
    Attended .sampler (run (step .sampler) start
      [.enter 0, .closeLoad, .closeMark, .closeLock, .closeCheck, .closeWait]) := by
  refine close_attended .sampler _ ⟨nofun, nofun, fun _ t => ?_, nofun, nofun, nofun, trivial⟩ rfl
  change update (fun _ => Place.outside) 0 .inside t ≠ .quiet
  rw [update_apply]
  split_ifs <;> decide

def Lost (owner : Owner) : Prop :=
  let s := run (step owner) start [.enter 0, .leaveLoad 0, .closeLoad, .closeMark, .closeLock,
    .closeCheck, .closeWait, .leaveClear 0]
  s.closer = .waiting ∧ s.active = false ∧ s.openTransactions = 0 ∧ ∀ t, s.place t = .outside

/-- A leave that loads the lifecycle before the closing bit is set clears it unheard. -/
theorem close_lost : Lost .sampler ∧ Lost .decoder := by
  have places : ∀ t, update (update (update start.place 0 .inside) 0
      .quiet) 0 .outside t = .outside := by
    simp [update_apply, start]
  exact ⟨⟨rfl, rfl, rfl, places⟩, rfl, rfl, rfl, places⟩

end Drain

end Yvex.LifecycleDrain
