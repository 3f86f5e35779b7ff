import Yvex.EngineLeases

/-!
# Runs of the engine manager

Closing the manager drains every slot at once and then passes over the table.
With it every step keeps the invariants, and so does every run in which the
generation counter does not wrap.
-/

set_option autoImplicit false

namespace Yvex.EngineManager

open AttentionData SlotTable CheckedArithmetic Runs List

variable {sha : Sha256} {m a : Manager} {w : World}

theorem drainLoaded_alias (e : Engine) : (drainLoaded e).modelAlias = e.modelAlias := by
  unfold drainLoaded
  split_ifs <;> rfl

theorem drainLoaded_generation (e : Engine) : (drainLoaded e).generation = e.generation := by
  unfold drainLoaded
  split_ifs <;> rfl

theorem drainLoaded_unloaded {e : Engine} (ho : e.state ≠ .loaded) : drainLoaded e = e := by
  simp [drainLoaded, ho]

theorem closeStart_engine {i : ℕ} (hb : i < m.capacity) :
    (closeStart m).engines i = drainLoaded (m.engines i) := by
  simp [closeStart, hb]

theorem closeStart_names : SameNames m (closeStart m) where
  capacity := rfl
  next := rfl
  aliases i := by
    simp only [closeStart]
    split_ifs
    · exact drainLoaded_alias _
    · rfl
  generations i := by
    simp only [closeStart]
    split_ifs
    · exact drainLoaded_generation _
    · rfl

theorem SlotKept.drained {ls : List Lease} {s : ℕ} (h : SlotKept m ls s)
    (hb : s < m.capacity) : SlotKept (closeStart m) ls s := by
  have e := closeStart_engine hb
  by_cases hl : (m.engines s).state = .loaded
  · have hn : (m.engines s).modelAlias ≠ [] := by
      intro he
      rw [h.blank he] at hl
      cases hl
    have hd : (closeStart m).engines s = (setState m s .draining).engines s := by
      rw [e, setState, set_self]
      simp [drainLoaded, hl]
    exact (h.restate hn (by simp [hl]) (by simp) (Or.inl (Or.inr rfl))).other hd
      rfl rfl fun _ _ => rfl
  · rw [drainLoaded_unloaded hl] at e
    exact h.other e rfl rfl fun _ _ => rfl

theorem closeStep_kept (h : Kept w) : Kept (closeStep w) := by
  unfold closeStep
  split
  · next hs =>
    have f := h.ending.finals
    rw [hs] at f
    constructor
    · exact h.naming.same closeStart_names
    · intro i hb
      exact (h.slots i hb).drained hb
    · exact h.owned
    · exact h.recorded
    · apply h.closings.same closeStart_names
      intro i hb hop
      rw [closeStart_engine hb] at hop
      by_cases hl : (w.manager.engines i).state = .loaded
      · exact Or.inr (Or.inl hl)
      · rwa [drainLoaded_unloaded hl] at hop
    · apply h.crew.undisturbed closeStart_names.capacity
      intro t s hen
      obtain ⟨hb, -, hu⟩ := (h.crew.working t).engaged hen
      left
      rw [closeStart_engine hb, drainLoaded_unloaded hu]
    · exact ⟨fun _ => rfl, fun past => absurd past (by simp [Closer.past]), Nat.zero_le _, f⟩
  · exact h

theorem Kept.closer (h : Kept w) {who : Closer} {f : List ℕ} (hen : Ending w.manager who f) :
    Kept { w with closer := who, finalCloses := f } :=
  ⟨h.naming, h.slots, h.owned, h.recorded, h.closings, h.crew, hen⟩

theorem closeWakeStep_kept (h : Kept w) : Kept (closeWakeStep w) := by
  unfold closeWakeStep
  split
  · next hw =>
    split_ifs with hd
    · have hen := h.ending
      rw [hw] at hen
      apply h.closer
      constructor
      · intro _
        exact hen.flag (by simp)
      · intro _ i hb
        have share := weight_le_total Engine.activeWork w.manager.engines hb
        have none : total Engine.activeWork w.manager.engines w.manager.capacity = 0 := by
          simpa [closeDrained] using hd
        omega
      · exact Nat.zero_le _
      · exact hen.finals
    · exact h
  · exact h

theorem occupants_succ (n : ℕ) : occupants m (n + 1) =
      if (m.engines n).modelAlias = [] then occupants m n
      else occupants m n ++ [(m.engines n).generation] := by
  simp only [occupants, range_succ, filterMap_append]
  split_ifs with he <;> simp [he]

theorem closeNextStep_kept (h : Kept w) : Kept (closeNextStep w) := by
  unfold closeNextStep
  split
  · next next closing =>
    have hen := h.ending
    rw [closing] at hen
    dsimp only
    split_ifs with mo he
    · apply h.closer
      have hs : occupants w.manager (next + 1) = occupants w.manager next := by
        rw [occupants_succ, if_pos (isEmpty_iff.mp he)]
      exact ⟨fun _ => hen.flag (by simp), fun _ => hen.drained rfl, mo, hen.finals.trans hs.symm⟩
    · apply h.closer
      have ha : occupants w.manager (next + 1) =
          occupants w.manager next ++ [(w.manager.engines next).generation] := by
        rw [occupants_succ, if_neg (by simpa using he)]
      constructor
      · intro _
        exact hen.flag (by simp)
      · intro _
        exact hen.drained rfl
      · exact mo
      · rw [hen.finals]
        exact ha.symm
    · apply h.closer
      have last : next = w.manager.capacity := le_antisymm hen.bounded (by omega)
      have finals := hen.finals
      rw [last] at finals
      exact ⟨fun _ => hen.flag (by simp), fun _ => hen.drained rfl, le_refl _, finals⟩
  · exact h

def isLoad : Op → Bool
  | .load _ _ => true
  | _ => false

def loads (ops : List Op) : ℕ := ops.countP isLoad

theorem liveStep_kept (h : Kept w) (op : Op)
    (hr : isLoad op = true → w.issued.length + 1 < wordLimit) :
    Kept (liveStep sha w op) := by
  cases op with
  | load t n => exact loadStep_kept h t n (hr rfl)
  | loaded t hop => exact loadedStep_kept h t hop
  | acquire n g => exact acquireStep_kept h n g
  | release l => exact releaseStep_kept h l
  | modelAcquire n => exact modelAcquire_kept h n
  | modelRelease =>
    dsimp only [liveStep]
    split
    · next ok => exact modelRelease_kept h ok
    · exact h
  | unload t n g ss => exact drainStep_kept (unloadStep_kept h t n g ss) t
  | drain t => exact drainStep_kept h t
  | unloaded t hc => exact unloadedStep_kept h t hc
  | snapshot => exact h
  | close => exact closeWakeStep_kept (closeStep_kept h)
  | closeWake => exact closeWakeStep_kept h
  | closeNext => exact closeNextStep_kept h

theorem step_kept (h : Kept w) (op : Op) (hr : isLoad op = true → w.issued.length + 1 < wordLimit) :
    Kept (step sha w op) := by
  unfold step
  split
  · exact h
  · exact liveStep_kept h op hr

theorem drainStep_issued (t : ℕ) : (drainStep w t).issued = w.issued := by
  unfold drainStep
  split
  · split_ifs <;> rfl
  · rfl

theorem unloadStep_issued (t : ℕ) (n : Text) (g ss : ℕ) :
    (unloadStep w t n g ss).issued = w.issued := by
  unfold unloadStep
  split <;> rfl

theorem closeWakeStep_issued : (closeWakeStep w).issued = w.issued := by
  unfold closeWakeStep
  split
  · split_ifs <;> rfl
  · rfl

theorem step_issued (sha : Sha256) (w : World) (op : Op) :
    (step sha w op).issued.length ≤ w.issued.length + (isLoad op).toNat := by
  unfold step
  split
  · exact Nat.le_add_right _ _
  cases op with
  | load =>
    dsimp only [liveStep, loadStep]
    split <;> simp [World.become, isLoad]
  | loaded =>
    dsimp only [liveStep, loadedStep]
    split <;> simp [World.become]
  | acquire =>
    dsimp only [liveStep, acquireStep]
    split <;> simp
  | release =>
    dsimp only [liveStep, releaseStep]
    split_ifs <;> simp
  | modelAcquire | snapshot => exact Nat.le_add_right _ _
  | modelRelease =>
    dsimp only [liveStep]
    split <;> simp
  | unload =>
    dsimp only [liveStep]
    rw [drainStep_issued, unloadStep_issued]
    exact Nat.le_add_right _ _
  | drain =>
    dsimp only [liveStep]
    rw [drainStep_issued]
    exact Nat.le_add_right _ _
  | unloaded =>
    dsimp only [liveStep, unloadedStep]
    split <;> simp [World.become]
  | close =>
    dsimp only [liveStep, closeStep]
    rw [closeWakeStep_issued]
    split <;> simp
  | closeWake =>
    dsimp only [liveStep]
    rw [closeWakeStep_issued]
    exact Nat.le_add_right _ _
  | closeNext =>
    dsimp only [liveStep, closeNextStep]
    split
    · split_ifs <;> simp
    · simp

theorem run_kept (sha : Sha256) (ops : List Op) : ∀ w : World, Kept w →
    w.issued.length + loads ops < wordLimit → Kept (run (step sha) w ops) := by
  induction ops with
  | nil =>
    intro w h _
    exact h
  | cons op r ih =>
    intro w h few
    have hsp : loads (op :: r) = loads r + (isLoad op).toNat := by
      cases hl : isLoad op <;> simp [loads, hl]
    have his := step_issued sha w op
    apply ih
    · apply step_kept h
      intro hl
      rw [hl] at hsp
      simp only [Bool.toNat_true] at hsp
      omega
    · omega

structure Safe (world : World) : Prop where
  aliases : ∀ i j, i < world.manager.capacity → j < world.manager.capacity →
    (world.manager.engines i).modelAlias ≠ [] →
    (world.manager.engines i).modelAlias = (world.manager.engines j).modelAlias → i = j
  issued : world.issued.Nodup
  generations : ∀ i, i < world.manager.capacity → (world.manager.engines i).modelAlias ≠ [] →
    (world.manager.engines i).generation ∈ world.issued ∧
      ∀ j, j < world.manager.capacity → (world.manager.engines j).modelAlias ≠ [] →
        (world.manager.engines i).generation = (world.manager.engines j).generation → i = j
  work : ∀ i, i < world.manager.capacity →
    (world.manager.engines i).activeWork =
      world.leases.count ⟨i, (world.manager.engines i).generation⟩ +
        if (world.manager.engines i).state = .loading then 1 else 0
  current : ∀ lease ∈ world.leases, lease.engine < world.manager.capacity ∧
    lease.generation = (world.manager.engines lease.engine).generation ∧
    Occupied (world.manager.engines lease.engine).state
  models : ∀ i, i < world.manager.capacity →
    (world.manager.engines i).modelLeaseCount =
      tally (liveRecord i (world.manager.engines i).generation) world.manager.modelLeases
        world.manager.modelLeaseCapacity
  records : ∀ k, k < world.manager.modelLeaseCapacity →
    (world.manager.modelLeases k).identity ≠ [] →
    (world.manager.modelLeases k).engine < world.manager.capacity ∧
      (world.manager.modelLeases k).generation =
        (world.manager.engines (world.manager.modelLeases k).engine).generation
  unleased : ∀ lease ∈ world.leases, lease.generation ∉ world.closes ++ world.finalCloses
  drained : world.closer.past = true → world.leases = []
  closes : world.closes.Nodup ∧ ∀ generation ∈ world.closes, generation ∈ world.issued
  finalCloses : world.finalCloses = occupants world.manager
    (world.closer.passed world.manager.capacity) ∧ world.finalCloses.Nodup

structure Guarded (sha : Sha256) (world : World) : Prop where
  release : ∀ lease : Lease,
    lease.generation ≠ (world.manager.engines lease.engine).generation →
    (step sha world (.release lease)).manager = world.manager
  submit : ∀ (lease : Lease) (queue : ℕ → Bool),
    lease.generation ≠ (world.manager.engines lease.engine).generation →
    leaseSubmit world.manager queue lease =
        .error (engineRefuse .state "live engine request queue lease is required") ∧
      leaseExecute world.manager lease =
        .error (engineRefuse .state "live engine lease is required")
  acquire : ∀ name generation slot, generation ≠ 0 →
    (world.manager.engines slot).generation ≠ generation →
    (step sha world (.acquire name generation)).manager.engines slot = world.manager.engines slot
  unload : ∀ thread name generation sessions slot, generation ≠ 0 →
    world.threads thread = .idle → (world.manager.engines slot).generation ≠ generation →
    (step sha world (.unload thread name generation sessions)).manager.engines slot =
      world.manager.engines slot
  modelRelease : ∀ identity record, modelLeaseFind world.manager identity = some record →
    (world.manager.modelLeases record).generation ≠
      (world.manager.engines (world.manager.modelLeases record).engine).generation →
    (step sha world (.modelRelease identity)).manager = world.manager
  threads : ∀ thread slot generation,
    (world.threads thread = .draining slot generation ∨
      world.threads thread = .unloading slot generation ∨
      ∃ name, world.threads thread = .loading slot generation name) →
    (world.manager.engines slot).generation = generation

theorem Kept.unleased (h : Kept w) (past : w.closer.past = true) : w.leases = [] := by
  rw [eq_nil_iff_forall_not_mem]
  intro l hm
  have hb := h.owned l hm
  obtain ⟨-, work, hp⟩ := (h.slots l.engine hb).counted hm
  have none := h.ending.drained past l.engine hb
  omega

theorem occupants_nodup {issued : List ℕ} (hn : Naming m issued) {n : ℕ}
    (hb : n ≤ m.capacity) : (occupants m n).Nodup := by
  -- the bound is needed on every index, so the induction is on the length of the front
  induction n with
  | zero => exact nodup_nil
  | succ n ih =>
    rw [occupants_succ]
    split_ifs with he
    · exact ih (by omega)
    rw [nodup_append_comm, singleton_append, nodup_cons]
    constructor
    · intro hm
      obtain ⟨i, hbe, heq⟩ := mem_filterMap.mp hm
      rw [mem_range] at hbe
      split_ifs at heq with blank
      have same := hn.generations i n (by omega) (by omega) blank he (Option.some.inj heq)
      omega
    · exact ih (by omega)

/-- Aliases and generations are unique, and the work of an engine is its leases. -/
theorem Kept.safe (h : Kept w) : Safe w where
  aliases := h.naming.aliases
  issued := by
    rw [h.naming.numbered]
    exact nodup_range'
  generations i hb nonempty := ⟨h.naming.known i hb nonempty, fun j hj ho =>
    h.naming.generations i j hb hj nonempty ho⟩
  work i hb := (h.slots i hb).work
  current lease hm := by
    have hb := h.owned lease hm
    exact ⟨hb, (h.slots lease.engine hb).held lease hm rfl⟩
  models i hb := (h.slots i hb).models
  records k hb live := by
    have hbe := h.recorded k hb live
    exact ⟨hbe, (h.slots _ hbe).records k hb live rfl⟩
  unleased lease hm := by
    have hb := h.owned lease hm
    obtain ⟨hcr, hoc⟩ := (h.slots lease.engine hb).held lease hm rfl
    rw [mem_append, not_or]
    constructor
    · rw [hcr]
      exact h.closings.living lease.engine hb (Or.inr hoc)
    · intro hc
      have f := h.ending.finals
      cases s : w.closer with
      | serving | waiting =>
        rw [f, s] at hc
        cases hc
      | closing | gone =>
        rw [h.unleased (by rw [s]; rfl)] at hm
        cases hm
  drained := h.unleased
  closes := ⟨h.closings.once, h.closings.known⟩
  finalCloses := by
    constructor
    · exact h.ending.finals
    · rw [h.ending.finals]
      exact occupants_nodup h.naming h.ending.bounded

theorem acquireStep_other {n : Text} {g s : ℕ} (hg : g ≠ 0)
    (hs : (w.manager.engines s).generation ≠ g) :
    (acquireStep w n g).manager.engines s = w.manager.engines s := by
  unfold acquireStep
  split
  · next lease sm a ok =>
    obtain ⟨-, -, -, hr, rfl⟩ := acquire_ok ok
    apply set_other
    rintro rfl
    exact hs ((usable_iff.mp hr).2.resolve_left hg).symm
  · rfl

theorem drainStep_other {t s : ℕ} (hel : (w.threads t).slot ≠ some s) :
    (drainStep w t).manager.engines s = w.manager.engines s := by
  unfold drainStep
  split
  · next target g ph =>
    split_ifs
    · apply set_other
      rintro rfl
      apply hel
      rw [ph]
      rfl
    · rfl
  · rfl

theorem unloadStep_other {t g s : ℕ} (n : Text) (ss : ℕ) (hg : g ≠ 0) (idle : w.threads t = .idle)
    (hs : (w.manager.engines s).generation ≠ g) :
    (unloadStep w t n g ss).manager.engines s = w.manager.engines s ∧
      ((unloadStep w t n g ss).threads t).slot ≠ some s := by
  unfold unloadStep
  split
  · next tgt a _ ok =>
    obtain ⟨-, hr, -, rfl⟩ := unloadStart_ok ok
    have ho : s ≠ tgt := by
      rintro rfl
      exact hs ((usable_iff.mp hr).2.resolve_left hg).symm
    constructor
    · exact set_other _ ho
    · simp only [World.become, Function.update_self, Phase.slot, ne_eq, Option.some.injEq]
      exact Ne.symm ho
  · rw [idle]
    exact ⟨rfl, by simp [Phase.slot]⟩

theorem step_of_live {op : Op} {s : ℕ}
    (hl : (liveStep sha w op).manager.engines s = w.manager.engines s) :
    (step sha w op).manager.engines s = w.manager.engines s := by
  unfold step
  split
  · rfl
  · exact hl

/-- A lease of another generation is refused and changes nothing. -/
theorem Kept.guarded (h : Kept w) : Guarded sha w where
  release lease stale := by
    have hd : leaseLive w.manager lease = false := by simp [leaseLive, Ne.symm stale]
    unfold step
    split
    · rfl
    · simp only [liveStep, releaseStep, hd, or_true, if_true]
      exact release_stale hd
  submit lease queue stale := by
    have hd : leaseLive w.manager lease = false := by simp [leaseLive, Ne.symm stale]
    simp [leaseSubmit, leaseExecute, hd]
  acquire n g s given stale := step_of_live (acquireStep_other given stale)
  unload t n g ss s given idle stale := by
    obtain ⟨hs, hel⟩ := unloadStep_other n ss given idle stale
    exact step_of_live ((drainStep_other hel).trans hs)
  modelRelease identity record found stale := by
    unfold step
    split
    · rfl
    simp only [liveStep]
    split
    · next sm a ok =>
      obtain ⟨o, target, hag, -, -, ow, hc, -⟩ := modelLeaseRelease_ok ok
      rw [found] at hag
      cases hag
      rw [ow] at hc
      exact absurd hc.symm stale
    · rfl
  threads t s g phase := by
    have hw := h.crew.working t
    obtain d | hu | ⟨n, hl⟩ := phase
    · rw [d] at hw
      exact hw.2.2.2.1
    · rw [hu] at hw
      exact hw.2.2.2
    · rw [hl] at hw
      rw [hw.2.2]

/-- In every state that any interleaving of fewer than 2^64 loads with the
other operations reaches, the counters of a slot are the leases that are out, an
engine is closed only when none is out, at most once before the manager itself
is closed, and an earlier occupant's lease or generation changes nothing. -/
theorem engine_lease_safety (sha : Sha256) {capacity requestCapacity requestWorkers : ℕ}
    {manager : Manager}
    (opened : managerOpen capacity requestCapacity requestWorkers = .ok manager) (ops : List Op)
    (few : loads ops < wordLimit) :
    Safe (run (step sha) (World.start manager) ops) ∧
      Guarded sha (run (step sha) (World.start manager) ops) := by
  have kept := run_kept sha ops (World.start manager) (managerOpen_kept opened)
    (by simpa [World.start] using few)
  exact ⟨kept.safe, kept.guarded⟩

/-- A load, its unload and the closing of the manager close one generation
twice; while it loads, the loader itself is counted as work. -/
theorem unloaded_engine_closed_again :
    ∃ manager, managerOpen 1 1 1 = .ok manager ∧
      (run (step fixedDigest) (World.start manager)
        [.load 0 ['a'], .loaded 0 true, .unload 0 ['a'] 1 0, .unloaded 0 true, .close,
          .closeNext]).closes = [1] ∧
      (run (step fixedDigest) (World.start manager)
        [.load 0 ['a'], .loaded 0 true, .unload 0 ['a'] 1 0, .unloaded 0 true, .close,
          .closeNext]).finalCloses = [1] ∧
      ((run (step fixedDigest) (World.start manager) [.load 0 ['a']]).manager.engines
        0).activeWork = 1 ∧
      (run (step fixedDigest) (World.start manager) [.load 0 ['a']]).leases = [] := by
  refine ⟨_, rfl, ?_, ?_, ?_, ?_⟩ <;> decide +kernel

/-- An unload waits for a lease and the engine is loaded again; a second release
of the old lease leaves the new generation alone. -/
theorem replaced_engine_safe :
    ∃ manager, managerOpen 2 4 1 = .ok manager ∧
      Safe (run (step fixedDigest) (World.start manager)
        [.load 0 ['a'], .loaded 0 true, .acquire ['a'] 1, .unload 0 ['a'] 1 0, .release ⟨0, 1⟩,
          .drain 0, .unloaded 0 true, .load 1 ['a'], .loaded 1 true, .release ⟨0, 1⟩]) ∧
      Guarded fixedDigest (run (step fixedDigest) (World.start manager)
        [.load 0 ['a'], .loaded 0 true, .acquire ['a'] 1, .unload 0 ['a'] 1 0, .release ⟨0, 1⟩,
          .drain 0, .unloaded 0 true, .load 1 ['a'], .loaded 1 true, .release ⟨0, 1⟩]) :=
  ⟨_, rfl, engine_lease_safety fixedDigest (show managerOpen 2 4 1 = .ok _ from rfl) _
    (by decide)⟩

end Yvex.EngineManager
