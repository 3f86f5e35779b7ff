import Yvex.EngineManager

/-!
# Effects on the engine slots

Each critical section replaces one slot of the table, or drains all of them when
the manager closes. What the names and the counters of a slot mean is kept by
every one of them.
-/

set_option autoImplicit false

namespace Yvex.EngineManager

open AttentionData SlotTable WordCounter ServerEnums CheckedArithmetic List Function

variable {m : Manager}

def setWork (manager : Manager) (slot work : ℕ) : Manager :=
  manager.set slot { manager.engines slot with activeWork := work }

def setModels (manager : Manager) (slot count record : ℕ) (lease : ModelLease) : Manager :=
  { manager.set slot { manager.engines slot with modelLeaseCount := count } with
    modelLeases := Function.update manager.modelLeases record lease }

variable {n : Text} {e : Engine}

theorem named_iff : named n e = true ↔ e.modelAlias ≠ [] ∧ e.modelAlias = n := by
  simp [named]

variable {s : ℕ}

theorem engineFind_some (h : engineFind m n = some s) :
    s < m.capacity ∧ (m.engines s).modelAlias ≠ [] ∧ (m.engines s).modelAlias = n := by
  have hf := firstWhere_some h
  exact ⟨hf.1, named_iff.mp hf.2⟩

def Replaceable (engine : Engine) : Prop :=
  engine.modelAlias = [] ∨ engine.state = .unloaded ∨ engine.state = .failed

theorem reserveFrom_some {es : ℕ → Engine} (i1 : List ℕ) :
    ∀ em : Option ℕ, reserveFrom es n i1 em = some s →
      (s ∈ i1 ∧ named n (es s) = true ∧ Replaceable (es s)) ∨
      ((∀ i ∈ i1, named n (es i) = false) ∧ (em = some s ∨ s ∈ i1 ∧ Replaceable (es s))) := by
  induction i1 with
  | nil =>
    intro em h
    exact .inr ⟨by simp, .inl h⟩
  | cons j r ih =>
    intro em h
    simp only [reserveFrom] at h
    by_cases hf : named n (es j) = true
    · split_ifs at h with hh
      cases h
      left
      simp only [Bool.or_eq_true, beq_iff_eq] at hh
      exact ⟨by simp, hf, .inr hh⟩
    · rw [if_neg hf] at h
      -- the first replaceable slot is remembered, a later one is not
      have l : ∀ hk : Option ℕ, reserveFrom es n r hk = some s →
          (hk = some s → em = some s ∨ s = j ∧ Replaceable (es s)) →
          (s ∈ j :: r ∧ named n (es s) = true ∧ Replaceable (es s)) ∨
          ((∀ i ∈ j :: r, named n (es i) = false) ∧
            (em = some s ∨ s ∈ j :: r ∧ Replaceable (es s))) := by
        intro hk hrs hr
        obtain ⟨hm, hs, hh⟩ | ⟨o, r⟩ := ih hk hrs
        · exact .inl ⟨List.mem_cons_of_mem _ hm, hs, hh⟩
        · right
          constructor
          · simpa [hf] using o
          · obtain hs | ⟨hm, hh⟩ := r
            · obtain hs | ⟨rfl, hh⟩ := hr hs
              · exact .inl hs
              · exact .inr ⟨by simp, hh⟩
            · exact .inr ⟨List.mem_cons_of_mem _ hm, hh⟩
      split_ifs at h with chosen
      · apply l _ h
        intro hs
        cases hs
        simp only [Bool.and_eq_true, Bool.or_eq_true, List.isEmpty_iff, beq_iff_eq] at chosen
        exact .inr ⟨rfl, chosen.2.imp_right .inl⟩
      · exact l _ h .inl

theorem engineReserve_some (h : engineReserve m n = some s) :
    s < m.capacity ∧ Replaceable (m.engines s) ∧
      (named n (m.engines s) = true ∨ ∀ i, i < m.capacity → named n (m.engines i) = false) := by
  have hf := reserveFrom_some _ _ h
  simp only [mem_range, reduceCtorEq, false_or] at hf
  obtain ⟨hb, hs, hfr⟩ | ⟨o, hb, hfr⟩ := hf
  · exact ⟨hb, hfr, .inl hs⟩
  · exact ⟨hb, hfr, .inr o⟩

variable {a : Manager} {g : ℕ}

theorem loadReserve_ok (h : loadReserve m n = .ok (s, g, a)) :
    aliasValid n = true ∧ m.closing = false ∧ engineReserve m n = some s ∧ g = m.nextGeneration ∧
      a = { m with
          engines := Function.update m.engines s ⟨.loading, g, 1, 0, n⟩
          nextGeneration := wordAdd g 1 } := by
  unfold loadReserve at h
  split_ifs at h with invalid closing
  split at h
  · cases h
  · cases h
    simp only [Bool.not_eq_true, Bool.not_eq_eq_eq_not, Bool.not_true] at invalid closing
    exact ⟨by simpa using invalid, closing, by assumption, rfl, rfl⟩

theorem engineSelect_some (h : engineSelect m n = some s) : s < m.capacity := by
  unfold engineSelect at h
  split_ifs at h with anonymous
  · unfold onlyLoaded at h
    split at h
    · next only =>
      cases h
      have hm : s ∈ (range m.capacity).filter
          fun i => (m.engines i).state == .loaded := by simp [only]
      exact mem_range.mp (mem_filter.mp hm).1
    · cases h
  · exact (engineFind_some h).1

theorem usable_iff : usable e g = true ↔ e.state = .loaded ∧ (g = 0 ∨ g = e.generation) := by
  simp [usable]

variable {summary : EngineSummary}

theorem acquire_ok {le : Lease} (h : acquire m n g = .ok (le, summary, a)) :
    m.closing = false ∧ le.engine < m.capacity ∧ le.generation = (m.engines le.engine).generation ∧
      usable (m.engines le.engine) g = true ∧
      a = setWork m le.engine ((m.engines le.engine).activeWork + 1) := by
  unfold acquire at h
  dsimp only at h
  split_ifs at h with closing
  all_goals
    split at h
    · cases h
    next s sel =>
    split_ifs at h with ready
    cases h
    exact ⟨by simpa using closing, engineSelect_some sel, rfl, ready, rfl⟩

theorem unloadStart_ok {ss : ℕ} (h : unloadStart m n g ss = .ok (s, a)) :
    engineFind m n = some s ∧ usable (m.engines s) g = true ∧ (m.engines s).modelLeaseCount = 0 ∧
      a = setState m s .draining := by
  unfold unloadStart at h
  dsimp only at h
  split_ifs at h
  split at h
  · cases h
  next hf =>
  split_ifs at h with ready idle
  cases h
  exact ⟨hf, by simpa using ready, by omega, rfl⟩

/-- What a model lease acquisition does to the manager: nothing but using up a
serial number, or one record and one count. -/
theorem modelLeaseAcquire_cases (sha : Sha256) (m : Manager) (n : Text) :
    (modelLeaseAcquire sha m n).2 =
        { m with nextModelLease := (modelLeaseAcquire sha m n).2.nextModelLease } ∨
      ∃ r s identity, r < m.modelLeaseCapacity ∧ s < m.capacity ∧
        (m.modelLeases r).identity = [] ∧ (m.engines s).state = .loaded ∧
        identity ≠ [] ∧
        (modelLeaseAcquire sha m n).2 = { setModels m s ((m.engines s).modelLeaseCount + 1) r
              ⟨identity, s, (m.engines s).generation⟩ with
            nextModelLease := wordAdd m.nextModelLease 1 } := by
  unfold modelLeaseAcquire
  dsimp only
  split_ifs with hin
  · exact .inl rfl
  split
  · exact .inl rfl
  next r free =>
  split
  · exact .inl rfl
  next s hf =>
  split_ifs with hu
  · exact .inl rfl
  split
  · exact .inl rfl
  next identity hd =>
  have he := firstWhere_some free
  have hex := sha.digest_hex _ _ hd
  have hn : identity ≠ [] := by
    rintro rfl
    simp [hexValid] at hex
  exact .inr ⟨r, s, identity, he.1, (engineFind_some hf).1,
    by simpa using he.2, by simpa using hu, hn, rfl⟩

theorem modelLeaseRelease_ok {identity : Identity}
    (h : modelLeaseRelease m identity = .ok (summary, a)) :
    ∃ r s, modelLeaseFind m identity = some r ∧
      r < m.modelLeaseCapacity ∧ (m.modelLeases r).identity ≠ [] ∧
      s = (m.modelLeases r).engine ∧
      (m.engines s).generation = (m.modelLeases r).generation ∧
      (m.engines s).modelLeaseCount ≠ 0 ∧
      a = setModels m s ((m.engines s).modelLeaseCount - 1) r ⟨[], 0, 0⟩ := by
  unfold modelLeaseRelease at h
  dsimp only at h
  split_ifs at h
  split at h
  · cases h
  next r hf =>
  split_ifs at h with hr
  cases h
  have hm := firstWhere_some hf
  simp only [Bool.and_eq_true, Bool.not_eq_eq_eq_not, Bool.not_true, isEmpty_eq_false_iff] at hm
  simp only [not_or, not_not] at hr
  exact ⟨r, _, hf, hm.1, hm.2.1, rfl, hr.1, hr.2, rfl⟩

structure Naming (manager : Manager) (issued : List ℕ) : Prop where
  numbered : issued = List.range' 1 issued.length
  next : manager.nextGeneration = (issued.length + 1) % wordLimit
  known : ∀ i, i < manager.capacity → (manager.engines i).modelAlias ≠ [] →
    (manager.engines i).generation ∈ issued
  aliases : ∀ i j, i < manager.capacity → j < manager.capacity →
    (manager.engines i).modelAlias ≠ [] →
    (manager.engines i).modelAlias = (manager.engines j).modelAlias → i = j
  generations : ∀ i j, i < manager.capacity → j < manager.capacity →
    (manager.engines i).modelAlias ≠ [] → (manager.engines j).modelAlias ≠ [] →
    (manager.engines i).generation = (manager.engines j).generation → i = j

structure SameNames (manager after : Manager) : Prop where
  capacity : after.capacity = manager.capacity
  next : after.nextGeneration = manager.nextGeneration
  aliases : ∀ i, (after.engines i).modelAlias = (manager.engines i).modelAlias
  generations : ∀ i, (after.engines i).generation = (manager.engines i).generation

variable {id : List ℕ} {af : Manager}

theorem Naming.same (h : Naming m id) (hn : SameNames m af) : Naming af id where
  numbered := h.numbered
  next := by rw [hn.next, h.next]
  known i hb := by
    rw [hn.capacity] at hb
    rw [hn.aliases, hn.generations]
    exact h.known i hb
  aliases i j hi hj := by
    rw [hn.capacity] at hi hj
    rw [hn.aliases, hn.aliases]
    exact h.aliases i j hi hj
  generations i j hi hj := by
    rw [hn.capacity] at hi hj
    rw [hn.aliases, hn.aliases, hn.generations, hn.generations]
    exact h.generations i j hi hj

theorem Naming.fresh (h : Naming m id) (hr : id.length + 1 < wordLimit) :
    m.nextGeneration ∉ id := by
  have next : m.nextGeneration = id.length + 1 := by rw [h.next, Nat.mod_eq_of_lt hr]
  rw [next, h.numbered, mem_range']
  simp
  omega

@[simp] theorem set_self (s : ℕ) (e : Engine) : (m.set s e).engines s = e := by simp [Manager.set]

@[simp] theorem set_modelLeases (s : ℕ) (e : Engine) :
    (m.set s e).modelLeases = m.modelLeases := rfl

@[simp] theorem set_modelLeaseCapacity (s : ℕ) (e : Engine) :
    (m.set s e).modelLeaseCapacity = m.modelLeaseCapacity := rfl

variable {s i : ℕ}

theorem set_other (e : Engine) (ho : i ≠ s) : (m.set s e).engines i = m.engines i := by
  simp [Manager.set, ho]

def reserved (manager : Manager) (slot : ℕ) (name : Text) : Manager :=
  { manager with
    engines := Function.update manager.engines slot
      ⟨.loading, manager.nextGeneration, 1, 0, name⟩
    nextGeneration := wordAdd manager.nextGeneration 1 }

@[simp] theorem reserved_self (s : ℕ) (n : Text) : (reserved m s n).engines s =
      ⟨.loading, m.nextGeneration, 1, 0, n⟩ := by
  simp [reserved]

theorem reserved_other (n : Text) (ho : i ≠ s) : (reserved m s n).engines i = m.engines i := by
  simp [reserved, ho]

variable {n : Text}

theorem Naming.unclaimed (h : Naming m id) (hch : engineReserve m n = some s)
    (hv : aliasValid n = true) (hb : i < m.capacity) (ho : i ≠ s) :
    (m.engines i).modelAlias ≠ n := by
  intro hc
  have hne : n ≠ [] := by
    rintro rfl
    simp [aliasValid] at hv
  obtain ⟨hsl, -, hs | none⟩ := engineReserve_some hch
  · have hst := (named_iff.mp hs).2
    apply ho
    apply h.aliases i s hb hsl
    · rw [hc]
      exact hne
    · rw [hc, hst]
  · have hu := none i hb
    simp [named, hc, hne] at hu

/-- A load takes a slot under a generation that no engine had before. -/
theorem Naming.load (h : Naming m id) (hch : engineReserve m n = some s)
    (hv : aliasValid n = true) (hr : id.length + 1 < wordLimit) :
    Naming (reserved m s n) (id ++ [m.nextGeneration]) := by
  have next : m.nextGeneration = id.length + 1 := by rw [h.next, Nat.mod_eq_of_lt hr]
  have hfr := h.fresh hr
  have hu : ∀ i, i < m.capacity → i ≠ s →
      (m.engines i).modelAlias ≠ n := fun i => h.unclaimed hch hv
  constructor
  · rw [length_append, length_singleton, range'_concat, ← h.numbered, next]
    simp [Nat.add_comm]
  · rw [length_append, length_singleton, ← next]
    rfl
  · intro i hb hn
    by_cases hs : i = s
    · subst hs
      simp
    · rw [reserved_other n hs] at hn ⊢
      exact mem_append_left _ (h.known i hb hn)
  · intro i j hi hj
    by_cases si : i = s <;> by_cases sj : j = s
    · intro _ _
      rw [si, sj]
    · subst si
      rw [reserved_other n sj, reserved_self]
      intro _ he
      exact absurd he.symm (hu j hj sj)
    · subst sj
      rw [reserved_other n si, reserved_self]
      intro _ he
      exact absurd he (hu i hi si)
    · rw [reserved_other n si, reserved_other n sj]
      exact h.aliases i j hi hj
  · intro i j hi hj
    by_cases si : i = s <;> by_cases sj : j = s
    · intro _ _ _
      rw [si, sj]
    · subst si
      rw [reserved_other n sj, reserved_self]
      intro _ hn he
      have hm := h.known j hj hn
      rw [← he] at hm
      exact absurd hm hfr
    · subst sj
      rw [reserved_other n si, reserved_self]
      intro hn _ he
      have hm := h.known i hi hn
      rw [he] at hm
      exact absurd hm hfr
    · rw [reserved_other n si, reserved_other n sj]
      exact h.generations i j hi hj

def liveRecord (slot generation : ℕ) (lease : ModelLease) : Bool :=
  !lease.identity.isEmpty && lease.engine == slot && lease.generation == generation

def Occupied (state : EngineState) : Prop := state = .loaded ∨ state = .draining

structure SlotKept (manager : Manager) (leases : List Lease) (slot : ℕ) : Prop where
  blank : (manager.engines slot).modelAlias = [] → (manager.engines slot).state = .unloaded
  work : (manager.engines slot).activeWork =
    leases.count ⟨slot, (manager.engines slot).generation⟩ +
      if (manager.engines slot).state = .loading then 1 else 0
  held : ∀ lease ∈ leases, lease.engine = slot →
    lease.generation = (manager.engines slot).generation ∧ Occupied (manager.engines slot).state
  models : (manager.engines slot).modelLeaseCount =
    tally (liveRecord slot (manager.engines slot).generation) manager.modelLeases
      manager.modelLeaseCapacity
  records : ∀ k, k < manager.modelLeaseCapacity → (manager.modelLeases k).identity ≠ [] →
    (manager.modelLeases k).engine = slot →
    (manager.modelLeases k).generation = (manager.engines slot).generation
  quiet : ¬ Occupied (manager.engines slot).state → (manager.engines slot).modelLeaseCount = 0

theorem SlotKept.other {ls ls' : List Lease} (h : SlotKept m ls s)
    (hs : af.engines s = m.engines s) (ht : af.modelLeases = m.modelLeases)
    (lim : af.modelLeaseCapacity = m.modelLeaseCapacity)
    (c : ∀ le : Lease, le.engine = s → ls'.count le = ls.count le) :
    SlotKept af ls' s where
  blank := by
    rw [hs]
    exact h.blank
  work := by
    rw [hs, c _ rfl]
    exact h.work
  held le hm ow := by
    rw [hs]
    apply h.held le _ ow
    rw [← count_pos_iff, ← c le ow]
    exact count_pos_iff.mpr hm
  models := by
    rw [hs, ht, lim]
    exact h.models
  records := by
    rw [hs, ht, lim]
    exact h.records
  quiet := by
    rw [hs]
    exact h.quiet

variable {ls : List Lease} {k : ℕ}

theorem SlotKept.record {le : ModelLease} (h : SlotKept m ls s)
    (hs : af.engines s = m.engines s) (hb : k < m.modelLeaseCapacity)
    (ht : af.modelLeases = Function.update m.modelLeases k le)
    (lim : af.modelLeaseCapacity = m.modelLeaseCapacity)
    (b : (m.modelLeases k).identity = [] ∨ (m.modelLeases k).engine ≠ s)
    (hl : le.identity = [] ∨ le.engine ≠ s) : SlotKept af ls s where
  blank := by
    rw [hs]
    exact h.blank
  work := by
    rw [hs]
    exact h.work
  held := by
    rw [hs]
    exact h.held
  models := by
    have hmv := tally_update (liveRecord s (m.engines s).generation) m.modelLeases hb le
    have old : liveRecord s (m.engines s).generation (m.modelLeases k) =
        false := by
      obtain he | hel := b
      · simp [liveRecord, he]
      · simp [liveRecord, hel]
    have new : liveRecord s (m.engines s).generation le = false := by
      obtain he | hel := hl
      · simp [liveRecord, he]
      · simp [liveRecord, hel]
    rw [old, new] at hmv
    have kept := h.models
    rw [hs, ht, lim]
    omega
  records j hj := by
    rw [hs, ht]
    rw [lim] at hj
    by_cases hex : j = k
    · subst hex
      rw [update_self]
      intro hne ow
      exact absurd ow (hl.resolve_left hne)
    · rw [update_of_ne hex]
      exact h.records j hj
  quiet := by
    rw [hs]
    exact h.quiet

theorem SlotKept.unheld (h : SlotKept m ls s) (hid : ¬ Occupied (m.engines s).state) :
    (∀ le ∈ ls, le.engine ≠ s) ∧
      ∀ k, k < m.modelLeaseCapacity → (m.modelLeases k).identity ≠ [] →
        (m.modelLeases k).engine ≠ s := by
  constructor
  · intro le hm ow
    exact hid (h.held le hm ow).2
  · intro k hb hne ow
    have hl : liveRecord s (m.engines s).generation (m.modelLeases k) =
        true := by
      simp [liveRecord, hne, ow, h.records k hb hne ow]
    have hp := tally_pos hb hl
    have none := h.quiet hid
    have hct := h.models
    omega

theorem SlotKept.vacant (af : Manager) (h : SlotKept m ls s)
    (idle : ¬ Occupied (m.engines s).state) (ht : af.modelLeases = m.modelLeases)
    (lim : af.modelLeaseCapacity = m.modelLeaseCapacity)
    (hbl : (af.engines s).modelAlias = [] → (af.engines s).state = .unloaded)
    (work : (af.engines s).activeWork = if (af.engines s).state = .loading then 1 else 0)
    (md : (af.engines s).modelLeaseCount = 0) : SlotKept af ls s := by
  have hu := h.unheld idle
  constructor
  · exact hbl
  · have none : ls.count ⟨s, (af.engines s).generation⟩ = 0 :=
      count_eq_zero.mpr fun hm => hu.1 _ hm rfl
    rw [none, work, Nat.zero_add]
  · intro le hm ow
    exact absurd ow (hu.1 le hm)
  · rw [md, ht, lim, tally_eq_zero]
    intro k hb
    by_cases he : (m.modelLeases k).identity = []
    · simp [liveRecord, he]
    · simp [liveRecord, hu.2 k hb he]
  · rw [ht, lim]
    intro k hb hne ow
    exact absurd ow (hu.2 k hb hne)
  · intro _
    exact md

theorem SlotKept.acquire (h : SlotKept m ls s) (hl : (m.engines s).state = .loaded) :
    SlotKept (setWork m s ((m.engines s).activeWork + 1))
      (⟨s, (m.engines s).generation⟩ :: ls) s where
  blank := by
    rw [setWork, set_self]
    exact h.blank
  work := by
    have hk := h.work
    simp only [setWork, set_self, hl, count_cons_self, reduceCtorEq, if_false] at hk ⊢
    omega
  held le hm ow := by
    rw [setWork, set_self]
    obtain rfl | hm := mem_cons.mp hm
    · exact ⟨rfl, .inl hl⟩
    · exact h.held le hm ow
  models := by
    rw [setWork, set_self]
    exact h.models
  records := by
    rw [setWork, set_self]
    exact h.records
  quiet := by
    rw [setWork, set_self]
    exact h.quiet

variable {le : Lease}

/-- An outstanding lease is counted, so its release finds work to subtract. -/
theorem SlotKept.counted (h : SlotKept m ls le.engine) (hm : le ∈ ls) :
    (m.engines le.engine).generation = le.generation ∧
      (m.engines le.engine).activeWork = ls.count le ∧ 0 < ls.count le := by
  obtain ⟨hc, hoc⟩ := h.held le hm rfl
  have w := h.work
  have hs : (⟨le.engine, (m.engines le.engine).generation⟩ : Lease) = le := by rw [← hc]
  have hse : (m.engines le.engine).state ≠ .loading := by
    obtain hl | d := hoc
    · simp [hl]
    · simp [d]
  rw [hs, if_neg hse, Nat.add_zero] at w
  exact ⟨hc.symm, w, count_pos_iff.mpr hm⟩

theorem SlotKept.released (h : SlotKept m ls le.engine) (hm : le ∈ ls) : release m le =
      setWork m le.engine ((m.engines le.engine).activeWork - 1) := by
  obtain ⟨hc, work, hp⟩ := h.counted hm
  unfold release
  rw [if_pos ⟨hc, by omega⟩]
  rfl

theorem SlotKept.release (h : SlotKept m ls le.engine) (hm : le ∈ ls) :
    SlotKept (setWork m le.engine ((m.engines le.engine).activeWork - 1))
      (ls.erase le) le.engine := by
  obtain ⟨hc, work, hp⟩ := h.counted hm
  have hct := h.work
  have erased := count_erase_self (a := le) (l := ls)
  unfold setWork
  constructor
  · rw [set_self]
    exact h.blank
  · simp only [set_self, hc] at hct ⊢
    change _ = (ls.erase le).count le + _
    change _ = ls.count le + _ at hct
    omega
  · intro hh hst ow
    rw [set_self]
    exact h.held hh (mem_of_mem_erase hst) ow
  · rw [set_self]
    exact h.models
  · rw [set_self]
    exact h.records
  · rw [set_self]
    exact h.quiet

theorem SlotKept.restate {st : EngineState} (h : SlotKept m ls s)
    (hn : (m.engines s).modelAlias ≠ []) (b : (m.engines s).state ≠ .loading) (hl : st ≠ .loading)
    (hh : Occupied st ∨ ((∀ le ∈ ls, le.engine ≠ s) ∧ (m.engines s).modelLeaseCount = 0)) :
    SlotKept (setState m s st) ls s := by
  constructor
  · intro he
    simp only [setState, set_self] at he
    exact absurd he hn
  · have hk := h.work
    simpa [setState, b, hl] using hk
  · intro le hm ow
    simp only [setState, set_self]
    obtain hoc | ⟨none, -⟩ := hh
    · exact ⟨(h.held le hm ow).1, hoc⟩
    · exact absurd ow (none le hm)
  · simpa [setState] using h.models
  · simpa [setState] using h.records
  · simp only [setState, set_self]
    intro idle
    obtain hoc | ⟨-, none⟩ := hh
    · exact absurd hoc idle
    · exact none

@[simp] theorem setModels_self (s c r : ℕ) (le : ModelLease) :
    (setModels m s c r le).engines s = { m.engines s with modelLeaseCount := c } :=
  set_self s _

theorem SlotKept.models_moved {c : ℕ} {le : ModelLease} (h : SlotKept m ls s)
    (hb : k < m.modelLeaseCapacity)
    (hc : le.identity ≠ [] → le.generation = (m.engines s).generation)
    (hmv : c + (liveRecord s (m.engines s).generation (m.modelLeases k)).toNat =
      (m.engines s).modelLeaseCount + (liveRecord s (m.engines s).generation le).toNat)
    (hq : ¬ Occupied (m.engines s).state → c = 0) :
    SlotKept (setModels m s c k le) ls s where
  blank := by
    rw [setModels_self]
    exact h.blank
  work := by
    rw [setModels_self]
    exact h.work
  held := by
    rw [setModels_self]
    exact h.held
  models := by
    have hu := tally_update (liveRecord s (m.engines s).generation) m.modelLeases hb le
    have kept := h.models
    rw [setModels_self]
    change c = tally (liveRecord s (m.engines s).generation)
      (update m.modelLeases k le) m.modelLeaseCapacity
    omega
  records j hj := by
    rw [setModels_self]
    change (update m.modelLeases k le j).identity ≠ [] → (update m.modelLeases k le j).engine = s →
      (update m.modelLeases k le j).generation = _
    by_cases hs : j = k
    · subst hs
      rw [update_self]
      intro hne _
      exact hc hne
    · rw [update_of_ne hs]
      exact h.records j hj
  quiet := by
    rw [setModels_self]
    exact hq

theorem SlotKept.modelAcquire {identity : Identity} (h : SlotKept m ls s)
    (hl : (m.engines s).state = .loaded) (hb : k < m.modelLeaseCapacity)
    (hf : (m.modelLeases k).identity = []) (hne : identity ≠ []) : SlotKept
      (setModels m s ((m.engines s).modelLeaseCount + 1) k
        ⟨identity, s, (m.engines s).generation⟩) ls s := by
  apply h.models_moved hb
  · intro _
    rfl
  · have hn := isEmpty_eq_false_iff.mpr hne
    simp [liveRecord, hf, hn]
  · intro idle
    exact absurd (.inl hl) idle

theorem SlotKept.modelRelease (h : SlotKept m ls s) (hb : k < m.modelLeaseCapacity)
    (hl : (m.modelLeases k).identity ≠ []) (ow : (m.modelLeases k).engine = s)
    (hc : (m.engines s).generation = (m.modelLeases k).generation)
    (hct : (m.engines s).modelLeaseCount ≠ 0) :
    SlotKept (setModels m s ((m.engines s).modelLeaseCount - 1) k ⟨[], 0, 0⟩)
      ls s := by
  apply h.models_moved hb
  · intro hne
    exact absurd rfl hne
  · have hn := isEmpty_eq_false_iff.mpr hl
    have hcn : liveRecord s (m.engines s).generation (m.modelLeases k) =
        true := by
      simp [liveRecord, hn, ow, hc]
    have hcl : liveRecord s (m.engines s).generation ⟨[], 0, 0⟩ = false := rfl
    rw [hcn, hcl, Bool.toNat_true, Bool.toNat_false]
    omega
  · intro idle
    have none := h.quiet idle
    omega

end Yvex.EngineManager
