import Yvex.CatalogAccounting

/-!
# What each catalog operation changes

Installing and removing an entry touch one slot and the dependent count of the
resource the entry depends on. Acquiring, publishing, dropping and the first half
of a release revise one entry that is not being released. Registering installs an
entry; the second half of a release removes one or revises it to failed.
-/

set_option autoImplicit false

namespace Yvex.ResourceCatalog

open CheckedArithmetic SlotTable Option AttentionData WordCounter Function

def Blind (weight : Option Entry → ℕ) : Prop :=
  ∀ e n, weight (some { e with dependentCount := n }) = weight (some e)

def bump (handle : Handle) (e : Entry) : Entry :=
  { e with dependentCount := e.dependentCount + (handle == e.handle).toNat }

def lower (handle : Handle) (e : Entry) : Entry :=
  { e with dependentCount := e.dependentCount - (handle == e.handle).toNat }

variable {w : Option Entry → ℕ} {f : Entry → Entry}

theorem Blind.map (hb : Blind w) (ht : ∀ e, ∃ n, f e = { e with dependentCount := n })
    (s : Option Entry) : w (s.map f) = w s := by
  cases s with
  | none => rfl
  | some e =>
    obtain ⟨n, hs⟩ := ht e
    rw [map_some, hs]
    exact hb e n

theorem bump_touches (handle : Handle) (e : Entry) :
    ∃ n, bump handle e = { e with dependentCount := n } := ⟨_, rfl⟩

theorem lower_touches (handle : Handle) (e : Entry) :
    ∃ n, lower handle e = { e with dependentCount := n } := ⟨_, rfl⟩

/-- Replacing one slot while the others only change their dependent counts. -/
theorem Blind.total_replaced (hbl : Blind w) {s ss' : ℕ → Option Entry} {count i : ℕ}
    (hb : i < count) {x : Option Entry} (ht : ∀ e, ∃ n, f e = { e with dependentCount := n })
    (hr : ∀ k, ss' k = if k = i then x else (s k).map f) :
    total w ss' count + w (s i) = total w s count + w x := by
  have hs : total w ss' count = total w (Function.update s i x) count := by
    apply total_congr
    intro k _
    rw [hr k]
    by_cases hh : k = i
    · rw [if_pos hh, hh, Function.update_self]
    · rw [if_neg hh, Function.update_of_ne hh, hbl.map ht]
  rw [hs]
  exact total_update w s hb x

theorem blind_bytesOf (fl : ByteField) : Blind (bytesOf fl) := fun _ _ => rfl

theorem blind_isSome : Blind fun slot => slot.isSome.toNat := fun _ _ => rfl

theorem blind_inState (s : ResourceState) : Blind fun slot => (inState s slot).toNat :=
  fun _ _ => rfl

theorem blind_ofKind (ki : ResourceKind) : Blind fun slot => (ofKind ki slot).toNat :=
  fun _ _ => rfl

theorem blind_dependsOn (handle : Handle) : Blind fun slot => (dependsOn handle slot).toNat :=
  fun _ _ => rfl

structure Installation (c c' : Catalog) (i : ℕ) (new : Entry) : Prop where
  bound : i < c.capacity
  free : c.slots i = none
  slots : ∀ k, c'.slots k = if k = i then some new else (c.slots k).map (bump new.dependency)
  engineGeneration : c'.engineGeneration = c.engineGeneration
  capacity : c'.capacity = c.capacity
  placed : new.handle.engineGeneration = c.engineGeneration ∧ new.handle.slot = i + 1 ∧
    new.handle.generation ≠ 0
  anchored : new.dependency.present = true →
    ∃ j d, c.slots j = some d ∧ d.handle = new.dependency ∧ d.state = .ready
  fresh : new.consumerCount = 0 ∧ new.dependentCount = 0
  state : new.state = .ready ∨ new.state = .declared
  bytes : ∀ field, c'.bytes field = c.bytes field + new.bytes field ∧ c'.bytes field < wordLimit
  resourceCount : c'.resourceCount = c.resourceCount + 1
  readyCount : c'.readyCount = c.readyCount + (new.state == .ready).toNat
  failedCount : c'.failedCount = c.failedCount
  countByKind : ∀ kind, c'.countByKind kind = c.countByKind kind + (new.kind == kind).toNat

variable {k : ℕ} {a : Entry}

section Installing

variable {c c' : Catalog} {i : ℕ} {new : Entry}

section Install

variable (cg : Installation c c' i new)
include cg

theorem Installation.total (hb : Blind w) (none : w none = 0) :
    total w c'.slots c'.capacity = total w c.slots c.capacity + w (some new) := by
  have hmv := hb.total_replaced cg.bound (bump_touches new.dependency) cg.slots
  rw [cg.free, none] at hmv
  rw [cg.capacity]
  exact hmv

theorem Installation.live {x : Entry} (hl : c'.slots k = some x) :
    (k = i ∧ x = new) ∨ ∃ a, c.slots k = some a ∧ x = bump new.dependency a := by
  rw [cg.slots k] at hl
  by_cases hh : k = i
  · rw [if_pos hh] at hl
    exact .inl ⟨hh, (some.inj hl).symm⟩
  · rw [if_neg hh, map_eq_some_iff] at hl
    obtain ⟨a, b, rfl⟩ := hl
    exact .inr ⟨a, b, rfl⟩

theorem Installation.ne (b : c.slots k = some a) : k ≠ i := by
  rintro rfl
  rw [cg.free] at b
  simp at b

theorem Installation.kept (b : c.slots k = some a) : c'.slots k = some (bump new.dependency a) := by
  rw [cg.slots k, if_neg (cg.ne b), b, map_some]

theorem Installation.unnamed (hso : Sound c) {j : ℕ} (hl : c.slots j = some a) :
    a.handle ≠ new.handle := by
  intro hs
  have hsl := (hso.placed j a hl).2.2.1
  rw [hs, cg.placed.2.1] at hsl
  exact cg.ne hl (by omega)

theorem Installation.no_dependents (hso : Sound c) :
    tally (dependsOn new.handle) c'.slots c'.capacity = 0 := by
  have hp : new.handle.present = true := by simp [Handle.present, cg.placed.2.2]
  apply tally_eq_zero
  intro k _
  cases live : c'.slots k with
  | none => rfl
  | some x =>
    have ha : x.dependency ≠ new.handle := by
      intro hs
      have hi : x.dependency.present = true := by rw [hs]; exact hp
      rcases cg.live live with ⟨-, rfl⟩ | ⟨a, b, rfl⟩
      · obtain ⟨j, d, hh, hn, -⟩ := cg.anchored hi
        exact cg.unnamed hso hh (hn.trans hs)
      · obtain ⟨j, d, hh, hn⟩ := hso.anchored k a b hi
        exact cg.unnamed hso hh (hn.trans hs)
    simpa [dependsOn] using ha

theorem Installation.accounted (hs : Sound c) : Accounted c' where
  bytes := by
    intro fl
    rw [(cg.bytes fl).1, cg.total (blind_bytesOf fl) rfl, hs.accounted.bytes]
    rfl
  resources := by
    rw [cg.resourceCount, tally, cg.total blind_isSome rfl, hs.accounted.resources]
    rfl
  ready := by
    rw [cg.readyCount, tally, cg.total (blind_inState .ready) rfl, hs.accounted.ready]
    rfl
  failed := by
    have ho : (new.state == .failed) = false := by rcases cg.state with s | s <;> rw [s] <;> rfl
    have hw : (inState .failed (some new)).toNat = 0 := by
      change (new.state == .failed).toNat = 0
      rw [ho]
      rfl
    rw [cg.failedCount, tally, cg.total (blind_inState .failed) rfl, hw, hs.accounted.failed]
    rfl
  kinds := by
    intro ki
    rw [cg.countByKind, tally, cg.total (blind_ofKind ki) rfl, hs.accounted.kinds]
    rfl
  dependents := by
    intro k x hl
    rcases cg.live hl with ⟨-, rfl⟩ | ⟨a, b, rfl⟩
    · rw [cg.no_dependents hs]
      exact cg.fresh.2
    have hct := hs.accounted.dependents k a b
    rw [tally, cg.total (blind_dependsOn _) rfl]
    change a.dependentCount + _ = tally (dependsOn a.handle) c.slots c.capacity + _
    rw [hct]
    rfl

/-- An installed entry keeps the catalog sound. -/
theorem Installation.sound (hso : Sound c) : Sound c' where
  small := by rw [cg.capacity]; exact hso.small
  placed := by
    intro k x hl
    rw [cg.capacity, cg.engineGeneration]
    rcases cg.live hl with ⟨rfl, rfl⟩ | ⟨a, b, rfl⟩
    · exact ⟨cg.bound, cg.placed⟩
    · exact hso.placed k a b
  anchored := by
    intro k x hl hp
    have fo : ∃ j d, c.slots j = some d ∧ d.handle = x.dependency := by
      rcases cg.live hl with ⟨-, rfl⟩ | ⟨a, b, rfl⟩
      · obtain ⟨j, d, hh, hn, -⟩ := cg.anchored hp
        exact ⟨j, d, hh, hn⟩
      · exact hso.anchored k a b hp
    obtain ⟨j, d, hh, hn⟩ := fo
    exact ⟨j, bump new.dependency d, cg.kept hh, hn⟩
  bounded := fun fl => (cg.bytes fl).2
  consumers := by
    intro k x hl
    rcases cg.live hl with ⟨-, rfl⟩ | ⟨a, b, rfl⟩
    · rw [cg.fresh.1]
      decide
    · exact hso.consumers k a b
  idle := by
    intro k x hl hrl
    rcases cg.live hl with ⟨-, rfl⟩ | ⟨a, b, rfl⟩
    · exact cg.fresh
    -- The dependency of the new entry is ready, so a releasing entry is not the one bumped.
    have hid := hso.idle k a b hrl
    refine ⟨hid.1, ?_⟩
    change a.dependentCount + (new.dependency == a.handle).toNat = 0
    have ha : (new.dependency == a.handle) = false := by
      rw [beq_eq_false_iff_ne]
      intro hs
      obtain ⟨j, d, hh, hn, hr⟩ := cg.anchored (by rw [hs]; exact hso.present b)
      obtain rfl := hso.entry_unique hh b (hn.trans hs)
      have s : d.state = .releasing := hrl
      rw [s] at hr
      simp at hr
    rw [hid.2, ha]
    rfl
  accounted := cg.accounted hso

end Install

end Installing

theorem emptied_other {i k : ℕ} {slot : Option Entry} {f : Entry → Entry} {x : Entry}
    (hl : (if k = i then none else slot.map f) = some x) :
    k ≠ i ∧ ∃ a, slot = some a ∧ x = f a := by
  split_ifs at hl with hh
  obtain ⟨a, b, rfl⟩ := map_eq_some_iff.mp hl
  exact ⟨hh, a, b, rfl⟩

structure Removal (c c' : Catalog) (i : ℕ) (e : Entry) : Prop where
  live : c.slots i = some e
  unreferenced : e.consumerCount = 0 ∧ e.dependentCount = 0
  slots : ∀ k, c'.slots k = if k = i then none else (c.slots k).map (lower e.dependency)
  engineGeneration : c'.engineGeneration = c.engineGeneration
  capacity : c'.capacity = c.capacity
  nextGeneration : c'.nextGeneration = c.nextGeneration
  bytes : ∀ field, c'.bytes field = c.bytes field - e.bytes field
  resourceCount : c'.resourceCount = c.resourceCount - 1
  readyCount : c'.readyCount = c.readyCount - (e.state == .ready).toNat
  failedCount : c'.failedCount = c.failedCount - (e.state == .failed).toNat
  countByKind : ∀ kind, c'.countByKind kind = c.countByKind kind - (e.kind == kind).toNat

section Removing

variable {c c' : Catalog} {i : ℕ} {e : Entry}

section Remove

variable (cg : Removal c c' i e)
include cg

theorem Removal.total (hso : Sound c) (hb : Blind w) (none : w none = 0) :
    total w c'.slots c'.capacity + w (some e) = total w c.slots c.capacity := by
  have hmv := hb.total_replaced (hso.placed i e cg.live).1 (lower_touches e.dependency) cg.slots
  rw [cg.live, none] at hmv
  rw [cg.capacity]
  exact hmv

theorem Removal.other {x : Entry} (hl : c'.slots k = some x) :
    k ≠ i ∧ ∃ a, c.slots k = some a ∧ x = lower e.dependency a :=
  emptied_other ((cg.slots k).symm.trans hl)

theorem Removal.kept (ho : k ≠ i) (b : c.slots k = some a) :
    c'.slots k = some (lower e.dependency a) := by
  rw [cg.slots k, if_neg ho, b, map_some]

theorem Removal.no_dependent (hso : Sound c)
    (b : c.slots k = some a) : a.dependency ≠ e.handle := by
  intro hs
  have hct := hso.accounted.dependents i e cg.live
  have hp : 0 < tally (dependsOn e.handle) c.slots c.capacity :=
    tally_pos (hso.placed k a b).1 (by simp [b, dependsOn, hs])
  have none := cg.unreferenced.2
  omega

theorem Removal.counted (hs : Sound c) {p : Option Entry → Bool} {n : ℕ}
    (hb : Blind fun slot => (p slot).toNat) (none : (p none).toNat = 0)
    (h : n = tally p c.slots c.capacity) :
    n - (p (some e)).toNat = tally p c'.slots c'.capacity := by
  have hm : tally p _ _ + _ = tally p _ _ := cg.total hs hb none
  omega

theorem Removal.accounted (hs : Sound c) : Accounted c' where
  bytes := by
    intro fl
    have hm := cg.total hs (blind_bytesOf fl) rfl
    change _ + e.bytes fl = _ at hm
    rw [cg.bytes, hs.accounted.bytes]
    omega
  resources := by
    rw [cg.resourceCount]
    exact cg.counted hs blind_isSome rfl hs.accounted.resources
  ready := by
    rw [cg.readyCount]
    exact cg.counted hs (blind_inState .ready) rfl hs.accounted.ready
  failed := by
    rw [cg.failedCount]
    exact cg.counted hs (blind_inState .failed) rfl hs.accounted.failed
  kinds := by
    intro ki
    rw [cg.countByKind]
    exact cg.counted hs (blind_ofKind ki) rfl (hs.accounted.kinds ki)
  dependents := by
    intro k x hl
    obtain ⟨-, a, b, rfl⟩ := cg.other hl
    exact cg.counted hs (blind_dependsOn a.handle) rfl (hs.accounted.dependents k a b)

theorem Removal.sound (hs : Sound c) : Sound c' where
  small := by rw [cg.capacity]; exact hs.small
  placed := by
    intro k x hl
    obtain ⟨-, a, b, rfl⟩ := cg.other hl
    rw [cg.capacity, cg.engineGeneration]
    exact hs.placed k a b
  anchored := by
    intro k x hl hp
    obtain ⟨-, a, b, rfl⟩ := cg.other hl
    obtain ⟨j, d, hh, hn⟩ := hs.anchored k a b hp
    have ho := slot_ne hh cg.live (hn.trans_ne (cg.no_dependent hs b))
    exact ⟨j, lower e.dependency d, cg.kept ho hh, hn⟩
  bounded := by
    intro fl
    rw [cg.bytes]
    have hb := hs.bounded fl
    omega
  consumers := by
    intro k x hl
    obtain ⟨-, a, b, rfl⟩ := cg.other hl
    exact hs.consumers k a b
  idle := by
    intro k x hl hrl
    obtain ⟨-, a, b, rfl⟩ := cg.other hl
    have hid := hs.idle k a b hrl
    refine ⟨hid.1, ?_⟩
    change a.dependentCount - _ = 0
    rw [hid.2, Nat.zero_sub]
  accounted := cg.accounted hs

end Remove

end Removing

section Operations

variable {c c' : Catalog}

variable {i : ℕ} {e : Entry}

section Facts

variable (hso : Sound c)
include hso

theorem Sound.ready_pos (hl : c.slots i = some e) (s : e.state = .ready) : 1 ≤ c.readyCount := by
  rw [hso.accounted.ready]
  exact tally_pos (hso.placed i e hl).1 (by simp [hl, inState, s])

theorem Sound.failed_pos (hl : c.slots i = some e) (s : e.state = .failed) : 1 ≤ c.failedCount := by
  rw [hso.accounted.failed]
  exact tally_pos (hso.placed i e hl).1 (by simp [hl, inState, s])

theorem Sound.resource_pos (hl : c.slots i = some e) : 1 ≤ c.resourceCount := by
  rw [hso.accounted.resources]
  exact tally_pos (hso.placed i e hl).1 (by simp [hl])

theorem Sound.kind_pos (hl : c.slots i = some e) : 1 ≤ c.countByKind e.kind := by
  rw [hso.accounted.kinds]
  exact tally_pos (hso.placed i e hl).1 (by simp [hl, ofKind])

theorem Sound.bytes_le (hl : c.slots i = some e) (f : ByteField) : e.bytes f ≤ c.bytes f := by
  have le := weight_le_total (bytesOf f) c.slots (hso.placed i e hl).1
  rw [hl] at le
  rw [hso.accounted.bytes]
  exact le

theorem Sound.dependent_pos {j : ℕ} (hl : c.slots i = some e)
    (hh : c.slots j = some a) (hn : e.dependency = a.handle) : 1 ≤ a.dependentCount := by
  rw [hso.accounted.dependents j a hh]
  exact tally_pos (hso.placed i e hl).1 (by simp [hl, dependsOn, hn])

theorem Sound.counters_small : c.resourceCount + 1 < wordLimit ∧ c.readyCount + 1 < wordLimit ∧
      c.failedCount + 1 < wordLimit ∧ ∀ ki, c.countByKind ki + 1 < wordLimit := by
  rw [hso.accounted.resources, hso.accounted.ready, hso.accounted.failed]
  refine ⟨tally_small hso.small _, tally_small hso.small _, tally_small hso.small _, ?_⟩
  intro ki
  rw [hso.accounted.kinds]
  exact tally_small hso.small _

theorem Sound.dependents_small (hl : c.slots i = some e) : e.dependentCount + 1 < wordLimit := by
  rw [hso.accounted.dependents i e hl]
  exact tally_small hso.small _

end Facts

theorem uncount_state {s : ResourceState} {n : ℕ} (hsm : n < wordLimit) (hp : e.state = s → 1 ≤ n) :
    (if e.state = s then wordSub n 1 else n) = n - (e.state == s).toNat ∧
      (e.state == s).toNat ≤ n := by
  by_cases hs : e.state = s
  · rw [if_pos hs, wordSub_eq (hp hs) hsm, beq_iff_eq.mpr hs]
    exact ⟨rfl, hp hs⟩
  · rw [if_neg hs, beq_false_of_ne hs]
    exact ⟨rfl, Nat.zero_le _⟩

variable {handle : Handle}

theorem resourceAcquire_revision {v : ℕ} (hso : Sound c)
    (d : resourceAcquire c handle = .ok (c', v)) :
    ∃ i e e', Revision c c' i e e' ∧ e.state ≠ .releasing := by
  simp only [resourceAcquire] at d
  split at d
  · simp at d
  rename_i i e hf
  split_ifs at d with bad
  simp only [Bool.or_eq_true, not_or, bne_iff_ne, ne_eq, not_not, beq_iff_eq] at bad
  obtain ⟨⟨⟨⟨-, s⟩, cn⟩, -⟩, -⟩ := bad
  obtain ⟨hl, -⟩ := resourceSlot_live hso hf
  obtain ⟨rfl, -⟩ := d
  have hb := hso.consumers i e hl
  refine ⟨i, e, _, ⟨hl, rfl, rfl, rfl, rfl, rfl, rfl, rfl, rfl, rfl, rfl, rfl, rfl, rfl, rfl,
    ?_, ?_⟩, by simp [s]⟩
  · change e.consumerCount + 1 < wordLimit
    omega
  · intro hrl
    rw [s] at hrl
    simp at hrl

theorem resourcePublishReady_revision (hso : Sound c) (d : resourcePublishReady c handle = .ok c') :
    ∃ i e e', Revision c c' i e e' ∧ e.state ≠ .releasing := by
  simp only [resourcePublishReady] at d
  split at d
  · simp at d
  rename_i i e hf
  split_ifs at d with bad
  simp only [Bool.or_eq_true, not_or, bne_iff_ne, ne_eq, not_not] at bad
  obtain ⟨-, s⟩ := bad
  obtain ⟨hl, -⟩ := resourceSlot_live hso hf
  obtain rfl := Except.ok.inj d
  refine ⟨i, e, _, ⟨hl, rfl, rfl, rfl, rfl, rfl, rfl, rfl, rfl, rfl, rfl, rfl, rfl, ?_, ?_,
    hso.consumers i e hl, by simp⟩, by simp [s]⟩
  · rw [wordAdd_eq hso.counters_small.2.1, s]
    rfl
  · rw [s]
    rfl

theorem resourceDrop_revision (hso : Sound c) (d : resourceDrop c handle = .ok c') :
    ∃ i e e', Revision c c' i e e' ∧ e.state ≠ .releasing := by
  simp only [resourceDrop] at d
  split at d
  · simp at d
  rename_i i e hf
  split_ifs at d with none
  obtain ⟨hl, -⟩ := resourceSlot_live hso hf
  obtain rfl := Except.ok.inj d
  have hb := hso.consumers i e hl
  have s : e.state ≠ .releasing := fun hrl => none (hso.idle i e hl hrl).1
  refine ⟨i, e, _, ⟨hl, rfl, rfl, rfl, rfl, rfl, rfl, rfl, rfl, rfl, rfl, rfl, rfl, rfl, rfl,
    ?_, fun hrl => absurd hrl s⟩, s⟩
  change wordSub e.consumerCount 1 < wordLimit
  rw [wordSub_eq (by omega) hb]
  omega

theorem releaseBegin_revision {evict due : Bool} (hs : Sound c)
    (dn : releaseBegin c handle evict = .ok (c', due)) :
    ∃ i e e', Revision c c' i e e' ∧ e.state ≠ .releasing ∧ e'.state = .releasing ∧
      e.handle = handle := by
  simp only [releaseBegin] at dn
  split at dn
  · simp at dn
  split at dn
  · simp at dn
  rename_i i e hf
  split at dn
  · simp at dn
  rename_i bad
  push Not at bad
  obtain ⟨s, cn, d, -⟩ := bad
  obtain ⟨hl, hn⟩ := resourceSlot_live hs hf
  obtain ⟨rfl, -⟩ := dn
  obtain ⟨-, hr, hfa, -⟩ := hs.counters_small
  refine ⟨i, e, _, ⟨hl, rfl, rfl, rfl, rfl, rfl, rfl, rfl, rfl, rfl, rfl, rfl, rfl, ?_, ?_,
    hs.consumers i e hl, fun _ => ⟨cn, d⟩⟩, s, rfl, hn⟩
  · change (if e.state = .ready then wordSub c.readyCount 1 else c.readyCount) + _ = _ + 0
    obtain ⟨hu, le⟩ := uncount_state (Nat.lt_of_succ_lt hr) (hs.ready_pos hl)
    omega
  · change (if e.state = .failed then wordSub c.failedCount 1 else c.failedCount) + _ = _ + 0
    obtain ⟨hu, le⟩ := uncount_state (Nat.lt_of_succ_lt hfa) (hs.failed_pos hl)
    omega

theorem releaseEnd_failed (evict : Bool) (r : Refusal) (hso : Sound c)
    (hl : c.slots i = some e) (hn : e.handle = handle) (s : e.state = .releasing) :
    ∃ e', Revision c (releaseEnd c handle evict (some r)).1 i e e' := by
  have hf := resourceSlot_of_live hso hl
  rw [hn] at hf
  simp only [releaseEnd, hf]
  refine ⟨_, hl, rfl, rfl, rfl, rfl, rfl, rfl, rfl, rfl, rfl, rfl, rfl, rfl, ?_, ?_,
    hso.consumers i e hl, by simp⟩
  · rw [s]
    rfl
  · rw [wordAdd_eq hso.counters_small.2.2.1, s]
    rfl

/-- The entries a handle does not name keep their dependents. -/
theorem map_unnamed (ht : f = bump handle ∨ f = lower handle)
    (hn : ∀ a, c.slots k = some a → a.handle ≠ handle) : (c.slots k).map f = c.slots k := by
  cases hk : c.slots k with
  | none => rfl
  | some a =>
    have ho : (handle == a.handle) = false := beq_false_of_ne (hn a hk).symm
    rcases ht with rfl | rfl <;> simp [bump, lower, ho]

theorem resourceDependencyDrop_slots (hso : Sound c) (hl : c.slots i = some e) (k : ℕ) :
    (resourceDependencyDrop c e).slots k = (c.slots k).map (lower e.dependency) := by
  unfold resourceDependencyDrop
  by_cases hpr : e.dependency.present = true
  · obtain ⟨j, d, hh, hn⟩ := hso.anchored i e hl hpr
    have hp := hso.dependent_pos hl hh hn.symm
    have hf := resourceSlot_of_live hso hh
    rw [hn] at hf
    simp only [hpr, Bool.not_true, Bool.false_eq_true, if_false, hf]
    rw [if_neg (by omega)]
    change update c.slots j _ k = _
    by_cases hhe : k = j
    · subst hhe
      rw [update_self, hh]
      simp [lower, hn]
    · rw [update_of_ne hhe, map_unnamed (.inr rfl)]
      intro a hk hs
      exact hhe (hso.slot_unique hk hh (hs.trans hn.symm))
  · rw [if_pos (by simpa using hpr), map_unnamed (.inr rfl)]
    intro a hk hs
    exact hpr (hs ▸ hso.present hk)

theorem resourceDependencyDrop_frame (e : Entry) :
    ∃ s, resourceDependencyDrop c e = { c with slots := s } := by
  unfold resourceDependencyDrop
  split_ifs
  · exact ⟨c.slots, rfl⟩
  split
  · split_ifs
    · exact ⟨c.slots, rfl⟩
    · exact ⟨_, rfl⟩
  · exact ⟨c.slots, rfl⟩

theorem resourceRemove_removal (hso : Sound c) (hl : c.slots i = some e)
    (hu : e.consumerCount = 0 ∧ e.dependentCount = 0) (evict : Bool) :
    Removal c (resourceRemove c i e evict) i e := by
  obtain ⟨s, fr⟩ := resourceDependencyDrop_frame (c := c) e
  have hlo := resourceDependencyDrop_slots hso hl
  obtain ⟨hre, hr, hf, hk⟩ := hso.counters_small
  simp only [fr] at hlo
  simp only [resourceRemove, fr]
  refine ⟨hl, hu, ?_, rfl, rfl, rfl, ?_, ?_, ?_, ?_, ?_⟩
  · intro k
    change update s i none k = _
    rw [update_apply, hlo]
  · intro f
    exact wordSub_eq (hso.bytes_le hl f) (hso.bounded f)
  · exact wordSub_eq (hso.resource_pos hl) (by omega)
  · exact (uncount_state (Nat.lt_of_succ_lt hr) (hso.ready_pos hl)).1
  · exact (uncount_state (Nat.lt_of_succ_lt hf) (hso.failed_pos hl)).1
  · intro ki
    have hsm := hk e.kind
    change update c.countByKind e.kind _ ki = _
    by_cases hs : ki = e.kind
    · subst hs
      rw [update_self, wordSub_eq (hso.kind_pos hl) (by omega)]
      simp
    · rw [update_of_ne hs, beq_false_of_ne (Ne.symm hs)]
      rfl

theorem resourceBytesAdd_some {tgt v t : ResourceBytes}
    (h : resourceBytesAdd tgt v = some t) (f : ByteField) :
    t f = tgt f + v f ∧ t f < wordLimit := by
  unfold resourceBytesAdd at h
  split_ifs at h with fits
  obtain rfl := Option.some.inj h
  have fit := List.all_eq_true.mp fits f (ByteField.mem_all f)
  obtain ⟨sum, ad⟩ := Option.isSome_iff_exists.mp fit
  exact ⟨rfl, ((u64Add_eq_some _ _ _).mp ad).1⟩

theorem resolveDependency_ok {found : Option (ℕ × Entry)} (hso : Sound c)
    (h : resolveDependency c handle = .ok found) :
    (found = none ∧ handle.present = false) ∨
      ∃ j d, found = some (j, d) ∧ c.slots j = some d ∧ d.handle = handle ∧ d.state = .ready := by
  unfold resolveDependency at h
  split_ifs at h with hab
  · exact .inl ⟨(Except.ok.inj h).symm, by simpa using hab⟩
  split at h
  · rename_i j d hr
    split_ifs at h with ready
    obtain ⟨hl, hn⟩ := resourceSlot_live hso hr
    exact .inr ⟨j, d, (Except.ok.inj h).symm, hl, hn, ready⟩
  · simp at h

theorem dependentAdd_slots (new : Entry) {fo : Option (ℕ × Entry)} (hso : Sound c)
    (hf : c.slots i = none) (hr : (fo = none ∧ new.dependency.present = false) ∨
      ∃ j d, fo = some (j, d) ∧ c.slots j = some d ∧ d.handle = new.dependency ∧
        d.state = .ready) (k : ℕ) :
    (dependentAdd (c.setSlot i (some new)) fo).slots k =
      if k = i then some new else (c.slots k).map (bump new.dependency) := by
  rcases hr with ⟨rfl, hab⟩ | ⟨j, d, rfl, hha, hn, -⟩
  · change update c.slots i (some new) k = _
    rw [update_apply, map_unnamed (.inl rfl)]
    intro a hk hs
    have hp := hso.present hk
    rw [hs, hab] at hp
    simp at hp
  · have ha : j ≠ i := by
      rintro rfl
      rw [hf] at hha
      simp at hha
    change update (update c.slots i (some new)) j _ k = _
    by_cases hh : k = j
    · subst hh
      rw [update_self, if_neg ha, hha]
      simp [bump, hn, wordAdd_eq (hso.dependents_small hha)]
    · rw [update_of_ne hh, update_apply, map_unnamed (.inl rfl)]
      intro a hk hs
      exact hh (hso.slot_unique hk hha (hs.trans hn.symm))

theorem dependentAdd_frame (fo : Option (ℕ × Entry)) :
    ∃ s, dependentAdd c fo = { c with slots := s } := by
  cases fo with
  | none => exact ⟨c.slots, rfl⟩
  | some => exact ⟨_, rfl⟩

/-- A successful registration installs one entry under a new handle. -/
theorem resourceRegister_installation {r : Request} (hso : Sound c)
    (dn : resourceRegister c r = .ok (c', handle)) :
    ∃ i new, Installation c c' i new ∧ new.handle = handle ∧
      handle.generation = generationAfter c.nextGeneration ∧
      c'.nextGeneration = generationAfter c.nextGeneration := by
  unfold resourceRegister at dn
  split_ifs at dn
  split at dn
  · simp at dn
  rename_i hf hrs
  split at dn
  · simp at dn
  rename_i i ff
  split at dn
  swap
  · simp at dn
  rename_i b p
  obtain ⟨hb, hi⟩ := firstWhere_some ff
  have hfr : c.slots i = none := by simpa using hi
  have dp := resolveDependency_ok hso hrs
  have fl := resourceBytesAdd_some b
  obtain ⟨hrl, hre, -, hk⟩ := hso.counters_small
  set hnm : Handle := ⟨c.engineGeneration, i + 1, generationAfter c.nextGeneration⟩ with hn
  set new := registeredEntry r hnm with hnew
  have s := dependentAdd_slots new hso hfr dp
  obtain ⟨t, fr⟩ := dependentAdd_frame (c := c.setSlot i (some new)) hf
  rw [fr] at s
  simp only [Except.ok.injEq, installEntry, ← hn, ← hnew, fr, Prod.mk.injEq] at dn
  obtain ⟨rfl, rfl⟩ := dn
  refine ⟨i, new, ⟨hb, hfr, s, rfl, rfl,
    ⟨rfl, rfl, generationAfter_ne_zero _⟩, ?_, ⟨rfl, rfl⟩, ?_, fl, ?_, ?_, rfl, ?_⟩,
    rfl, rfl, rfl⟩
  · intro hp
    rcases dp with ⟨-, hab⟩ | ⟨j, d, -, hh, hs, hr⟩
    · change r.dependency.present = true at hp
      rw [hab] at hp
      simp at hp
    · exact ⟨j, d, hh, hs, hr⟩
  · by_cases hr : r.ready = true <;> simp [new, registeredEntry, hr]
  · exact wordAdd_eq hrl
  · have fits : c.readyCount + r.ready.toNat < wordLimit := by
      have le := Bool.toNat_le r.ready
      omega
    rw [wordAdd_eq fits]
    cases hr : r.ready <;> simp [new, registeredEntry, hr]
  · intro ki
    change update c.countByKind r.kind _ ki = _ + (r.kind == ki).toNat
    by_cases hs : ki = r.kind
    · subst hs
      rw [update_self, wordAdd_eq (hk _)]
      simp
    · rw [update_of_ne hs, beq_false_of_ne (Ne.symm hs)]
      rfl

end Operations

end Yvex.ResourceCatalog
