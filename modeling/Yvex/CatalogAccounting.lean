import Yvex.ResourceCatalog
import Yvex.Runs

/-!
# Interleaved calls on the resource catalog

Every critical section is one call. A release is between its two sections while
it is listed in `releases`, a close between two of its scans while it is listed
in `closes`. Every counter of the catalog is a sum over its live slots, which
three kinds of change reach: a live entry is revised in place, a new entry is
installed in a free slot, and an entry nothing refers to is removed.
-/

set_option autoImplicit false

namespace Yvex.ResourceCatalog

open AttentionData CheckedArithmetic SlotTable

structure PendingRelease where
  handle : Handle
  evict : Bool
  due : Bool
  closer : Bool
  deriving DecidableEq, Repr

inductive CloseStage where
  | release (candidate : Handle)
  | rescan
  deriving DecidableEq, Repr

structure World where
  catalog : Catalog
  destroyed : Bool
  releases : List PendingRelease
  closes : List CloseStage
  issued : List Handle

inductive Call where
  | register (request : Request)
  | acquire (handle : Handle)
  | publishReady (handle : Handle)
  | drop (handle : Handle)
  | release (handle : Handle) (evict : Bool)
  | finishRelease (index : ℕ) (answer : Option Refusal)
  | loseRelease (index : ℕ)
  | close
  | closeRelease (index : ℕ)
  | closeRescan (index : ℕ)

def World.start (catalog : Catalog) : World := ⟨catalog, false, [], [], []⟩

def World.adopt (world : World) : Except Refusal Catalog → World
  | .ok catalog => { world with catalog := catalog }
  | .error _ => world

def World.beginRelease (world : World) (handle : Handle) (evict closer : Bool) : World :=
  match releaseBegin world.catalog handle evict with
  | .ok (catalog, due) => { world with
      catalog := catalog
      releases := ⟨handle, evict, due, closer⟩ :: world.releases }
  | .error _ => world

def World.scanned (world : World) : Except Refusal (Option Handle) → World
  | .ok (some candidate) => { world with closes := .release candidate :: world.closes }
  | .ok none => { world with destroyed := true }
  | .error _ => world

def World.endRelease (world : World) (index : ℕ) (pending : PendingRelease)
    (answer : Option Refusal) : World :=
  let ended := releaseEnd world.catalog pending.handle pending.evict
    (if pending.due then answer else none)
  { world with
    catalog := ended.1
    releases := world.releases.eraseIdx index
    closes := if pending.closer && ended.2.isNone then .rescan :: world.closes
      else world.closes }

def World.perform (world : World) : Call → World
  | .register request =>
    match resourceRegister world.catalog request with
    | .ok (catalog, handle) =>
      { world with catalog := catalog, issued := handle :: world.issued }
    | .error _ => world
  | .acquire handle => world.adopt ((resourceAcquire world.catalog handle).map Prod.fst)
  | .publishReady handle => world.adopt (resourcePublishReady world.catalog handle)
  | .drop handle => world.adopt (resourceDrop world.catalog handle)
  | .release handle evict => world.beginRelease handle evict false
  | .finishRelease index answer =>
    match world.releases[index]? with
    | some pending => world.endRelease index pending answer
    | none => world
  | .loseRelease index => { world with releases := world.releases.eraseIdx index }
  | .close =>
    { world with catalog := (closeBegin world.catalog).1 }.scanned (closeBegin world.catalog).2
  | .closeRelease index =>
    match world.closes[index]? with
    | some (.release candidate) =>
      { world with closes := world.closes.eraseIdx index }.beginRelease candidate false true
    | _ => world
  | .closeRescan index =>
    match world.closes[index]? with
    | some .rescan =>
      { world with closes := world.closes.eraseIdx index }.scanned
        (closeRescan world.catalog)
    | _ => world

def World.step (world : World) (call : Call) : World :=
  if world.destroyed then world else world.perform call

theorem step_alive {w : World} (ha : w.destroyed = false) (ca : Call) :
    w.step ca = w.perform ca := by
  simp [World.step, ha]

def inState (state : ResourceState) (slot : Option Entry) : Bool :=
  slot.any fun entry => entry.state == state

def ofKind (kind : ResourceKind) (slot : Option Entry) : Bool :=
  slot.any fun entry => entry.kind == kind

def dependsOn (handle : Handle) (slot : Option Entry) : Bool :=
  slot.any fun entry => entry.dependency == handle

def bytesOf (field : ByteField) (slot : Option Entry) : ℕ := slot.elim 0 fun entry =>
  entry.bytes field

structure Accounted (c : Catalog) : Prop where
  bytes : ∀ field, c.bytes field = total (bytesOf field) c.slots c.capacity
  resources : c.resourceCount = tally Option.isSome c.slots c.capacity
  ready : c.readyCount = tally (inState .ready) c.slots c.capacity
  failed : c.failedCount = tally (inState .failed) c.slots c.capacity
  kinds : ∀ kind, c.countByKind kind = tally (ofKind kind) c.slots c.capacity
  dependents : ∀ i e, c.slots i = some e →
    e.dependentCount = tally (dependsOn e.handle) c.slots c.capacity

structure Sound (c : Catalog) : Prop where
  small : c.capacity ≤ 1024
  placed : ∀ i e, c.slots i = some e → i < c.capacity ∧
    e.handle.engineGeneration = c.engineGeneration ∧ e.handle.slot = i + 1 ∧
    e.handle.generation ≠ 0
  anchored : ∀ i e, c.slots i = some e → e.dependency.present = true →
    ∃ j d, c.slots j = some d ∧ d.handle = e.dependency
  bounded : ∀ field, c.bytes field < wordLimit
  consumers : ∀ i e, c.slots i = some e → e.consumerCount < wordLimit
  idle : ∀ i e, c.slots i = some e → e.state = .releasing →
    e.consumerCount = 0 ∧ e.dependentCount = 0
  accounted : Accounted c

variable {c : Catalog}

theorem tally_small (hsm : c.capacity ≤ 1024) (p : Option Entry → Bool) :
    tally p c.slots c.capacity + 1 < wordLimit := by
  have le := tally_le_capacity p c.slots c.capacity
  have limit : 1026 < wordLimit := by decide
  omega

variable {i : ℕ} {e : Entry}

theorem resourceSlot_live {handle : Handle} (hs : Sound c)
    (hf : resourceSlot c handle = some (i, e)) : c.slots i = some e ∧ e.handle = handle := by
  unfold resourceSlot at hf
  split_ifs at hf with bad
  push Not at bad
  split at hf
  · rename_i en hl
    split_ifs at hf with g
    simp only [Option.some.injEq, Prod.mk.injEq] at hf
    obtain ⟨rfl, rfl⟩ := hf
    obtain ⟨-, he, slotAt, -⟩ := hs.placed _ _ hl
    cases handle
    cases h : en.handle
    simp_all
    omega
  · simp at hf

theorem resourceSlot_of_live (hs : Sound c) (hl : c.slots i = some e) :
    resourceSlot c e.handle = some (i, e) := by
  obtain ⟨hb, en, slot, g⟩ := hs.placed i e hl
  have hg : ¬(e.handle.engineGeneration ≠ c.engineGeneration ∨ e.handle.slot = 0 ∨
      c.capacity < e.handle.slot ∨ e.handle.generation = 0) := by
    push Not
    exact ⟨en, by omega, by omega, g⟩
  rw [resourceSlot, if_neg hg, slot, Nat.add_sub_cancel, hl]
  simp

variable {e' : Entry}

/-- A handle names at most one live slot. -/
theorem Sound.slot_unique (hso : Sound c) {j : ℕ} (h1 : c.slots i = some e)
    (h2 : c.slots j = some e') (hs : e.handle = e'.handle) : i = j := by
  have hsl := (hso.placed i e h1).2.2.1
  have hs' := (hso.placed j e' h2).2.2.1
  rw [hs] at hsl
  omega

theorem Sound.entry_unique (hso : Sound c) {j : ℕ} (h1 : c.slots i = some e)
    (h2 : c.slots j = some e') (hs : e.handle = e'.handle) : e = e' := by
  obtain rfl := hso.slot_unique h1 h2 hs
  exact Option.some.inj (h1.symm.trans h2)

theorem slot_ne {j : ℕ} (h1 : c.slots i = some e) (h2 : c.slots j = some e')
    (hn : e.handle ≠ e'.handle) : i ≠ j := by
  rintro rfl
  rw [h1] at h2
  exact hn (congrArg Entry.handle (Option.some.inj h2))

theorem Sound.present (hs : Sound c) (hl : c.slots i = some e) : e.handle.present = true := by
  have g := (hs.placed i e hl).2.2.2
  simp [Handle.present, g]

structure Revision (c c' : Catalog) (i : ℕ) (e e' : Entry) : Prop where
  live : c.slots i = some e
  slots : c'.slots = Function.update c.slots i (some e')
  engineGeneration : c'.engineGeneration = c.engineGeneration
  capacity : c'.capacity = c.capacity
  nextGeneration : c'.nextGeneration = c.nextGeneration
  bytes : c'.bytes = c.bytes
  resourceCount : c'.resourceCount = c.resourceCount
  countByKind : c'.countByKind = c.countByKind
  handle : e'.handle = e.handle
  dependency : e'.dependency = e.dependency
  kind : e'.kind = e.kind
  entryBytes : e'.bytes = e.bytes
  dependentCount : e'.dependentCount = e.dependentCount
  ready : c'.readyCount + (e.state == .ready).toNat = c.readyCount + (e'.state == .ready).toNat
  failed : c'.failedCount + (e.state == .failed).toNat =
    c.failedCount + (e'.state == .failed).toNat
  consumers : e'.consumerCount < wordLimit
  idle : e'.state = .releasing → e'.consumerCount = 0 ∧ e'.dependentCount = 0

variable {slots : ℕ → Option Entry}

theorem update_live {j : ℕ} (hl : Function.update slots i (some e) j = some e') :
    (j = i ∧ e' = e) ∨ (j ≠ i ∧ slots j = some e') := by
  by_cases hs : j = i
  · subst hs
    rw [Function.update_self] at hl
    exact .inl ⟨rfl, (Option.some.inj hl).symm⟩
  · rw [Function.update_of_ne hs] at hl
    exact .inr ⟨hs, hl⟩

theorem tally_update_same {p : Option Entry → Bool} {cap : ℕ} (hb : i < cap) {x : Option Entry}
    (hs : p (slots i) = p x) : tally p (Function.update slots i x) cap = tally p slots cap := by
  have hmv := tally_update p slots hb x
  rw [hs] at hmv
  omega

variable {c' : Catalog}

theorem Revision.dependents (hr : Revision c c' i e e') (hs : Sound c) (handle : Handle) :
    tally (dependsOn handle) c'.slots c'.capacity =
      tally (dependsOn handle) c.slots c.capacity := by
  rw [hr.slots, hr.capacity]
  apply tally_update_same (hs.placed i e hr.live).1
  simp [hr.live, dependsOn, hr.dependency]

theorem Revision.counted (hr : Revision c c' i e e') (hs : Sound c) {s : ResourceState} {n n' : ℕ}
    (hn : n = tally (inState s) c.slots c.capacity)
    (h : n' + (e.state == s).toNat = n + (e'.state == s).toNat) :
    n' = tally (inState s) c'.slots c'.capacity := by
  have hm := tally_update (inState s) c.slots (hs.placed i e hr.live).1 (some e')
  rw [hr.live] at hm
  change _ + (e.state == s).toNat = _ + (e'.state == s).toNat at hm
  rw [hr.slots, hr.capacity]
  omega

theorem Revision.accounted (hr : Revision c c' i e e') (hso : Sound c) : Accounted c' := by
  have hb := (hso.placed i e hr.live).1
  have ha := hso.accounted
  constructor
  · intro f
    have hm := total_update (bytesOf f) c.slots hb (some e')
    rw [hr.bytes, hr.slots, hr.capacity, ha.bytes f]
    have hs : bytesOf f (some e') = bytesOf f (some e) := by simp [bytesOf, hr.entryBytes]
    rw [hr.live, hs] at hm
    omega
  · rw [hr.resourceCount, hr.slots, hr.capacity, tally_update_same hb (by simp [hr.live])]
    exact ha.resources
  · exact hr.counted hso ha.ready hr.ready
  · exact hr.counted hso ha.failed hr.failed
  · intro k
    rw [hr.countByKind, hr.slots, hr.capacity,
      tally_update_same hb (by simp [hr.live, ofKind, hr.kind])]
    exact ha.kinds k
  · intro j d hl
    rw [hr.dependents hso]
    rw [hr.slots] at hl
    rcases update_live hl with ⟨-, rfl⟩ | ⟨-, ho⟩
    · rw [hr.dependentCount, hr.handle]
      exact ha.dependents i e hr.live
    · exact ha.dependents j d ho

/-- A revised entry leaves the counters the sums over the live slots. -/
theorem Revision.sound (hr : Revision c c' i e e') (hso : Sound c) : Sound c' where
  small := by rw [hr.capacity]; exact hso.small
  placed := by
    intro j d hl
    rw [hr.slots] at hl
    rw [hr.capacity, hr.engineGeneration]
    rcases update_live hl with ⟨rfl, rfl⟩ | ⟨-, ho⟩
    · rw [hr.handle]
      exact hso.placed j e hr.live
    · exact hso.placed j d ho
  anchored := by
    -- The anchor found before the revision is the revised entry or an untouched one.
    have hk : ∀ k a, c.slots k = some a → ∃ b, c'.slots k = some b ∧ b.handle = a.handle := by
      intro k a hl
      rw [hr.slots]
      by_cases hs : k = i
      · subst hs
        rw [hr.live] at hl
        obtain rfl := Option.some.inj hl
        exact ⟨e', Function.update_self .., hr.handle⟩
      · exact ⟨a, by rw [Function.update_of_ne hs]; exact hl, rfl⟩
    intro j d hl hp
    rw [hr.slots] at hl
    have be : ∃ k a, c.slots k = some a ∧ a.handle = d.dependency := by
      rcases update_live hl with ⟨-, rfl⟩ | ⟨-, ho⟩
      · rw [hr.dependency] at hp ⊢
        exact hso.anchored i e hr.live hp
      · exact hso.anchored j d ho hp
    obtain ⟨k, a, hh, hs⟩ := be
    obtain ⟨b, ha', hs'⟩ := hk k a hh
    exact ⟨k, b, ha', hs'.trans hs⟩
  bounded := by rw [hr.bytes]; exact hso.bounded
  consumers := by
    intro j d hl
    rw [hr.slots] at hl
    rcases update_live hl with ⟨-, rfl⟩ | ⟨-, ho⟩
    · exact hr.consumers
    · exact hso.consumers j d ho
  idle := by
    intro j d hl
    rw [hr.slots] at hl
    rcases update_live hl with ⟨-, rfl⟩ | ⟨-, ho⟩
    · exact hr.idle
    · exact hso.idle j d ho
  accounted := hr.accounted hso

end Yvex.ResourceCatalog
