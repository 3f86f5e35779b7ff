import Yvex.StatePageAccounts

/-!
# Capturing a prefix

A prefix is measured before it is captured: the measurement counts the committed host pages of
every store, the capture sums up what the sealed backings hold. A store that is still all of its
backing lends that backing, every other store is written to a new one.
-/

set_option autoImplicit false

namespace Yvex.StatePages

open AttentionData CheckedArithmetic RefusableStep Runs

variable {α : Type}

structure ComponentPages (α : Type) where
  value : Option (PageStore α)
  position : Option (PageStore α)
  auxiliary : Option (PageStore α)

structure PrefixBank (α : Type) where
  identityValid : Bool
  components : List (ComponentPages α)

def PrefixBank.stores (bank : PrefixBank α) : List (Option (PageStore α)) :=
  bank.components.flatMap fun c => [c.value, c.position, c.auxiliary]

def measureStores (total : ℕ) : List (Option (PageStore α)) → Except PageError ℕ
  | [] => .ok total
  | none :: rest => measureStores total rest
  | some store :: rest =>
    if !store.paged then .error ⟨.unsupported, "state prefixes require paged storage"⟩
    else
      let sum := do
        let extent ← u64Mul (bitCount store.systemCommitted store.systemPageCount)
          store.systemPageBytes
        u64Add total extent
      match sum with
      | none => .error ⟨.bounds, "state prefix measurement overflowed"⟩
      | some next => measureStores next rest

def bankPrefixMeasure (bank : PrefixBank α) : Except PageError ℕ :=
  if !bank.identityValid then
    .error ⟨.invalidArg, "state prefix measurement arguments are invalid"⟩
  else measureStores 0 bank.stores

def prefixMeasure (total : ℕ) : List (Option (PrefixBank α)) → Except PageError ℕ
  | [] => .ok total
  | none :: _ => .error ⟨.state, "state prefix layer is not prepared"⟩
  | some bank :: rest =>
    match bankPrefixMeasure bank with
    | .error e => .error e
    | .ok current =>
      match u64Add total current with
      | none => .error ⟨.bounds, "state prefix byte measurement failed"⟩
      | some next => prefixMeasure next rest

section Capture

variable [Inhabited α] (digest : PageStore α → Option Identity)

def prefixStoreCapture (pool : PagePool) (store : PageStore α) :
    Outcome PageError (PagePool × Option (SharedBacking α)) :=
  if !store.paged then
    .refused ⟨.unsupported, "state prefixes require paged storage"⟩ (pool, none)
  else match store.shared with
  | some backing =>
    if bitCount store.privateSystemCommitted store.systemPageCount = 0 then
      .done ({ pool with host := pool.host.sharedRetain backing.backing }, some backing)
    else sharedOpen pool store (digest store)
  | none => sharedOpen pool store (digest store)

structure Captured where
  pool : PagePool
  sharedBytes : ℕ
  mappedBytes : ℕ

def captureStores (c : Captured) : List (Option (PageStore α)) → Outcome PageError Captured
  | [] => .done c
  | none :: rest => captureStores c rest
  | some store :: rest =>
    match prefixStoreCapture digest c.pool store with
    | .refused e (pool, _) => .refused e { c with pool := pool }
    | .done (pool, none) => captureStores { c with pool := pool } rest
    | .done (pool, some backing) =>
      match u64Add c.sharedBytes backing.residentBytes,
        u64Add c.mappedBytes backing.mappedBytes with
      | some shared, some mapped => captureStores ⟨pool, shared, mapped⟩ rest
      | _, _ =>
        .refused ⟨.bounds, "state prefix byte accounting overflowed"⟩ { c with pool := pool }

def bankPrefixCapture (named : Bool) (pool : PagePool) (bank : PrefixBank α) :
    Outcome PageError Captured :=
  if !bank.identityValid then
    .refused ⟨.invalidArg, "state prefix capture arguments are invalid"⟩ ⟨pool, 0, 0⟩
  else if !pool.hostCall.1 then
    .refused ⟨.nomem, "state prefix owner allocation failed"⟩ ⟨pool.hostCall.2, 0, 0⟩
  else (captureStores digest ⟨pool.hostCall.2, 0, 0⟩ bank.stores).andThen fun c =>
    if named then .done c
    else .refused ⟨.state, "state prefix identity construction failed"⟩ c

def prefixCaptureBanks (named : Bool) (pool : PagePool) (shared : ℕ) :
    List (Option (PrefixBank α)) → Option ℕ
  | [] => some shared
  | none :: _ => none
  | some bank :: rest =>
    match bankPrefixCapture digest named pool bank with
    | .refused _ _ => none
    | .done c => (u64Add shared c.sharedBytes).bind fun shared =>
        prefixCaptureBanks named c.pool shared rest

end Capture

def storeExtent (store : PageStore α) : ℕ :=
  bitCount store.systemCommitted store.systemPageCount * store.systemPageBytes

def extent (stores : List (Option (PageStore α))) : ℕ := (stores.map (·.elim 0 storeExtent)).sum

variable {stores : List (Option (PageStore α))}

theorem measureStores_ok {tt t : ℕ} (h : measureStores tt stores = .ok t) :
    t = tt + extent stores := by
  induction stores generalizing tt with
  | nil => exact (Except.ok.inj h).symm
  | cons o r ih =>
    cases o with
    | none => simpa [extent] using ih h
    | some st =>
      rw [measureStores] at h
      split at h
      · cases h
      dsimp only at h
      split at h
      · cases h
      rename_i sum
      simp only [Option.bind_eq_bind, Option.bind_eq_some_iff, u64Mul_eq_some,
        u64Add_eq_some] at sum
      obtain ⟨_, ⟨-, rfl⟩, -, rfl⟩ := sum
      simp [ih h, extent, storeExtent, Nat.add_assoc]

variable {st : PageStore α} {d : PageStore α → Option Identity} {b : SharedBacking α}

theorem StoreSound.lent (hs : StoreSound st) (hsh : st.shared = some b)
    (none : bitCount st.privateSystemCommitted st.systemPageCount = 0) :
    b.residentBytes = storeExtent st := by
  obtain ⟨ba, hsa⟩ := hs.backing b hsh
  have bi : ∀ p < st.systemPageCount, b.systemCommitted p = st.systemCommitted p := by
    intro p hb
    have hab : st.privateSystemCommitted p = false := by
      have := List.countP_eq_zero.mp none p (List.mem_range.mpr hb)
      simpa using this
    have hj := hs.systemPages.joined p
    simp only [PageStore.systemBits, PageBits.owned, hsh] at hj
    simpa [hab] using hj.symm
  simp only [SameGeometry, SharedBacking.geometry, PageStore.geometry, Prod.mk.injEq] at hsa
  obtain ⟨-, -, -, hm, -, -, s⟩ := hsa
  rw [ba.resident, hm, s, hs.shaped.system_count, bitCount_congr bi, storeExtent]

variable {pool : PagePool} {p : PagePool}

theorem sharedOpen_extent [Inhabited α] {i : Option Identity}
    (hs : StoreSound st) (hp : st.paged = true)
    (h : sharedOpen pool st i = .done (p, some b)) :
    b.residentBytes = storeExtent st := by
  unfold sharedOpen at h
  dsimp only at h
  repeat' split at h
  all_goals cases h
  rename_i hr _ _ _ _
  obtain ⟨-, rfl⟩ := (u64Mul_eq_some _ _ _).mp hr
  simp [sharedBacking, hp, storeExtent, hs.shaped.system_count]

theorem prefixStoreCapture_extent [Inhabited α] (hs : StoreSound st)
    (h : prefixStoreCapture d pool st = .done (p, some b)) :
    b.residentBytes = storeExtent st := by
  unfold prefixStoreCapture at h
  split at h
  · cases h
  rename_i hp
  have hp : st.paged = true := by simpa using hp
  split at h
  · rename_i hsh
    split at h
    · rename_i none
      cases h
      exact hs.lent hsh none
    · exact sharedOpen_extent hs hp h
  · exact sharedOpen_extent hs hp h

theorem prefixStoreCapture_some [Inhabited α] : prefixStoreCapture d pool st ≠ .done (p, none) := by
  intro h
  unfold prefixStoreCapture sharedOpen at h
  dsimp only at h
  repeat' split at h
  all_goals cases h

variable {c : Captured}

theorem captureStores_done [Inhabited α] {c' : Captured}
    (hs : ∀ s, some s ∈ stores → StoreSound s) (h : captureStores d c stores = .done c') :
    c'.sharedBytes = c.sharedBytes + extent stores := by
  induction stores generalizing c with
  | nil =>
    cases h
    rfl
  | cons o re ih =>
    have hl : ∀ s, some s ∈ re → StoreSound s := fun s hm => hs s (List.mem_cons_of_mem _ hm)
    cases o with
    | none => simpa [extent] using ih hl h
    | some st =>
      rw [captureStores] at h
      split at h
      · cases h
      · rename_i hc
        exact absurd hc prefixStoreCapture_some
      rename_i hc
      have r := prefixStoreCapture_extent (hs st List.mem_cons_self) hc
      split at h
      · rename_i sum _
        obtain ⟨-, rfl⟩ := (u64Add_eq_some _ _ _).mp sum
        simp [ih hl h, extent, r, Nat.add_assoc]
      · cases h

variable {named : Bool}

theorem bankPrefixCapture_done [Inhabited α] {ba : PrefixBank α}
    (hs : ∀ s, some s ∈ ba.stores → StoreSound s)
    (h : bankPrefixCapture d named pool ba = .done c) : c.sharedBytes = extent ba.stores := by
  unfold bankPrefixCapture at h
  split at h
  · cases h
  split at h
  · cases h
  cases hc : captureStores d ⟨pool.hostCall.2, 0, 0⟩ ba.stores with
  | refused =>
    rw [hc] at h
    cases h
  | done =>
    rw [hc, Outcome.andThen] at h
    split at h
    · cases h
      rw [captureStores_done hs hc, Nat.zero_add]
    · cases h

/-- Measuring and capturing sum up the same bytes. -/
theorem passes_agree [Inhabited α] {l : List (Option (PrefixBank α))}
    (hs : ∀ ba, some ba ∈ l → ∀ s, some s ∈ ba.stores → StoreSound s)
    {t m sh : ℕ} (hm : prefixMeasure t l = .ok m)
    (hc : prefixCaptureBanks d named pool t l = some sh) : sh = m := by
  induction l generalizing pool t with
  | nil =>
    cases hm
    cases hc
    rfl
  | cons o r ih =>
    cases o with
    | none => cases hm
    | some ba =>
      rw [prefixMeasure] at hm
      rw [prefixCaptureBanks] at hc
      cases first : bankPrefixMeasure ba with
      | error =>
        rw [first] at hm
        cases hm
      | ok hcu =>
        cases sc : bankPrefixCapture d named pool ba with
        | refused =>
          rw [sc] at hc
          cases hc
        | done =>
          simp only [first, sc, Option.bind_eq_some_iff, u64Add_eq_some] at hm hc
          obtain ⟨next, ⟨hsm, rfl⟩, hc⟩ := hc
          have hct := bankPrefixCapture_done (hs ba List.mem_cons_self) sc
          have hex : hcu = extent ba.stores := by
            unfold bankPrefixMeasure at first
            split at first
            · cases first
            · rw [measureStores_ok first, Nat.zero_add]
          rw [hct] at hsm hc
          rw [hex, u64Add, if_pos hsm] at hm
          exact ih (fun ba hb => hs ba (List.mem_cons_of_mem _ hb)) hm hc

/-- A prefix of any banks with live stores of the pool: when both passes come through, the
captured bytes are the measured ones, so the budget that admitted the measurement holds. -/
theorem prefix_measured [Inhabited α] (slots tables maximumBytes : ℕ) (host : Host)
    (events : List PageEvent) (digest : PageStore α → Option Identity) (named : Bool)
    (layers : List (Option (PrefixBank α))) (measured shared limit : ℕ)
    (live : ∀ bank, some bank ∈ layers → ∀ store, some store ∈ bank.stores → ∃ slot,
      (run (PageWorld.step slots tables) (.start maximumBytes host) events).stores slot =
        some store)
    (hm : prefixMeasure 0 layers = .ok measured) (fits : measured ≤ limit)
    (hc : prefixCaptureBanks digest named
      (run (PageWorld.step slots tables) (.start maximumBytes host : PageWorld α) events).pool 0
      layers = some shared) :
    shared = measured ∧ ¬ limit < shared := by
  have acc := accounted_run (α := α) slots tables maximumBytes host events
  have equal : shared = measured := passes_agree (fun bank hb store hs => by
    obtain ⟨slot, found⟩ := live bank hb store hs
    exact acc.sound slot store found) hm hc
  exact ⟨equal, by omega⟩

-- Three stores: one with two host pages, one with two of its six, and one that borrows the
-- backing sealed from the first.
def touchedEvents : List PageEvent :=
  [.opens 0 4096 4 1024 true, .touch 0 100 1500, .opens 1 3000 8 512 true, .touch 1 600 10,
    .touch 1 2900 5, .share 0 (some []), .opens 2 4096 4 1024 true, .install 2 0]

def touchedWorld : PageWorld ℕ :=
  run (PageWorld.step 3 0) (.start 0 smallPages) touchedEvents

def touchedLayers : List (Option (PrefixBank ℕ)) :=
  [some ⟨true, [⟨touchedWorld.stores 0, none, touchedWorld.stores 1⟩]⟩,
    some ⟨true, [⟨none, touchedWorld.stores 2, none⟩]⟩]

theorem prefix_measured_layers :
    prefixMeasure 0 touchedLayers = .ok 24576 ∧
      prefixCaptureBanks (fun _ => some []) true touchedWorld.pool 0 touchedLayers =
        some 24576 ∧ (24576 = 24576 ∧ ¬ 25000 < 24576) := by
  refine ⟨rfl, rfl, prefix_measured 3 0 0 smallPages touchedEvents (fun _ => some []) true
    touchedLayers 24576 24576 25000 ?_ rfl (by decide) rfl⟩
  intro bank listed store held
  change ∃ slot, touchedWorld.stores slot = some store
  obtain rfl | rfl : bank = ⟨true, [⟨touchedWorld.stores 0, none, touchedWorld.stores 1⟩]⟩ ∨
      bank = ⟨true, [⟨none, touchedWorld.stores 2, none⟩]⟩ := by
    simpa [touchedLayers] using listed
  · obtain found | found : some store = touchedWorld.stores 0 ∨
        some store = touchedWorld.stores 1 := by
      simpa [PrefixBank.stores] using held
    · exact ⟨0, found.symm⟩
    · exact ⟨1, found.symm⟩
  · exact ⟨2, by simpa [PrefixBank.stores, eq_comm] using held⟩

end Yvex.StatePages
