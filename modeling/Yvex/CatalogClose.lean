import Yvex.CatalogHandles

/-!
# Closing the resource catalog

A close releases, from the last slot on, one resource nothing refers to, and scans again.
A resource is registered after the one it depends on, so a live resource without
dependents always exists, and the close ends with an empty catalog.
-/

set_option autoImplicit false

namespace Yvex.ResourceCatalog

open AttentionData SlotTable Runs Option Function

def resourceRelease (answers : Handle → Option Refusal) (catalog : Catalog) (handle : Handle)
    (evict : Bool) : Catalog × Option Refusal :=
  match releaseBegin catalog handle evict with
  | .error refusal => (catalog, some refusal)
  | .ok (begun, due) => releaseEnd begun handle evict (if due then answers handle else none)

structure Closed where
  released : List Handle
  catalog : Catalog
  refusal : Option Refusal

def closeFrom (answers : Handle → Option Refusal) : ℕ → Catalog → Handle → Option Closed
  | 0, _, _ => none
  | fuel + 1, catalog, candidate =>
    match resourceRelease answers catalog candidate false with
    | (after, some refusal) => some ⟨[], after, some refusal⟩
    | (after, none) =>
      match closeRescan after with
      | .error refusal => some ⟨[candidate], after, some refusal⟩
      | .ok none => some ⟨[candidate], after, none⟩
      | .ok (some next) =>
        (closeFrom answers fuel after next).map fun closed =>
          { closed with released := candidate :: closed.released }

def catalogClose (answers : Handle → Option Refusal) (fuel : ℕ) (catalog : Catalog) :
    Option Closed :=
  match closeBegin catalog with
  | (closing, .error refusal) => some ⟨[], closing, some refusal⟩
  | (closing, .ok none) => some ⟨[], closing, none⟩
  | (closing, .ok (some candidate)) => closeFrom answers fuel closing candidate

def Ranked (slots : ℕ → Option Entry) : Prop :=
  ∃ rank : ℕ → ℕ, ∀ i e j d, slots i = some e → slots j = some d →
    e.dependency = d.handle → rank j < rank i

/-- Slots that hold no new names or dependencies stay ranked. -/
theorem Ranked.of_old {s ss' : ℕ → Option Entry} (hr : Ranked s)
    (old : ∀ k x, ss' k = some x →
      ∃ a, s k = some a ∧ a.handle = x.handle ∧ a.dependency = x.dependency) :
    Ranked ss' := by
  obtain ⟨rank, hl⟩ := hr
  refine ⟨rank, ?_⟩
  intro i e j d h1 h2 hd
  obtain ⟨a, be, -, dp⟩ := old i e h1
  obtain ⟨b, hh, h, -⟩ := old j d h2
  exact hl i a j b be hh (by rw [dp, h, hd])

variable {i : ℕ}

theorem Installation.ranked {c c' : Catalog} {new : Entry} (hc : Installation c c' i new)
    (hs : Sound c) (hr : Ranked c.slots) :
    Ranked c'.slots := by
  obtain ⟨r, hl⟩ := hr
  refine ⟨update r i ((Finset.range c.capacity).sup r + 1), ?_⟩
  intro k x j d h1 h2 hd
  -- Nothing depends on the new entry, so the dependency is an old one.
  rcases hc.live h2 with ⟨rfl, rfl⟩ | ⟨b, hh, rfl⟩
  · have none := hc.no_dependents hs
    have some := tally_pos ((hc.sound hs).placed k x h1).1
      (show dependsOn d.handle (c'.slots k) = true by simp [h1, dependsOn, hd])
    omega
  rw [update_of_ne (hc.ne hh)]
  rcases hc.live h1 with ⟨rfl, rfl⟩ | ⟨a, be, rfl⟩
  · rw [update_self]
    have hb := (hs.placed j b hh).1
    exact Nat.lt_succ_of_le (Finset.le_sup (f := r) (Finset.mem_range.mpr hb))
  · rw [update_of_ne (hc.ne be)]
    exact hl k a j b be hh hd

theorem Moved.ranked {w w' : World} (hmv : Moved w w') (hs : Steady w)
    (hr : Ranked w.catalog.slots) : Ranked w'.catalog.slots := by
  cases hmv with
  | quiet hcl cat => rw [cat]; exact hr
  | @revised i e e' hc =>
    refine hr.of_old ?_
    intro k x hl
    rw [hc.slots] at hl
    rcases update_live hl with ⟨rfl, rfl⟩ | ⟨-, b⟩
    · exact ⟨e, hc.live, hc.handle.symm, hc.dependency.symm⟩
    · exact ⟨x, b, rfl, rfl⟩
  | installed hc => exact hc.ranked hs.sound hr
  | removed hc =>
    refine hr.of_old ?_
    intro k x hl
    obtain ⟨-, a, b, rfl⟩ := hc.other hl
    exact ⟨a, b, rfl, rfl⟩

theorem ranked_run {w : World} (hs : Steady w) (hr : Ranked w.catalog.slots)
    (ca : List Call) : Ranked (run World.step w ca).catalog.slots :=
  (run_invariant (P := fun w : World => Steady w ∧ Ranked w.catalog.slots)
    (fun _ cl hh => ⟨(step_moved hh.1 cl).steady hh.1,
      (step_moved hh.1 cl).ranked hh.1 hh.2⟩) ⟨hs, hr⟩ ca).2

structure Closable (answers : Handle → Option Refusal) (c : Catalog) : Prop where
  sound : Sound c
  ranked : Ranked c.slots
  consumers : ∀ i e, c.slots i = some e → e.consumerCount = 0
  settled : ∀ i e, c.slots i = some e → e.state ≠ .releasing
  succeeds : ∀ i e, c.slots i = some e → e.release = true → answers e.handle = none

variable {handle : Handle}

theorem closeCandidate_some {c : Catalog} (hf : closeCandidate c = some handle) :
    ∃ i e, c.slots i = some e ∧ e.handle = handle ∧ e.consumerCount = 0 ∧ e.dependentCount = 0 := by
  obtain ⟨i, -, at_i⟩ := List.exists_of_findSome?_eq_some hf
  obtain ⟨e, hl, hn⟩ := bind_eq_some_iff.mp at_i
  split_ifs at hn with free
  exact ⟨i, e, hl, some.inj hn, free⟩

variable {ans : Handle → Option Refusal} {c : Catalog}

variable {e : Entry}

/-- The youngest live resource has no dependents. -/
theorem Closable.candidate (hc : Closable ans c) (hl : c.slots i = some e) :
    ∃ handle, closeCandidate c = some handle := by
  obtain ⟨rank, less⟩ := hc.ranked
  have hs := hc.sound
  let lives := (Finset.range c.capacity).filter fun k => (c.slots k).isSome
  have hm : ∀ k a, c.slots k = some a → k ∈ lives := by
    intro k a at_k
    exact Finset.mem_filter.mpr ⟨Finset.mem_range.mpr (hs.placed k a at_k).1, by simp [at_k]⟩
  obtain ⟨k, hin, hy⟩ := lives.exists_max_image rank ⟨i, hm i e hl⟩
  obtain ⟨hb, hoc⟩ := Finset.mem_filter.mp hin
  obtain ⟨a, at_k⟩ := isSome_iff_exists.mp hoc
  have hal : a.dependentCount = 0 := by
    rw [hs.accounted.dependents k a at_k]
    refine tally_eq_zero ?_
    intro j _
    by_contra depends
    rw [Bool.not_eq_false, dependsOn, any_eq_true] at depends
    obtain ⟨d, at_j, hn⟩ := depends
    have hol := less j d k a at_j at_k (by simpa using hn)
    have hyn := hy j (hm j d at_j)
    omega
  refine isSome_iff_exists.mp (List.findSome?_isSome_iff.mpr ⟨k, by simpa using hb, ?_⟩)
  simp [at_k, hc.consumers k a at_k, hal]

theorem Closable.scan (hc : Closable ans c) (r : String) :
    (∃ handle, closeScan c r = .ok (some handle) ∧ closeCandidate c = some handle) ∨
      (closeScan c r = .ok none ∧ ∀ i, c.slots i = none) := by
  by_cases he : ∀ i, c.slots i = none
  · have hno : closeCandidate c = none := by
      cases hf : closeCandidate c with
      | none => rfl
      | some =>
        obtain ⟨i, e, hl, -⟩ := closeCandidate_some hf
        rw [he i] at hl
        cases hl
    have none : c.resourceCount = 0 := by
      rw [hc.sound.accounted.resources]
      exact tally_eq_zero fun i _ => by rw [he i]; rfl
    exact .inr ⟨by simp [closeScan, hno, none], he⟩
  · push Not at he
    obtain ⟨i, hoc⟩ := he
    obtain ⟨e, hl⟩ := ne_none_iff_exists'.mp hoc
    obtain ⟨handle, hf⟩ := hc.candidate hl
    exact .inl ⟨handle, by simp [closeScan, hf], hf⟩

structure Released (c c' : Catalog) (i : ℕ) (e : Entry) : Prop where
  live : c.slots i = some e
  slots : ∀ k, c'.slots k = if k = i then none else (c.slots k).map (lower e.dependency)
  capacity : c'.capacity = c.capacity
  resourceCount : c'.resourceCount + 1 = c.resourceCount

variable {c' : Catalog}

theorem Released.other (hr : Released c c' i e) {k : ℕ} {x : Entry} (hl : c'.slots k = some x) :
    k ≠ i ∧ ∃ a, c.slots k = some a ∧ x = lower e.dependency a :=
  emptied_other ((hr.slots k).symm.trans hl)

theorem Released.kept (hr : Released c c' i e) {k : ℕ} {a : Entry} (ho : k ≠ i)
    (hb : c.slots k = some a) :
    c'.slots k = some (lower e.dependency a) := by
  rw [hr.slots k, if_neg ho, hb, map_some]

theorem Released.closable (hr : Released c c' i e) (hs : Sound c')
    (hc : Closable ans c) : Closable ans c' where
  sound := hs
  ranked := by
    refine hc.ranked.of_old ?_
    intro k x hl
    obtain ⟨-, a, b, rfl⟩ := hr.other hl
    exact ⟨a, b, rfl, rfl⟩
  consumers := by
    intro k x hl
    obtain ⟨-, a, b, rfl⟩ := hr.other hl
    exact hc.consumers k a b
  settled := by
    intro k x hl
    obtain ⟨-, a, b, rfl⟩ := hr.other hl
    exact hc.settled k a b
  succeeds := by
    intro k x hl
    obtain ⟨-, a, b, rfl⟩ := hr.other hl
    exact hc.succeeds k a b

/-- Releasing a candidate of a close succeeds and leaves a catalog that can be closed. -/
theorem Closable.release (hcl : Closable ans c) (hf : closeCandidate c = some handle) :
    ∃ c' i e, e.handle = handle ∧ resourceRelease ans c handle false = (c', none) ∧
      Released c c' i e ∧ e.dependentCount = 0 ∧ Closable ans c' := by
  obtain ⟨i, e, hl, rfl, unborrowed, hal⟩ := closeCandidate_some hf
  have hs := hcl.sound
  obtain ⟨hb, begins⟩ : ∃ hb, releaseBegin c e.handle false = .ok (hb, e.release) := by
    simp only [releaseBegin, hs.present hl, resourceSlot_of_live hs hl]
    simp [hcl.settled i e hl, unborrowed, hal]
  obtain ⟨j, a, b, hc, -, hrl, hn⟩ := releaseBegin_revision hs begins
  obtain rfl := hs.slot_unique hc.live hl hn
  obtain rfl := hs.entry_unique hc.live hl hn
  have begunSound := hc.sound hs
  have begunLive : hb.slots j = some b := by rw [hc.slots, update_self]
  have removal := resourceRemove_removal begunSound begunLive (hc.idle hrl) false
  have han : (if a.release then ans a.handle else none) = none := by
    by_cases due : a.release = true
    · rw [if_pos due, hcl.succeeds j a hl due]
    · rw [if_neg due]
  have hw : resourceRelease ans c a.handle false = (resourceRemove hb j b false, none) := by
    have slot := resourceSlot_of_live begunSound begunLive
    rw [hc.handle] at slot
    simp only [resourceRelease, begins, han, releaseEnd, slot]
  have hr : Released c (resourceRemove hb j b false) j a := by
    refine ⟨hl, ?_, removal.capacity.trans hc.capacity, ?_⟩
    · intro k
      rw [removal.slots k, hc.dependency]
      by_cases hh : k = j
      · rw [if_pos hh, if_pos hh]
      · rw [if_neg hh, if_neg hh, hc.slots, update_of_ne hh]
    · have hp := hs.resource_pos hl
      rw [removal.resourceCount, hc.resourceCount]
      omega
  exact ⟨_, j, a, rfl, hw, hr, hal, hr.closable (removal.sound begunSound) hcl⟩

/-- The catalog was emptied: every resource was released once, before its dependency. -/
structure Emptied (c : Catalog) (closed : Closed) : Prop where
  freed : closed.refusal = none
  empty : ∀ i, closed.catalog.slots i = none
  once : closed.released.Nodup
  all : ∀ handle, handle ∈ closed.released ↔ ∃ i e, c.slots i = some e ∧ e.handle = handle
  order : ∀ i e j d, c.slots i = some e → c.slots j = some d → e.dependency = d.handle →
    ∃ before after, closed.released = before ++ e.handle :: after ∧ d.handle ∈ after

theorem Released.emptied (hr : Released c c' i e) (hs : Sound c)
    (hal : e.dependentCount = 0) {cl : Closed} (he : Emptied c' cl) :
    Emptied c { cl with released := e.handle :: cl.released } where
  freed := he.freed
  empty := he.empty
  once := by
    refine List.nodup_cons.mpr ⟨?_, he.once⟩
    intro hag
    obtain ⟨k, x, hli, hn⟩ := (he.all e.handle).mp hag
    obtain ⟨ho, a, b, rfl⟩ := hr.other hli
    exact ho (hs.slot_unique b hr.live hn)
  all := by
    intro h
    rw [List.mem_cons, he.all]
    constructor
    · rintro (rfl | ⟨k, x, hli, rfl⟩)
      · exact ⟨i, e, hr.live, rfl⟩
      · obtain ⟨-, a, b, rfl⟩ := hr.other hli
        exact ⟨k, a, b, rfl⟩
    · rintro ⟨k, a, b, rfl⟩
      by_cases hh : k = i
      · subst hh
        exact .inl (congrArg Entry.handle (some.inj (b.symm.trans hr.live)))
      · exact .inr ⟨k, _, hr.kept hh b, rfl⟩
  order := by
    intro k a j d h1 h2 hd
    -- The released resource has no dependents, so the dependency is still there.
    have hl : j ≠ i := by
      rintro rfl
      obtain rfl := some.inj (h2.symm.trans hr.live)
      have hct := hs.dependent_pos h1 h2 hd
      omega
    have hk := hr.kept hl h2
    by_cases hh : k = i
    · subst hh
      obtain rfl := some.inj (h1.symm.trans hr.live)
      exact ⟨[], cl.released, rfl, (he.all d.handle).mpr ⟨j, _, hk, rfl⟩⟩
    · obtain ⟨b, af, hsp, hm⟩ := he.order k _ j _ (hr.kept hh h1) hk hd
      exact ⟨e.handle :: b, af, by rw [hsp]; rfl, hm⟩

theorem closeFrom_emptied {f : ℕ} (hc : Closable ans c)
    (hf : closeCandidate c = some handle) (hen : c.resourceCount ≤ f) :
    ∃ closed, closeFrom ans f c handle = some closed ∧ Emptied c closed := by
  induction f generalizing c handle with
  | zero =>
    obtain ⟨i, e, live, -⟩ := closeCandidate_some hf
    have hp := hc.sound.resource_pos live
    omega
  | succ f ih =>
    obtain ⟨c', i, e, rfl, hw, hr, hal, hl⟩ := hc.release hf
    have hct := hr.resourceCount
    rcases hl.scan "resource catalog close found a dependency cycle" with
      ⟨next, hs, ca⟩ | ⟨hs, em⟩
    · obtain ⟨closed, ran, hem⟩ := ih hl ca (by omega)
      exact ⟨_, by simp only [closeFrom, hw, closeRescan, hs, ran, map_some],
        hr.emptied hc.sound hal hem⟩
    · have last : Emptied c' ⟨[], c', none⟩ := by
        refine ⟨rfl, em, List.nodup_nil, ?_, ?_⟩ <;> simp [em]
      exact ⟨_, by simp only [closeFrom, hw, closeRescan, hs], hr.emptied hc.sound hal last⟩

theorem Closable.closing (hc : Closable ans c) : Closable ans { c with closing := true } :=
  ⟨hc.sound.closing true, hc.ranked, hc.consumers, hc.settled, hc.succeeds⟩

theorem catalogClose_emptied {f : ℕ} (hc : Closable ans c) (hen : c.capacity ≤ f) :
    ∃ closed, catalogClose ans f c = some closed ∧ Emptied c closed := by
  have hf : c.resourceCount ≤ f := by
    rw [hc.sound.accounted.resources]
    exact (tally_le_capacity _ _ _).trans hen
  rcases hc.closing.scan "resource catalog still owns referenced or cyclic resources" with
    ⟨h, scanned, ca⟩ | ⟨scanned, empty⟩
  · obtain ⟨closed, ran, hem⟩ := closeFrom_emptied hc.closing ca hf
    exact ⟨closed, by simp only [catalogClose, closeBegin, scanned, ran], { hem with }⟩
  refine ⟨_, by simp only [catalogClose, closeBegin, scanned]; rfl, rfl, empty, List.nodup_nil,
    ?_, ?_⟩
  · simp_all
  · simp_all

/-- From any reachable catalog with nothing borrowed and no release under way, a close whose
callbacks succeed empties the catalog. -/
theorem close_empties (engineGeneration : ℕ) (identity : Identity) (capacity : ℕ)
    (allocated : Bool) (catalog : Catalog)
    (opened : catalogOpen engineGeneration identity capacity allocated = .ok catalog)
    (calls : List Call) (answers : Handle → Option Refusal) (reached : Catalog)
    (runs : reached = (run World.step (World.start catalog) calls).catalog)
    (consumers : ∀ i e, reached.slots i = some e → e.consumerCount = 0)
    (settled : ∀ i e, reached.slots i = some e → e.state ≠ .releasing)
    (succeeds : ∀ i e, reached.slots i = some e → e.release = true → answers e.handle = none)
    (fuel : ℕ) (enough : reached.capacity ≤ fuel) :
    ∃ closed, catalogClose answers fuel reached = some closed ∧ Emptied reached closed := by
  have start : Steady (World.start catalog) := steady_start opened
  have fresh : Ranked (World.start catalog).catalog.slots := by
    unfold catalogOpen at opened
    split_ifs at opened
    obtain rfl := Except.ok.inj opened
    exact ⟨fun _ => 0, by simp [World.start]⟩
  have sound := (steady_run start calls).sound
  have ranked := ranked_run start fresh calls
  rw [← runs] at sound ranked
  exact catalogClose_emptied ⟨sound, ranked, consumers, settled, succeeds⟩ enough

def sampleCatalog : Catalog :=
  ((catalogOpen 1 sampleIdentity 2 true).toOption).getD ⟨0, [], 0, fun _ => none, 0, 0, 0, 0, 0, 0,
    0, 0, 0, 0, 0, fun _ => 0, fun _ => 0, false⟩

theorem sampleCatalog_opened : catalogOpen 1 sampleIdentity 2 true = .ok sampleCatalog := rfl

theorem sample_live {P : Entry → Prop} (ca : List Call)
    (cap : (run World.step (World.start sampleCatalog) ca).catalog.capacity = 2)
    (h1 : ∀ e ∈ (run World.step (World.start sampleCatalog) ca).catalog.slots 0, P e)
    (h2 : ∀ e ∈ (run World.step (World.start sampleCatalog) ca).catalog.slots 1, P e)
    (i : ℕ) (e : Entry)
    (hl : (run World.step (World.start sampleCatalog) ca).catalog.slots i = some e) : P e := by
  have hb := ((steady_run (steady_start sampleCatalog_opened) ca).sound.placed i e hl).1
  rw [cap] at hb
  interval_cases i
  · exact h1 e hl
  · exact h2 e hl

def pairCalls : List Call :=
  [.register sampleRequest, .register { sampleRequest with dependency := ⟨1, 1, 1⟩ }]

def Supports (c : Catalog) (j i : ℕ) : Prop :=
  ∃ e d, c.slots i = some e ∧ c.slots j = some d ∧ e.dependency = d.handle

/-- Following dependencies from a live resource always ends. -/
theorem supports_founded {engine limit : ℕ} {id : Identity} {given : Bool}
    (opened : catalogOpen engine id limit given = .ok c) (calls : List Call) :
    WellFounded (Supports (run World.step (World.start c) calls).catalog) := by
  have start := steady_start opened
  unfold catalogOpen at opened
  split_ifs at opened
  obtain rfl := Except.ok.inj opened
  obtain ⟨rank, older⟩ := ranked_run start ⟨fun _ => 0, by simp [World.start]⟩ calls
  refine Subrelation.wf ?_ (measure rank).wf
  rintro j i ⟨e, d, live, held, depends⟩
  exact older i e j d live held depends

theorem supports_founded_pair :
    WellFounded (Supports (run World.step (World.start sampleCatalog) pairCalls).catalog) :=
  supports_founded sampleCatalog_opened pairCalls

theorem close_empties_pair :
    ∃ closed, catalogClose (fun _ => none) 2
        (run World.step (World.start sampleCatalog) pairCalls).catalog = some closed ∧
      ⟨1, 1, 1⟩ ∈ closed.released ∧ closed.refusal = none := by
  obtain ⟨closed, ran, emptied⟩ := close_empties 1 sampleIdentity 2 true sampleCatalog
    sampleCatalog_opened pairCalls (fun _ => none) _ rfl
    (sample_live pairCalls rfl (by decide +kernel) (by decide +kernel))
    (sample_live pairCalls rfl (by decide +kernel) (by decide +kernel))
    (fun _ _ _ _ => rfl) 2 (by decide +kernel)
  refine ⟨closed, ran, ?_, emptied.freed⟩
  exact (emptied.all _).mpr ⟨0, _, rfl, rfl⟩

/-- A close that meets a release under way in another thread is refused. -/
theorem close_during_release :
    ∃ reached closed, reached = (run World.step (World.start sampleCatalog)
        [.register sampleRequest, .release ⟨1, 1, 1⟩ false]).catalog ∧
      reached.resourceCount = 1 ∧ (∀ i e, reached.slots i = some e → e.consumerCount = 0) ∧
      catalogClose (fun _ => none) 2 reached = some closed ∧ closed.released = [] ∧
      closed.refusal = some (resourceRefuse .state
        "resource is stale, referenced, or still has dependents") :=
  ⟨_, _, rfl, rfl, sample_live _ rfl (by decide +kernel) (by decide +kernel), rfl, rfl, rfl⟩

end Yvex.ResourceCatalog
