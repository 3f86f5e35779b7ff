import Yvex.CatalogRuns

/-!
# Released handles and the whole catalog invariant

Generations count registrations and skip zero when the word wraps, so a
generation comes back only after every other one has been used.
-/

set_option autoImplicit false

namespace Yvex.ResourceCatalog

open AttentionData CheckedArithmetic SlotTable Runs WordCounter World List Function

structure Numbered (w : World) : Prop where
  next : w.catalog.nextGeneration = generationAt w.issued.length
  issued : ∀ recent handle earlier, w.issued = recent ++ handle :: earlier →
    handle.generation = generationAt (earlier.length + 1)

variable {w w' : World}

theorem Moved.numbered (hmv : Moved w w') (hn : Numbered w) : Numbered w' := by
  cases hmv with
  | quiet hcl cat rs hi => exact ⟨by rw [cat, hi]; exact hn.next, by rw [hi]; exact hn.issued⟩
  | revised hc rs hd hi hds | removed hc rs hd hi hds =>
    exact ⟨by rw [hc.nextGeneration, hi]; exact hn.next, by rw [hi]; exact hn.issued⟩
  | installed hc rs hi g next =>
    have had : generationAfter w.catalog.nextGeneration = generationAt (w.issued.length + 1) := by
      rw [hn.next, generationAfter_generationAt]
    refine ⟨by rw [next, hi, had, length_cons], ?_⟩
    intro hr h ea hsp
    rw [hi] at hsp
    cases hr with
    | nil =>
      obtain ⟨rfl, rfl⟩ := cons.inj hsp
      rw [g, had]
    | cons f r => exact hn.issued r h ea (cons.inj hsp).2

theorem Moved.issued_suffix (hmv : Moved w w') : w.issued <:+ w'.issued := by
  cases hmv with
  | quiet _ _ _ hi | revised _ _ _ hi | removed _ _ _ hi => rw [hi]
  | installed _ _ hi =>
    rw [hi]
    exact suffix_cons _ _

def Reissued (count : ℕ) (handle : Handle) (w : World) : Prop :=
  count ≤ w.issued.length ∧ ∀ i e, w.catalog.slots i = some e → e.handle = handle →
    ∃ n, count < n ∧ n ≤ w.issued.length ∧ handle.generation = generationAt n

variable {handle : Handle}

theorem Moved.reissued (hmv : Moved w w') (hnm : Numbered w) {m : ℕ}
    (hr : Reissued m handle w) : Reissued m handle w' := by
  have hg := hmv.issued_suffix.length_le
  refine ⟨hr.1.trans hg, ?_⟩
  -- An entry that was there before under the same handle has its number already.
  have old : ∀ i a, w.catalog.slots i = some a → a.handle = handle →
      ∃ n, m < n ∧ n ≤ w'.issued.length ∧ handle.generation = generationAt n := by
    intro i a hl hn
    obtain ⟨n, af, hw, hs⟩ := hr.2 i a hl hn
    exact ⟨n, af, hw.trans hg, hs⟩
  intro k x hl hn
  cases hmv with
  | quiet hcl cat =>
    rw [cat] at hl
    exact old k x hl hn
  | @revised i e e' hc rs hd hi hds =>
    rw [hc.slots] at hl
    rcases update_live hl with ⟨-, rfl⟩ | ⟨-, ho⟩
    · exact old i e hc.live (hc.handle ▸ hn)
    · exact old k x ho hn
  | removed hc =>
    obtain ⟨-, a, b, rfl⟩ := hc.other hl
    exact old k a b hn
  | installed hc rs hi g next hds =>
    rcases hc.live hl with ⟨-, rfl⟩ | ⟨a, b, rfl⟩
    · have start := hr.1
      refine ⟨w.issued.length + 1, by omega, by simp [hi], ?_⟩
      rw [← hn, g, hnm.next, generationAfter_generationAt]
    · exact old k a b hn

structure Tracked (w : World) : Prop where
  steady : Steady w
  numbered : Numbered w

theorem tracked_step (ca : Call) (ht : Tracked w) : Tracked (w.step ca) :=
  have hmv := step_moved ht.steady ca
  ⟨hmv.steady ht.steady, hmv.numbered ht.numbered⟩

theorem tracked_run (ht : Tracked w) (cs : List Call) : Tracked (run World.step w cs) :=
  run_invariant (P := fun w : World => Tracked w) (fun _ ca => tracked_step ca) ht cs

theorem tracked_start {en cap : ℕ} {id : Identity} {allocated : Bool} {cat : Catalog}
    (ho : catalogOpen en id cap allocated = .ok cat) :
    Tracked (World.start cat) := by
  refine ⟨steady_start ho, ?_, by simp [start]⟩
  unfold catalogOpen at ho
  split_ifs at ho
  obtain rfl := Except.ok.inj ho
  rfl

theorem reissued_run (ht : Tracked w) (hg : resourceSlot w.catalog handle = none)
    (cs : List Call) : Reissued w.issued.length handle (run World.step w cs) := by
  have s : Reissued w.issued.length handle w := by
    refine ⟨le_rfl, ?_⟩
    intro i e hl hn
    have hf := resourceSlot_of_live ht.steady.sound hl
    rw [hn, hg] at hf
    simp at hf
  have both : Tracked (run step w cs) ∧ Reissued w.issued.length handle (run step w cs) :=
    run_invariant (P := fun u : World => Tracked u ∧ Reissued w.issued.length handle u)
      (fun u ca hk => ⟨tracked_step ca hk.1,
        (step_moved hk.1.steady ca).reissued hk.1.numbered hk.2⟩)
      ⟨ht, s⟩ cs
  exact both.2

/-- A released handle stays stale until all other generations have been issued. -/
theorem retired_run (ht : Tracked w) {r earlier : List Handle}
    (his : w.issued = r ++ handle :: earlier) (hg : resourceSlot w.catalog handle = none)
    {calls : List Call}
    (near : (run World.step w calls).issued.length < earlier.length + wordLimit) :
    resourceSlot (run World.step w calls).catalog handle = none := by
  cases hf : resourceSlot (run step w calls).catalog handle with
  | none => rfl
  | some p =>
    obtain ⟨i, e⟩ := p
    have hs := (tracked_run ht calls).steady.sound
    obtain ⟨live, hn⟩ := resourceSlot_live hs hf
    obtain ⟨n, a, hw, hag⟩ := (reissued_run ht hg calls).2 i e live hn
    have own := ht.numbered.issued r handle earlier his
    have length : w.issued.length = r.length + (earlier.length + 1) := by simp [his]
    exact absurd (own.symm.trans hag) (generationAt_ne (by omega) (by omega) (by omega))

def stateSubtractions (c : Catalog) (e : Entry) : List (ℕ × ℕ) :=
  (if e.state = .ready then [(c.readyCount, 1)] else []) ++
    (if e.state = .failed then [(c.failedCount, 1)] else [])

def removeSubtractions (c : Catalog) (e : Entry) : List (ℕ × ℕ) :=
  (match resourceSlot c e.dependency with
    | some (_, d) => [(d.dependentCount, 1)]
    | none => []) ++
  (ByteField.all.map fun field => (c.bytes field, e.bytes field)) ++
  [(c.resourceCount, 1), (c.countByKind e.kind, 1)] ++ stateSubtractions c e

def beginSubtractions (c : Catalog) (handle : Handle) (evict : Bool) : List (ℕ × ℕ) :=
  match releaseBegin c handle evict, resourceSlot c handle with
  | .ok _, some (_, e) => stateSubtractions c e
  | _, _ => []

def dropSubtractions (c : Catalog) (handle : Handle) : List (ℕ × ℕ) :=
  match resourceDrop c handle, resourceSlot c handle with
  | .ok _, some (_, e) => [(e.consumerCount, 1)]
  | _, _ => []

def endSubtractions (c : Catalog) (handle : Handle) (answer : Option Refusal) : List (ℕ × ℕ) :=
  match answer, resourceSlot c handle with
  | none, some (_, e) => removeSubtractions c e
  | _, _ => []

def World.subtractions (w : World) : Call → List (ℕ × ℕ)
  | .drop handle => dropSubtractions w.catalog handle
  | .release handle evict => beginSubtractions w.catalog handle evict
  | .finishRelease index answer =>
    match w.releases[index]? with
    | some p => endSubtractions w.catalog p.handle (if p.due then answer else none)
    | none => []
  | .closeRelease index =>
    match w.closes[index]? with
    | some (.release candidate) => beginSubtractions w.catalog candidate false
    | _ => []
  | _ => []

variable {i : ℕ} {e : Entry}

section Subtracting

variable {c : Catalog}

theorem stateSubtractions_safe (hs : Sound c) (hl : c.slots i = some e) :
    ∀ p ∈ stateSubtractions c e, p.2 ≤ p.1 := by
  intro p hm
  simp only [stateSubtractions, mem_append] at hm
  rcases hm with hm | hm
  · split_ifs at hm with ready
    · rw [mem_singleton.mp hm]
      exact hs.ready_pos hl ready
    · simp at hm
  · split_ifs at hm with failed
    · rw [mem_singleton.mp hm]
      exact hs.failed_pos hl failed
    · simp at hm

theorem removeSubtractions_safe (hs : Sound c) (hl : c.slots i = some e) :
    ∀ p ∈ removeSubtractions c e, p.2 ≤ p.1 := by
  intro p hm
  simp only [removeSubtractions, mem_append, mem_map, mem_cons, not_mem_nil, or_false] at hm
  rcases hm with ((hm | ⟨f, -, rfl⟩) | rfl | rfl) | hm
  · split at hm
    · rename_i hf
      obtain ⟨hh, hn⟩ := resourceSlot_live hs hf
      rw [mem_singleton.mp hm]
      exact hs.dependent_pos hl hh hn.symm
    · simp at hm
  · exact hs.bytes_le hl f
  · exact hs.resource_pos hl
  · exact hs.kind_pos hl
  · exact stateSubtractions_safe hs hl p hm

theorem beginSubtractions_safe (hs : Sound c) (handle : Handle) (evict : Bool) :
    ∀ p ∈ beginSubtractions c handle evict, p.2 ≤ p.1 := by
  unfold beginSubtractions
  split
  · rename_i hf
    exact stateSubtractions_safe hs (resourceSlot_live hs hf).1
  · simp

theorem dropSubtractions_safe (handle : Handle) : ∀ p ∈ dropSubtractions c handle, p.2 ≤ p.1 := by
  unfold dropSubtractions
  split
  · rename_i d hf
    simp only [resourceDrop, hf] at d
    split_ifs at d with none
    intro p hm
    rw [mem_singleton.mp hm]
    exact Nat.one_le_iff_ne_zero.mpr none
  · simp

theorem endSubtractions_safe (hs : Sound c) (handle : Handle) (a : Option Refusal) :
    ∀ p ∈ endSubtractions c handle a, p.2 ≤ p.1 := by
  unfold endSubtractions
  split
  · rename_i hf
    exact removeSubtractions_safe hs (resourceSlot_live hs hf).1
  · simp

end Subtracting

theorem subtractions_safe (hs : Sound w.catalog) (ca : Call) :
    ∀ p ∈ w.subtractions ca, p.2 ≤ p.1 := by
  cases ca with
  | drop h => exact dropSubtractions_safe h
  | release h he => exact beginSubtractions_safe hs h he
  | finishRelease =>
    simp only [subtractions]
    split
    · exact endSubtractions_safe hs _ _
    · simp
  | closeRelease =>
    simp only [subtractions]
    split
    · exact beginSubtractions_safe hs _ false
    · simp
  | _ => simp [subtractions]

/-- A call empties a slot only when nothing refers to its entry. -/
theorem Moved.released (hmv : Moved w w') (hl : w.catalog.slots i = some e)
    (hg : w'.catalog.slots i = none) : e.consumerCount = 0 ∧ e.dependentCount = 0 := by
  cases hmv with
  | quiet hcl cat =>
    rw [cat] at hg
    simp [hl] at hg
  | @revised j a a' hc rs hd his hds =>
    rw [hc.slots] at hg
    by_cases hh : i = j
    · rw [hh, update_self] at hg
      simp at hg
    · rw [update_of_ne hh, hl] at hg
      simp at hg
  | installed hc =>
    rw [hc.kept hl] at hg
    simp at hg
  | @removed j a hc rs hd his hds =>
    by_cases hh : i = j
    · rw [hh, hc.live] at hl
      obtain rfl := Option.some.inj hl
      exact hc.unreferenced
    · rw [hc.kept hh hl] at hg
      simp at hg

structure Kept (w : World) : Prop where
  accounted : Accounted w.catalog
  releasing : ∀ p ∈ w.releases, ∃ i e, resourceSlot w.catalog p.handle = some (i, e) ∧
    e.consumerCount = 0 ∧ e.dependentCount = 0
  released : ∀ call i e, w.catalog.slots i = some e → (w.step call).catalog.slots i = none →
    e.consumerCount = 0 ∧ e.dependentCount = 0
  freed : w.destroyed = true → ∀ i, w.catalog.slots i = none
  subtractions : ∀ call, ∀ pair ∈ w.subtractions call, pair.2 ≤ pair.1
  retired : ∀ handle recent earlier, w.issued = recent ++ handle :: earlier →
    resourceSlot w.catalog handle = none → ∀ later,
      (run World.step w later).issued.length < earlier.length + wordLimit →
        resourceSlot (run World.step w later).catalog handle = none

theorem Tracked.kept (ht : Tracked w) : Kept w where
  accounted := ht.steady.sound.accounted
  releasing := by
    intro p hm
    obtain ⟨i, e, hl, hn, s⟩ := ht.steady.pending p hm
    have hf := resourceSlot_of_live ht.steady.sound hl
    rw [hn] at hf
    exact ⟨i, e, hf, ht.steady.sound.idle i e hl s⟩
  released := fun ca _ _ hl hg => (step_moved ht.steady ca).released hl hg
  freed := ht.steady.emptied
  subtractions := subtractions_safe ht.steady.sound
  retired := fun _ _ _ his hg _ near => retired_run ht his hg near

/-- Along every run the counters are the sums over the live resources, and a released handle stays
released for a whole cycle of generations. -/
theorem catalog_kept (engineGeneration : ℕ) (identity : Identity) (capacity : ℕ) (allocated : Bool)
    (catalog : Catalog)
    (opened : catalogOpen engineGeneration identity capacity allocated = .ok catalog)
    (calls : List Call) : Kept (run World.step (World.start catalog) calls) :=
  (tracked_run (tracked_start opened) calls).kept

def sampleIdentity : Identity := List.replicate 64 'a'

def sampleRequest : Request where
  kind := .component
  owner := .engine
  lifetime := .engine
  numericClass := .none
  name := some ['c']
  packageIdentity := sampleIdentity
  specializationIdentity := none
  admissionIdentity := none
  dependency := ⟨0, 0, 0⟩
  bytes := fun _ => 0
  preparationNanoseconds := 0
  value := 0
  release := false
  ready := true
  evictable := false

/-- A resource and a second one that depends on it, then an attempt to release the first. -/
theorem catalog_kept_dependent :
    ∃ catalog, catalogOpen 1 sampleIdentity 2 true = .ok catalog ∧
      Kept (run World.step (World.start catalog)
        [.register sampleRequest, .register { sampleRequest with dependency := ⟨1, 1, 1⟩ },
          .release ⟨1, 1, 1⟩ false, .release ⟨1, 2, 2⟩ false, .finishRelease 0 none]) :=
  ⟨_, rfl, catalog_kept 1 sampleIdentity 2 true _ rfl _⟩

structure Single (n : ℕ) (slot : Option Entry) (releases : List PendingRelease) (w : World) :
    Prop where
  engineGeneration : w.catalog.engineGeneration = 1
  capacity : w.catalog.capacity = 1
  slot : w.catalog.slots 0 = slot
  closing : w.catalog.closing = false
  bytes : w.catalog.bytes = fun _ => 0
  preparation : w.catalog.preparationNanoseconds = 0
  next : w.catalog.nextGeneration = generationAt n
  releases : w.releases = releases
  destroyed : w.destroyed = false

def cycleHandle (n : ℕ) : Handle := ⟨1, 1, generationAt (n + 1)⟩

def cycleEntry (n : ℕ) : Entry := registeredEntry sampleRequest (cycleHandle n)

def cycleRelease (n : ℕ) : PendingRelease := ⟨cycleHandle n, false, false, false⟩

def cycle (n : ℕ) : List Call :=
  [.register sampleRequest, .release (cycleHandle n) false, .finishRelease 0 none]

def cyclesFrom (first : ℕ) : ℕ → List Call
  | 0 => []
  | count + 1 => cycle first ++ cyclesFrom (first + 1) count

section Cycling

variable {n : ℕ} {w : World}

theorem Single.register_ok (hs : Single n none [] w) : resourceRegister w.catalog sampleRequest =
      .ok (installEntry w.catalog sampleRequest 0 none (fun _ => 0) 0) := by
  have hv : resourceRequestValid sampleRequest = true := by decide +kernel
  have hf : firstWhere Option.isNone w.catalog.slots w.catalog.capacity = some 0 := by
    rw [hs.capacity]
    simp [firstWhere, range_succ, hs.slot]
  have a : resourceBytesAdd w.catalog.bytes sampleRequest.bytes = some fun _ => 0 := by
    rw [hs.bytes]
    rfl
  have hpr : u64Add w.catalog.preparationNanoseconds sampleRequest.preparationNanoseconds =
      some 0 := by
    rw [hs.preparation]
    rfl
  have hal : resolveDependency w.catalog sampleRequest.dependency = .ok none := rfl
  simp [resourceRegister, hv, hs.closing, hal, hf, a, hpr]

theorem Single.registered (hs : Single n none [] w) :
    Single (n + 1) (some (cycleEntry n)) [] (w.step (.register sampleRequest)) ∧
      (w.step (.register sampleRequest)).issued = cycleHandle n :: w.issued := by
  have hn : (⟨w.catalog.engineGeneration, 0 + 1, generationAfter w.catalog.nextGeneration⟩ :
      Handle) = cycleHandle n := by
    rw [hs.engineGeneration, hs.next, generationAfter_generationAt]
    rfl
  simp only [step_alive hs.destroyed, perform, hs.register_ok, installEntry, hn]
  refine ⟨⟨hs.engineGeneration, hs.capacity, ?_, hs.closing, rfl, rfl, ?_,
    hs.releases, hs.destroyed⟩, trivial⟩
  · exact update_self 0 _ w.catalog.slots
  · rw [hs.next, generationAfter_generationAt]

theorem Single.found {rs : List PendingRelease} (hsi : Single (n + 1) (some e) rs w)
    (hn : e.handle = cycleHandle n) : resourceSlot w.catalog (cycleHandle n) = some (0, e) := by
  have hnn := generationAt_succ_ne_zero n
  simp [resourceSlot, cycleHandle, hsi.engineGeneration, hsi.capacity, hnn, hsi.slot, hn]

theorem Single.begun (hh : Single (n + 1) (some (cycleEntry n)) [] w) :
    Single (n + 1) (some { cycleEntry n with state := .releasing }) [cycleRelease n]
      (w.step (.release (cycleHandle n) false)) := by
  have hf := hh.found rfl
  have hp : (cycleHandle n).present = true := rfl
  have hb : releaseBegin w.catalog (cycleHandle n) false =
      .ok ({ w.catalog.setSlot 0 (some { cycleEntry n with state := .releasing }) with
        readyCount := wordSub w.catalog.readyCount 1 }, false) := by
    have idle : ¬((cycleEntry n).state = .releasing ∨ (cycleEntry n).consumerCount ≠ 0 ∨
        (cycleEntry n).dependentCount ≠ 0 ∨ (False ∧ (!(cycleEntry n).evictable) = true)) := by
      simp [cycleEntry, registeredEntry, sampleRequest]
    have hr : (cycleEntry n).state = .ready := rfl
    have hu : (cycleEntry n).state ≠ .failed := by simp [hr]
    have hs : (cycleEntry n).release = false := rfl
    simp only [releaseBegin, hp, Bool.not_true, Bool.false_eq_true, if_false, hf]
    rw [if_neg idle, if_pos hr, if_neg hu, hs]
    simp only [Catalog.setSlot]
  simp only [step_alive hh.destroyed, perform, beginRelease, hb, hh.releases]
  refine ⟨hh.engineGeneration, hh.capacity, ?_, hh.closing, hh.bytes,
    hh.preparation, hh.next, rfl, hh.destroyed⟩
  exact update_self 0 _ w.catalog.slots

theorem Single.finished
    (hs : Single (n + 1) (some { cycleEntry n with state := .releasing }) [cycleRelease n] w) :
    Single (n + 1) none [] (w.step (.finishRelease 0 none)) := by
  have hf := hs.found rfl
  obtain ⟨s, f⟩ := resourceDependencyDrop_frame (c := w.catalog)
    { cycleEntry n with state := .releasing }
  have hr : (releaseEnd w.catalog (cycleHandle n) false none).1 =
      resourceRemove w.catalog 0 { cycleEntry n with state := .releasing } false := by
    simp only [releaseEnd, hf]
  have hen : w.step (.finishRelease 0 none) = w.endRelease 0 (cycleRelease n) none := by
    simp only [step_alive hs.destroyed, perform, hs.releases, getElem?_cons_zero]
  have hc : (w.endRelease 0 (cycleRelease n) none).catalog =
      resourceRemove w.catalog 0 { cycleEntry n with state := .releasing } false := hr
  rw [resourceRemove, f] at hc
  rw [hen]
  have zero : wordSub 0 0 = 0 := wordSub_eq le_rfl (by decide)
  refine ⟨?_, ?_, ?_, ?_, ?_, ?_, ?_, congrArg (·.eraseIdx 0) hs.releases, hs.destroyed⟩
  all_goals rw [hc]
  · exact hs.engineGeneration
  · exact hs.capacity
  · exact update_self 0 _ s
  · exact hs.closing
  · rw [hs.bytes]
    exact funext fun _ => zero
  · exact hs.preparation
  · exact hs.next

theorem Single.cycled (hsi : Single n none [] w) :
    Single (n + 1) none [] (run World.step w (cycle n)) :=
  hsi.registered.1.begun.finished

theorem Single.cycles (hsi : Single n none [] w) (m : ℕ) :
    Single (n + m) none [] (run World.step w (cyclesFrom n m)) := by
  induction m generalizing n w with
  | zero => exact hsi
  | succ m ih =>
    have r := ih hsi.cycled
    rwa [Nat.add_assoc, Nat.add_comm 1 m] at r

theorem Single.unresolved (hsi : Single n none [] w) (k : ℕ) :
    resourceSlot w.catalog (cycleHandle k) = none := by
  unfold resourceSlot
  split_ifs
  · rfl
  · simp only [cycleHandle, Nat.sub_self, hsi.slot]

end Cycling

theorem recurs_after {m : ℕ} (hag : cycleHandle (1 + m) = cycleHandle 0) :
    ∃ cat b l handle, catalogOpen 1 sampleIdentity 1 true = .ok cat ∧
      handle ∈ (run World.step (World.start cat) b).issued ∧
      resourceSlot (run World.step (World.start cat) b).catalog handle = none ∧
      (resourceSlot (run World.step (World.start cat) (b ++ l)).catalog handle).isSome = true := by
  obtain ⟨cat, hop, start⟩ : ∃ cat, catalogOpen 1 sampleIdentity 1 true = .ok cat ∧
      Single 0 none [] (start cat) :=
    ⟨_, rfl, rfl, rfl, rfl, rfl, rfl, rfl, rfl, rfl, rfl⟩
  have lap := (start.cycled.cycles m).registered.1.found rfl
  rw [Nat.zero_add, hag] at lap
  refine ⟨cat, cycle 0, cyclesFrom 1 m ++ [.register sampleRequest], cycleHandle 0, hop,
    ?_, start.cycled.unresolved 0, ?_⟩
  · have registered := tracked_step (.register sampleRequest) (tracked_start hop)
    have hb := tracked_step (.release (cycleHandle 0) false) registered
    have h1 := (step_moved registered.steady (.release (cycleHandle 0) false)).issued_suffix
    have h2 := (step_moved hb.steady (.finishRelease 0 none)).issued_suffix
    apply (h1.trans h2).subset
    rw [start.registered.2]
    exact mem_cons_self
  · rw [run_append, run_append]
    exact Option.isSome_iff_exists.mpr ⟨_, lap⟩

/-- With one slot, the generation of the first resource returns when the counter wraps. -/
theorem released_handle_recurs :
    ∃ catalog before later handle, catalogOpen 1 sampleIdentity 1 true = .ok catalog ∧
      handle ∈ (run World.step (World.start catalog) before).issued ∧
      resourceSlot (run World.step (World.start catalog) before).catalog handle = none ∧
      (resourceSlot (run World.step (World.start catalog) (before ++ later)).catalog
        handle).isSome = true := by
  have limit : 2 < wordLimit := by decide
  obtain ⟨count, whole⟩ : ∃ count, 1 + count = wordLimit - 1 := ⟨wordLimit - 2, by omega⟩
  refine recurs_after (?_ : cycleHandle (1 + count) = cycleHandle 0)
  rw [whole]
  simp only [cycleHandle, generationAt, Nat.mod_self, Nat.zero_mod]

end Yvex.ResourceCatalog
