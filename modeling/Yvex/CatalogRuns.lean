import Yvex.CatalogSteps

/-!
# Runs of the resource catalog

Whatever the calls and their order, each one makes a single change to the slots.
The pending releases stay paired with the entries they are releasing.
-/

set_option autoImplicit false

namespace Yvex.ResourceCatalog

open AttentionData CheckedArithmetic SlotTable Runs WordCounter World List

structure Steady (w : World) : Prop where
  sound : Sound w.catalog
  pending : ∀ p ∈ w.releases, ∃ i e, w.catalog.slots i = some e ∧ e.handle = p.handle ∧
    e.state = .releasing
  distinct : (w.releases.map PendingRelease.handle).Nodup
  emptied : w.destroyed = true → ∀ i, w.catalog.slots i = none

inductive Moved (w : World) : World → Prop where
  | quiet {w' : World} (closing : Bool)
      (catalog : w'.catalog = { w.catalog with closing := closing })
      (releases : w'.releases.Sublist w.releases) (issued : w'.issued = w.issued)
      (emptied : w'.destroyed = true → ∀ i, w.catalog.slots i = none) : Moved w w'
  | revised {w' : World} {i : ℕ} {e e' : Entry} (change : Revision w.catalog w'.catalog i e e')
      (releases : ∀ p ∈ w'.releases, (p ∈ w.releases ∧ p.handle ≠ e.handle) ∨
        (p.handle = e.handle ∧ e'.state = .releasing))
      (distinct : (w'.releases.map PendingRelease.handle).Nodup)
      (issued : w'.issued = w.issued) (destroyed : w'.destroyed = false) : Moved w w'
  | installed {w' : World} {i : ℕ} {new : Entry} (change : Installation w.catalog w'.catalog i new)
      (releases : w'.releases = w.releases) (issued : w'.issued = new.handle :: w.issued)
      (generation : new.handle.generation = generationAfter w.catalog.nextGeneration)
      (next : w'.catalog.nextGeneration = generationAfter w.catalog.nextGeneration)
      (destroyed : w'.destroyed = false) : Moved w w'
  | removed {w' : World} {i : ℕ} {e : Entry} (change : Removal w.catalog w'.catalog i e)
      (releases : ∀ p ∈ w'.releases, p ∈ w.releases ∧ p.handle ≠ e.handle)
      (distinct : (w'.releases.map PendingRelease.handle).Nodup)
      (issued : w'.issued = w.issued) (destroyed : w'.destroyed = false) : Moved w w'

variable {c : Catalog}

theorem Sound.closing (hs : Sound c) (cl : Bool) : Sound { c with closing := cl } where
  small := hs.small
  placed := hs.placed
  anchored := hs.anchored
  bounded := hs.bounded
  consumers := hs.consumers
  idle := hs.idle
  accounted := { hs.accounted with }

variable {w : World} {w' : World}

/-- Every move keeps the invariant of a run. -/
theorem Moved.steady (hmv : Moved w w') (hh : Steady w) : Steady w' := by
  cases hmv with
  | quiet cl cat rs his hem =>
    have sl : w'.catalog.slots = w.catalog.slots := by rw [cat]
    refine ⟨by rw [cat]; exact hh.sound.closing cl, ?_, ?_, ?_⟩
    · intro p hm
      rw [sl]
      exact hh.pending p (rs.subset hm)
    · exact (rs.map _).nodup hh.distinct
    · rw [sl]
      exact hem
  | @revised i e e' hc rs hd his hds =>
    refine ⟨hc.sound hh.sound, ?_, hd, by simp [hds]⟩
    intro p hm
    rcases rs p hm with ⟨old, ha⟩ | ⟨hn, s⟩
    · obtain ⟨k, a, hl, hs, hr⟩ := hh.pending p old
      have ho := slot_ne hl hc.live (hs.trans_ne ha)
      exact ⟨k, a, by rw [hc.slots, Function.update_of_ne ho]; exact hl, hs, hr⟩
    · refine ⟨i, e', by rw [hc.slots, Function.update_self], ?_, s⟩
      rw [hc.handle, hn]
  | installed hc rs his g next hds =>
    refine ⟨hc.sound hh.sound, ?_, by rw [rs]; exact hh.distinct, by simp [hds]⟩
    intro p hm
    rw [rs] at hm
    obtain ⟨k, a, hl, hs, hr⟩ := hh.pending p hm
    exact ⟨k, _, hc.kept hl, hs, hr⟩
  | @removed i e hc rs hd his hds =>
    refine ⟨hc.sound hh.sound, ?_, hd, by simp [hds]⟩
    intro p hm
    obtain ⟨old, ha⟩ := rs p hm
    obtain ⟨k, a, hl, hs, hr⟩ := hh.pending p old
    have ho := slot_ne hl hc.live (hs.trans_ne ha)
    exact ⟨k, _, hc.kept ho hl, hs, hr⟩

theorem Moved.still (cat : w'.catalog = w.catalog)
    (rs : w'.releases.Sublist w.releases) (his : w'.issued = w.issued)
    (hds : w'.destroyed = false) : Moved w w' :=
  .quiet w.catalog.closing (by rw [cat]) rs his (by simp [hds])

/-- A revision of an entry that is not being released leaves the pending releases alone. -/
theorem Moved.of_revision (hst : Steady w) {i : ℕ} {e e' : Entry}
    (hc : Revision w.catalog w'.catalog i e e') (s : e.state ≠ .releasing)
    (rs : w'.releases = w.releases) (his : w'.issued = w.issued) (hds : w'.destroyed = false) :
    Moved w w' := by
  apply Moved.revised hc ?_ (by rw [rs]; exact hst.distinct) his hds
  intro p hm
  rw [rs] at hm
  refine .inl ⟨hm, ?_⟩
  intro hn
  obtain ⟨k, a, hl, hs, hrl⟩ := hst.pending p hm
  obtain rfl := hst.sound.entry_unique hl hc.live (hs.trans hn)
  exact s hrl

theorem adopt_moved (hs : Steady w) (ha : w.destroyed = false) {r : Except Refusal Catalog}
    (hr : ∀ c', r = .ok c' → ∃ i e e', Revision w.catalog c' i e e' ∧ e.state ≠ .releasing) :
    Moved w (w.adopt r) := by
  cases r with
  | error => exact .still rfl (.refl _) rfl ha
  | ok c' =>
    obtain ⟨i, e, e', hc, s⟩ := hr c' rfl
    exact .of_revision hs hc s rfl rfl ha

theorem beginRelease_moved (w₀ : World) (hh : Steady w) (hal : w₀.destroyed = false)
    (cat : w₀.catalog = w.catalog) (rs : w₀.releases = w.releases) (his : w₀.issued = w.issued)
    (target : Handle) (evict closer : Bool) : Moved w (w₀.beginRelease target evict closer) := by
  unfold beginRelease
  split
  · rename_i d
    rw [cat] at d
    obtain ⟨i, e, e', hc, s, hrl, hn⟩ := releaseBegin_revision hh.sound d
    -- The entry was not being released, so no pending release has its handle.
    have ha : ∀ p ∈ w.releases, p.handle ≠ e.handle := by
      intro p hm hs
      obtain ⟨k, a, hl, hsm, st⟩ := hh.pending p hm
      obtain rfl := hh.sound.entry_unique hl hc.live (hsm.trans hs)
      exact s st
    refine .revised (i := i) (e := e) hc ?_ ?_ his hal
    · intro p hm
      rcases mem_cons.mp hm with rfl | old
      · exact .inr ⟨hn.symm, hrl⟩
      · rw [rs] at old
        exact .inl ⟨old, ha p old⟩
    · rw [map_cons, nodup_cons, rs]
      refine ⟨?_, hh.distinct⟩
      rw [mem_map]
      rintro ⟨p, hm, hs⟩
      exact ha p hm (hs.trans hn.symm)
  · exact .still cat (by rw [rs]) his hal

variable {ix : ℕ} {p : PendingRelease}

theorem eraseIdx_apart {rs : List PendingRelease} (hd : (rs.map PendingRelease.handle).Nodup)
    (at_index : rs[ix]? = some p) : ∀ q ∈ rs.eraseIdx ix, q ∈ rs ∧ q.handle ≠ p.handle := by
  intro q hm
  obtain ⟨j, ho, at_j⟩ := mem_eraseIdx_iff_getElem?.mp hm
  refine ⟨mem_of_getElem? at_j, ?_⟩
  intro hs
  have hin : j < (rs.map PendingRelease.handle).length := by
    rw [length_map]
    exact (List.getElem?_eq_some_iff.mp at_j).1
  apply ho
  apply (getElem?_inj hin hd).mp
  rw [getElem?_map, getElem?_map, at_j, at_index, Option.map_some, Option.map_some, hs]

theorem endRelease_moved (hs : Steady w) (hal : w.destroyed = false)
    (at_index : w.releases[ix]? = some p) (a : Option Refusal) :
    Moved w (w.endRelease ix p a) := by
  obtain ⟨i, e, hl, hn, s⟩ := hs.pending p (mem_of_getElem? at_index)
  have ha := eraseIdx_apart hs.distinct at_index
  have hd : ((w.releases.eraseIdx ix).map PendingRelease.handle).Nodup :=
    ((eraseIdx_sublist w.releases ix).map _).nodup hs.distinct
  have hh := hs.sound
  cases hg : (if p.due then a else none) with
  | none =>
    have hf := resourceSlot_of_live hh hl
    have hc := resourceRemove_removal hh hl (hh.idle i e hl s) p.evict
    rw [hn] at hf
    have hmv : Removal w.catalog (w.endRelease ix p a).catalog i e := by
      simpa only [endRelease, hg, releaseEnd, hf] using hc
    refine .removed hmv ?_ hd rfl hal
    rw [hn]
    exact ha
  | some r =>
    obtain ⟨e', hc⟩ := releaseEnd_failed p.evict r hh hl hn s
    have hmv : Revision w.catalog (w.endRelease ix p a).catalog i e e' := by
      simpa only [endRelease, hg] using hc
    refine .revised hmv ?_ hd rfl hal
    rw [hn]
    exact fun q hm => .inl (ha q hm)

variable {reason : String}

theorem closeScan_emptied (hs : Sound c) (d : closeScan c reason = .ok none) (i : ℕ) :
    c.slots i = none := by
  unfold closeScan at d
  split at d
  · simp at d
  split_ifs at d with zero
  cases live : c.slots i with
  | none => rfl
  | some e =>
    have hp := hs.resource_pos live
    omega

theorem scanned_moved {w₀ : World} (hs : Steady w) (ha : w₀.destroyed = false)
    (cl : Bool) (cat : w₀.catalog = { w.catalog with closing := cl })
    (rs : w₀.releases = w.releases) (his : w₀.issued = w.issued)
    (hsc : c = { w.catalog with closing := cl }) :
    Moved w (w₀.scanned (closeScan c reason)) := by
  have hsb : w₀.releases.Sublist w.releases := by rw [rs]
  cases hf : closeScan c reason with
  | error => exact .quiet cl cat hsb his (by simp [scanned, ha])
  | ok ca =>
    cases ca with
    | some => exact .quiet cl cat hsb his (by simp [scanned, ha])
    | none =>
      have hso : Sound c := by rw [hsc]; exact hs.sound.closing cl
      have hem := closeScan_emptied hso hf
      rw [hsc] at hem
      exact .quiet cl cat hsb his fun _ => hem

/-- All a call does to the catalog is one of a few moves. -/
theorem step_moved (hs : Steady w) (ca : Call) : Moved w (w.step ca) := by
  by_cases hg : w.destroyed = true
  · rw [step, if_pos hg]
    exact .quiet w.catalog.closing rfl (.refl _) rfl hs.emptied
  have ha : w.destroyed = false := by simpa using hg
  rw [step_alive ha]
  have hh := hs.sound
  have hu : Moved w w := .still rfl (.refl _) rfl ha
  cases ca with
  | register rt =>
    simp only [perform]
    split
    · rename_i d
      obtain ⟨i, new, hc, rfl, g, next⟩ := resourceRegister_installation hh d
      exact .installed hc rfl rfl g next ha
    · exact hu
  | acquire h =>
    apply adopt_moved hs ha
    intro c' d
    cases r : resourceAcquire w.catalog h with
    | error => simp [r, Except.map] at d
    | ok =>
      simp only [r, Except.map, Except.ok.injEq] at d
      subst d
      exact resourceAcquire_revision hh r
  | publishReady => exact adopt_moved hs ha fun c' d => resourcePublishReady_revision hh d
  | drop => exact adopt_moved hs ha fun c' d => resourceDrop_revision hh d
  | release h he => exact beginRelease_moved w hs ha rfl rfl rfl h he false
  | finishRelease ix a =>
    simp only [perform]
    split
    · rename_i at_index
      exact endRelease_moved hs ha at_index a
    · exact hu
  | loseRelease => exact .still rfl (eraseIdx_sublist _ _) rfl ha
  | close => exact scanned_moved hs ha true rfl rfl rfl rfl
  | closeRelease ix =>
    simp only [perform]
    split
    · rename_i hcd _
      exact beginRelease_moved { w with closes := w.closes.eraseIdx ix } hs ha rfl rfl rfl
        hcd false true
    · exact hu
  | closeRescan =>
    simp only [perform]
    split
    · exact scanned_moved hs ha w.catalog.closing rfl rfl rfl rfl
    · exact hu

theorem steady_run (hs : Steady w) (cs : List Call) : Steady (run World.step w cs) :=
  run_invariant (P := fun w : World => Steady w) (fun _ ca hs => (step_moved hs ca).steady hs) hs cs

theorem steady_start {e cap : ℕ} {i : Identity} {allocated : Bool}
    (hop : catalogOpen e i cap allocated = .ok c) :
    Steady (World.start c) := by
  unfold catalogOpen at hop
  split_ifs at hop with bad
  push Not at bad
  obtain ⟨-, -, -, hsm⟩ := bad
  obtain rfl := Except.ok.inj hop
  refine ⟨⟨hsm, by simp [start], by simp [start], ?_, by simp [start],
    by simp [start], ?_⟩, by simp [start], nodup_nil, by simp [start]⟩
  · intro f
    change 0 < wordLimit
    decide
  · refine ⟨fun f => ?_, ?_, ?_, ?_, fun k => ?_, by simp [start]⟩
    all_goals exact (total_eq_zero fun _ _ => rfl).symm

end Yvex.ResourceCatalog
