import Yvex.EngineSlots
import Yvex.Runs

/-!
# Leases of the engine manager

For every interleaving of the critical sections, the counters of a slot are the
leases that are out, an engine is closed only when none is out, and what was
taken from an earlier occupant of a slot does not reach the present one. Every
step of every thread keeps this and the threads' hold on their slots.
-/

set_option autoImplicit false

namespace Yvex.EngineManager

open AttentionData ServerEnums Function SlotTable CheckedArithmetic

variable {m a : Manager} {world : World}

def Opened (state : EngineState) : Prop := state = .loading ∨ Occupied state

structure Closings (manager : Manager) (issued closes : List ℕ) : Prop where
  living : ∀ i, i < manager.capacity → Opened (manager.engines i).state →
    (manager.engines i).generation ∉ closes
  once : closes.Nodup
  known : ∀ generation ∈ closes, generation ∈ issued

variable {issued c : List ℕ}

theorem Closings.same (h : Closings m issued c) (hn : SameNames m a)
    (hs : ∀ i, i < m.capacity → Opened (a.engines i).state →
      Opened (m.engines i).state) : Closings a issued c where
  living i hb opened := by
    rw [hn.capacity] at hb
    rw [hn.generations]
    exact h.living i hb (hs i hb opened)
  once := h.once
  known := h.known

variable {s : ℕ}

theorem Closings.close (h : Closings m issued c) (hnm : Naming m issued) (hna : SameNames m a)
    (hn : ∀ i, i < m.capacity → Opened (m.engines i).state →
      (m.engines i).modelAlias ≠ []) (hb : s < m.capacity)
    (hop : Opened (m.engines s).state) (hc : ¬ Opened (a.engines s).state)
    (hst : ∀ i, i < m.capacity → Opened (a.engines i).state → Opened (m.engines i).state) :
    Closings a issued (c ++ [(m.engines s).generation]) where
  living i hi still := by
    rw [hna.capacity] at hi
    have b := hst i hi still
    rw [hna.generations, List.mem_append, List.mem_singleton, not_or]
    constructor
    · exact h.living i hi b
    · intro heq
      have hs := hnm.generations i s hi hb (hn i hi b) (hn s hb hop) heq
      subst hs
      exact hc still
  once := by
    rw [List.nodup_append_comm, List.singleton_append, List.nodup_cons]
    exact ⟨h.living s hb hop, h.once⟩
  known g hm := by
    rw [List.mem_append, List.mem_singleton] at hm
    obtain hm | rfl := hm
    · exact h.known g hm
    · exact hnm.known s hb (hn s hb hop)

theorem Closings.load {n : Text} (h : Closings m issued c) (hfr : m.nextGeneration ∉ issued) :
    Closings (reserved m s n) (issued ++ [m.nextGeneration]) c where
  living i hb opened := by
    by_cases hs : i = s
    · subst hs
      rw [reserved_self]
      exact fun hm => hfr (h.known _ hm)
    · rw [reserved_other n hs] at opened ⊢
      exact h.living i hb opened
  once := h.once
  known g hm := List.mem_append_left _ (h.known g hm)

def Working (manager : Manager) : Phase → Prop
  | .idle => True
  | .loading slot generation name => slot < manager.capacity ∧ name ≠ [] ∧
      manager.engines slot = ⟨.loading, generation, 1, 0, name⟩
  | .draining slot generation => slot < manager.capacity ∧
      (manager.engines slot).modelAlias ≠ [] ∧ (manager.engines slot).state = .draining ∧
      (manager.engines slot).generation = generation ∧ (manager.engines slot).modelLeaseCount = 0
  | .unloading slot generation => slot < manager.capacity ∧
      (manager.engines slot).modelAlias ≠ [] ∧ (manager.engines slot).state = .unloading ∧
      (manager.engines slot).generation = generation

def Undisturbed (engine engine' : Engine) : Prop :=
  engine' = engine ∨
    Occupied engine.state ∧ engine'.state = engine.state ∧
      engine'.generation = engine.generation ∧ engine'.modelAlias = engine.modelAlias ∧
      engine'.modelLeaseCount ≤ engine.modelLeaseCount

variable {ph : Phase}

theorem Working.undisturbed (h : Working m ph)
    (c : a.capacity = m.capacity) (hk : ∀ s, ph.slot = some s →
      Undisturbed (m.engines s) (a.engines s)) : Working a ph := by
  cases ph with
  | idle => trivial
  | loading s =>
    obtain ⟨hb, hne, en⟩ := h
    obtain hs | ⟨ho, -⟩ := hk s rfl
    · exact ⟨c ▸ hb, hne, hs.trans en⟩
    · rw [en] at ho
      simp [Occupied] at ho
  | draining s g =>
    obtain ⟨hb, hne, st, hc, count⟩ := h
    obtain hs | ⟨-, st', hc', ha', count'⟩ := hk s rfl
    · exact ⟨c ▸ hb, by rwa [hs], by rwa [hs], by rwa [hs], by rwa [hs]⟩
    · exact ⟨c ▸ hb, by rwa [ha'], by rwa [st'], by rwa [hc'], by omega⟩
  | unloading s g =>
    obtain ⟨hb, hne, st, hc⟩ := h
    obtain hs | ⟨ho, -⟩ := hk s rfl
    · exact ⟨c ▸ hb, by rwa [hs], by rwa [hs], by rwa [hs]⟩
    · rw [st] at ho
      simp [Occupied] at ho

theorem Working.engaged (h : Working m ph) (ha : ph.slot = some s) :
    s < m.capacity ∧ ¬ Replaceable (m.engines s) ∧ (m.engines s).state ≠ .loaded := by
  cases ph with
  | idle => cases ha
  | loading =>
    cases ha
    obtain ⟨hb, hn, en⟩ := h
    exact ⟨hb, by simp [en, Replaceable, hn], by simp [en]⟩
  | draining | unloading =>
    cases ha
    obtain ⟨hb, hn, st, -⟩ := h
    exact ⟨hb, by simp [st, Replaceable, hn], by simp [st]⟩

structure Crew (manager : Manager) (threads : ℕ → Phase) : Prop where
  working : ∀ thread, Working manager (threads thread)
  alone : ∀ thread other slot, (threads thread).slot = some slot →
    (threads other).slot = some slot → thread = other

variable {th : ℕ → Phase}

theorem Crew.undisturbed (h : Crew m th) (c : a.capacity = m.capacity)
    (hk : ∀ t s, (th t).slot = some s → Undisturbed (m.engines s) (a.engines s)) : Crew a th where
  working t := (h.working t).undisturbed c (hk t)
  alone := h.alone

variable {t : ℕ}

theorem Crew.become (a : Manager) (h : Crew m th) (c : a.capacity = m.capacity)
    (hk : ∀ o s, o ≠ t → (th o).slot = some s → a.engines s = m.engines s) (hw : Working a ph)
    (hf : ∀ o s, o ≠ t → ph.slot = some s →
      (th o).slot ≠ some s) : Crew a (Function.update th t ph) where
  working o := by
    by_cases hs : o = t
    · subst hs
      rwa [update_self]
    · rw [update_of_ne hs]
      exact (h.working o).undisturbed c fun s ha => Or.inl (hk o s hs ha)
  alone first h2 s := by
    by_cases ho : first = t <;> by_cases two : h2 = t
    · intro _ _
      rw [ho, two]
    · subst ho
      rw [update_self, update_of_ne two]
      intro hm ht
      exact absurd ht (hf h2 s two hm)
    · subst two
      rw [update_self, update_of_ne ho]
      intro ht hm
      exact absurd ht (hf first s ho hm)
    · rw [update_of_ne ho, update_of_ne two]
      exact h.alone first h2 s

def Closer.past : Closer → Bool
  | .serving => false
  | .waiting => false
  | .closing _ => true
  | .gone => true

def Closer.passed (capacity : ℕ) : Closer → ℕ
  | .serving => 0
  | .waiting => 0
  | .closing next => next
  | .gone => capacity

def occupants (manager : Manager) (count : ℕ) : List ℕ :=
  (List.range count).filterMap fun i =>
    if (manager.engines i).modelAlias = [] then none else some (manager.engines i).generation

structure Ending (manager : Manager) (closer : Closer) (finals : List ℕ) : Prop where
  flag : closer ≠ .serving → manager.closing = true
  drained : closer.past = true → ∀ i, i < manager.capacity → (manager.engines i).activeWork = 0
  bounded : closer.passed manager.capacity ≤ manager.capacity
  finals : finals = occupants manager (closer.passed manager.capacity)

variable {cl : Closer} {f : List ℕ}

theorem Ending.same (h : Ending m cl f) (hn : SameNames m a) (fl : a.closing = m.closing)
    (hd : cl.past = true → ∀ i, i < m.capacity →
      (a.engines i).activeWork ≤ (m.engines i).activeWork) :
    Ending a cl f where
  flag := by
    rw [fl]
    exact h.flag
  drained past i hb := by
    rw [hn.capacity] at hb
    have none := h.drained past i hb
    have less := hd past i hb
    omega
  bounded := by
    rw [hn.capacity]
    exact h.bounded
  finals := by
    rw [h.finals, hn.capacity]
    simp only [occupants, hn.aliases, hn.generations]

theorem Ending.serving (h : Ending m cl f) (fl : m.closing = false) : cl = .serving := by
  by_contra started
  rw [h.flag started] at fl
  cases fl

/-- While the manager is served, nothing depends on its slots. -/
theorem Ending.admit (h : Ending m cl f) (ho : m.closing = false) :
    Ending a cl f := by
  have hsr := h.serving ho
  have none := h.finals
  subst hsr
  constructor
  · intro hs
    exact absurd rfl hs
  · nofun
  · exact Nat.zero_le _
  · exact none

variable {sha : Sha256} {m a : Manager} {w : World}

structure Kept (world : World) : Prop where
  naming : Naming world.manager world.issued
  slots : ∀ i, i < world.manager.capacity → SlotKept world.manager world.leases i
  owned : ∀ lease ∈ world.leases, lease.engine < world.manager.capacity
  recorded : ∀ k, k < world.manager.modelLeaseCapacity →
    (world.manager.modelLeases k).identity ≠ [] →
    (world.manager.modelLeases k).engine < world.manager.capacity
  closings : Closings world.manager world.issued world.closes
  crew : Crew world.manager world.threads
  ending : Ending world.manager world.closer world.finalCloses

theorem managerOpen_kept {c r rq : ℕ} (hop : managerOpen c r rq = .ok m) :
    Kept (World.start m) := by
  unfold managerOpen at hop
  split_ifs at hop
  cases hop
  constructor
  · constructor <;> simp [World.start, Engine.zero]
    decide
  · intro i hb
    constructor <;> simp [World.start, Engine.zero]
    rw [tally_eq_zero]
    simp [liveRecord]
  · simp [World.start]
  · simp [World.start]
  · constructor <;> simp [World.start]
  · constructor <;> simp [World.start, Working, Phase.slot]
  · constructor <;> simp [World.start, Closer.past, Closer.passed, occupants]

variable {i : ℕ}

theorem Kept.named (h : Kept w) (hb : i < w.manager.capacity)
    (hop : Opened (w.manager.engines i).state) : (w.manager.engines i).modelAlias ≠ [] := by
  intro he
  have hu := (h.slots i hb).blank he
  rw [hu] at hop
  simp [Opened, Occupied] at hop

theorem Kept.unoccupied (h : Kept w) (hb : i < w.manager.capacity)
    (free : Replaceable (w.manager.engines i)) : ¬ Occupied (w.manager.engines i).state := by
  obtain he | hu | hf := free
  · simp [Occupied, (h.slots i hb).blank he]
  · simp [Occupied, hu]
  · simp [Occupied, hf]

theorem loadStep_kept (h : Kept w) (t : ℕ) (n : Text)
    (hr : w.issued.length + 1 < wordLimit) : Kept (loadStep w t n) := by
  unfold loadStep
  split
  · next s g a idle ok =>
    obtain ⟨hv, hc, hch, rfl, rfl⟩ := loadReserve_ok ok
    obtain ⟨hb, hf, -⟩ := engineReserve_some hch
    have hun := h.unoccupied hb hf
    have hne : n ≠ [] := by
      rintro rfl
      simp [aliasValid] at hv
    have hu : ∀ o, (w.threads o).slot ≠ some s := fun o hen =>
      ((h.crew.working o).engaged hen).2.1 hf
    constructor
    · exact h.naming.load hch hv hr
    · intro i hi
      by_cases hs : i = s
      · subst hs
        exact (h.slots i hi).vacant (reserved w.manager i n) hun rfl rfl
          (by simp [hne]) (by simp) (by simp)
      · exact (h.slots i hi).other (reserved_other n hs) rfl rfl fun _ _ => rfl
    · exact h.owned
    · exact h.recorded
    · exact h.closings.load (h.naming.fresh hr)
    · apply h.crew.become (reserved w.manager s n) rfl
      · intro o at_ _ hen
        apply reserved_other
        rintro rfl
        exact hu o hen
      · exact ⟨hb, hne, reserved_self s n⟩
      · intro o at_ _ hm
        cases hm
        exact hu o
    · exact h.ending.admit hc
  · exact h

structure Replaces (manager after : Manager) (slot : ℕ) : Prop where
  capacity : after.capacity = manager.capacity
  next : after.nextGeneration = manager.nextGeneration
  others : ∀ i, i ≠ slot → after.engines i = manager.engines i
  alias_eq : (after.engines slot).modelAlias = (manager.engines slot).modelAlias
  generation : (after.engines slot).generation = (manager.engines slot).generation

variable {s : ℕ}

theorem Replaces.names (he : Replaces m a s) : SameNames m a where
  capacity := he.capacity
  next := he.next
  aliases i := by
    by_cases hh : i = s
    · rw [hh]
      exact he.alias_eq
    · rw [he.others i hh]
  generations i := by
    by_cases hh : i = s
    · rw [hh]
      exact he.generation
    · rw [he.others i hh]

variable {e : Engine}

theorem replaces_set (alias_eq : e.modelAlias = (m.engines s).modelAlias)
    (g : e.generation = (m.engines s).generation) : Replaces m (m.set s e) s where
  capacity := rfl
  next := rfl
  others _ ho := set_other e ho
  alias_eq := by rw [set_self, alias_eq]
  generation := by rw [set_self, g]

theorem replaces_setWork (m : Manager) (s work : ℕ) : Replaces m (setWork m s work) s :=
  replaces_set rfl rfl

theorem replaces_setState (m : Manager) (s : ℕ) (st : EngineState) :
    Replaces m (setState m s st) s :=
  replaces_set rfl rfl

theorem Replaces.opened (hef : Replaces m a s)
    (hh : Opened (a.engines s).state → Opened (m.engines s).state) :
    ∀ i, i < m.capacity → Opened (a.engines i).state → Opened (m.engines i).state := by
  intro i _ hst
  by_cases hs : i = s
  · rw [hs] at hst ⊢
    exact hh hst
  · rwa [hef.others i hs] at hst

theorem Replaces.ending (hef : Replaces m a s) (h : Ending m cl f) (flag : a.closing = m.closing)
    (hl : (a.engines s).activeWork ≤ (m.engines s).activeWork) : Ending a cl f := by
  apply h.same hef.names flag
  intro _ i _
  by_cases hs : i = s
  · rw [hs]
    exact hl
  · rw [hef.others i hs]

theorem Kept.hold (h : Kept w) {ls : List Lease} (hef : Replaces w.manager a s)
    (ss : ∀ i, i < w.manager.capacity → SlotKept a ls i)
    (ho : ∀ l ∈ ls, l.engine < w.manager.capacity)
    (hr : ∀ k, k < a.modelLeaseCapacity → (a.modelLeases k).identity ≠ [] →
      (a.modelLeases k).engine < w.manager.capacity)
    (st : (a.engines s).state = (w.manager.engines s).state)
    (hc : ∀ t, (w.threads t).slot = some s → Undisturbed (w.manager.engines s) (a.engines s))
    (he : Ending a w.closer w.finalCloses) :
    Kept { w with manager := a, leases := ls } where
  naming := h.naming.same hef.names
  slots i hb := ss i (hef.capacity ▸ hb)
  owned l hm := by
    have hb := ho l hm
    rwa [← hef.capacity] at hb
  recorded k hb live := by
    have hbe := hr k hb live
    rwa [← hef.capacity] at hbe
  closings := h.closings.same hef.names (hef.opened (by rw [st]; exact id))
  crew := by
    apply h.crew.undisturbed hef.capacity
    intro t at_ hen
    by_cases hh : at_ = s
    · subst hh
      exact hc t hen
    · exact .inl (hef.others at_ hh)
  ending := he

theorem Kept.phase (h : Kept w) (he : Replaces w.manager (w.manager.set s e) s)
    (hk : SlotKept (w.manager.set s e) w.leases s)
    (hc : Closings (w.manager.set s e) w.issued c)
    (hm : ∀ o, o ≠ t → (w.threads o).slot ≠ some s)
    (hw : Working (w.manager.set s e) ph) (hwt : ∀ other, ph.slot = some other → other = s)
    (hl : e.activeWork ≤ (w.manager.engines s).activeWork) :
    Kept ({ w with manager := w.manager.set s e, closes := c }.become t ph) where
  naming := h.naming.same he.names
  slots i hb := by
    by_cases hs : i = s
    · rw [hs]
      exact hk
    · exact (h.slots i hb).other (he.others i hs) rfl rfl fun _ _ => rfl
  owned := h.owned
  recorded := h.recorded
  closings := hc
  crew := by
    apply h.crew.become (w.manager.set s e) rfl _ hw
    · intro o other hdi hh
      rw [hwt other hh]
      exact hm o hdi
    · intro o other hdi hen
      apply he.others
      rintro rfl
      exact hm o hdi hen
  ending := he.ending h.ending rfl (by rwa [set_self])

theorem Kept.apart (h : Kept w) (hm : (w.threads t).slot = some s) :
    ∀ other, other ≠ t → (w.threads other).slot ≠ some s :=
  fun other hdi ht => hdi (h.crew.alone other t s ht hm)

theorem Kept.unengaged (h : Kept w) (hl : (w.manager.engines s).state = .loaded) (t : ℕ) :
    (w.threads t).slot ≠ some s :=
  fun hen => ((h.crew.working t).engaged hen).2.2 hl

theorem loadedStep_kept (h : Kept w) (t : ℕ) (o : Bool) : Kept (loadedStep w t o) := by
  unfold loadedStep
  split
  · next s g n ph =>
    have hw := h.crew.working t
    rw [ph] at hw
    obtain ⟨hb, hne, e⟩ := hw
    have hm : (w.threads t).slot = some s := by
      rw [ph]
      rfl
    have hl : Opened (w.manager.engines s).state := by
      rw [e]
      exact .inl rfl
    have he : Replaces w.manager (loadPublish w.manager s g n o) s := by
      apply replaces_set
      · rw [e]
      · rw [e]
    apply h.phase he
    · apply (h.slots s hb).vacant (loadPublish w.manager s g n o) (by simp [e, Occupied]) rfl rfl
      · simp [loadPublish, hne]
      · cases o <;> simp [loadPublish]
      · simp [loadPublish]
    · cases o with
      | true => exact h.closings.same he.names (he.opened fun _ => hl)
      | false =>
        have hc := h.closings.close h.naming he.names (fun i hi => h.named hi) hb
          hl (by simp [loadPublish, Opened, Occupied]) (he.opened fun _ => hl)
        rw [e] at hc
        exact hc
    · exact h.apart hm
    · trivial
    · nofun
    · exact Nat.zero_le _
  · exact h

theorem acquireStep_kept (h : Kept w) (n : Text) (g : ℕ) : Kept (acquireStep w n g) := by
  unfold acquireStep
  split
  · next l sm a ok =>
    obtain ⟨hcl, hb, hc, hr, rfl⟩ := acquire_ok ok
    have hl := (usable_iff.mp hr).1
    apply h.hold (replaces_setWork w.manager l.engine _)
    · intro i hi
      by_cases hs : i = l.engine
      · subst hs
        have hk := (h.slots l.engine hi).acquire hl
        rw [← hc] at hk
        exact hk
      · apply (h.slots i hi).other (set_other _ hs) rfl rfl
        intro o ow
        apply List.count_cons_of_ne
        rintro rfl
        exact hs ow.symm
    · intro o hm
      obtain rfl | hm := List.mem_cons.mp hm
      · exact hb
      · exact h.owned o hm
    · exact h.recorded
    · rw [setWork, set_self]
    · intro t hen
      exact absurd hen (h.unengaged hl t)
    · exact h.ending.admit hcl
  · exact h

theorem release_stale {l : Lease} (hs : leaseLive m l = false) : release m l = m := by
  unfold release
  rw [if_neg]
  rintro ⟨hc, -⟩
  simp [leaseLive, hc] at hs

section Steps

variable (h : Kept w)
include h

theorem releaseStep_kept (l : Lease) : Kept (releaseStep w l) := by
  unfold releaseStep
  split_ifs with hr
  · by_cases hm : l ∈ w.leases
    · have s := h.slots l.engine (h.owned l hm)
      have hoc := (s.held l hm rfl).2
      have hef := replaces_setWork w.manager l.engine ((w.manager.engines l.engine).activeWork - 1)
      rw [s.released hm]
      apply h.hold hef
      · intro i hi
        by_cases hh : i = l.engine
        · subst hh
          exact s.release hm
        apply (h.slots i hi).other (hef.others i hh) rfl rfl
        intro o ow
        apply List.count_erase_of_ne
        rintro rfl
        exact hh ow.symm
      · intro o hst
        exact h.owned o (List.mem_of_mem_erase hst)
      · exact h.recorded
      · rw [setWork, set_self]
      · intro t _
        right
        rw [setWork, set_self]
        exact ⟨hoc, rfl, rfl, rfl, le_refl _⟩
      · apply hef.ending h.ending rfl
        rw [setWork, set_self]
        exact Nat.sub_le _ _
    · have hun := release_stale (hr.resolve_left hm)
      rw [hun, List.erase_of_not_mem hm]
      exact h
  · exact h

/-- The serial number of the next model lease matters to nothing else. -/
theorem Kept.serial (serial : ℕ) :
    Kept { w with manager := { w.manager with nextModelLease := serial } } where
  naming := h.naming.same ⟨rfl, rfl, fun _ => rfl, fun _ => rfl⟩
  slots i hb := (h.slots i hb).other rfl rfl rfl fun _ _ => rfl
  owned := h.owned
  recorded := h.recorded
  closings := h.closings.same ⟨rfl, rfl, fun _ => rfl, fun _ => rfl⟩ fun _ _ => id
  crew := h.crew.undisturbed rfl fun _ _ _ => .inl rfl
  ending := h.ending.same ⟨rfl, rfl, fun _ => rfl, fun _ => rfl⟩ rfl fun _ _ _ => le_refl _

theorem Kept.exchange {n r : ℕ} {l : ModelLease}
    (hin : r < w.manager.modelLeaseCapacity) (hb : s < w.manager.capacity)
    (hbe : (w.manager.modelLeases r).identity = [] ∨ (w.manager.modelLeases r).engine = s)
    (hl : l.identity = [] ∨ l.engine = s)
    (kept : SlotKept (setModels w.manager s n r l) w.leases s)
    (hu : (w.manager.engines s).state = .loaded ∨
      n ≤ (w.manager.engines s).modelLeaseCount ∧ Occupied (w.manager.engines s).state) :
    Kept { w with manager := setModels w.manager s n r l } := by
  have hef : Replaces w.manager (setModels w.manager s n r l) s :=
    ⟨rfl, rfl, fun i ho => set_other _ ho, by simp, by simp⟩
  apply h.hold hef
  · intro i hi
    by_cases hh : i = s
    · rw [hh]
      exact kept
    · apply (h.slots i hi).record (hef.others i hh) hin rfl rfl
      · exact hbe.imp_right fun ow hel => hh (hel.symm.trans ow)
      · exact hl.imp_right fun ow hel => hh (hel.symm.trans ow)
  · exact h.owned
  · intro k hk
    change (Function.update w.manager.modelLeases r l k).identity ≠ [] →
      (Function.update w.manager.modelLeases r l k).engine < _
    by_cases hh : k = r
    · subst hh
      rw [Function.update_self]
      intro hne
      rw [hl.resolve_left hne]
      exact hb
    · rw [Function.update_of_ne hh]
      exact h.recorded k hk
  · rw [setModels_self]
  · intro t hen
    obtain hlo | ⟨hf, hoc⟩ := hu
    · exact absurd hen (h.unengaged hlo t)
    · right
      rw [setModels_self]
      exact ⟨hoc, rfl, rfl, rfl, hf⟩
  · apply hef.ending h.ending rfl
    rw [setModels_self]

theorem modelAcquire_kept (n : Text) :
    Kept { w with manager := (modelLeaseAcquire sha w.manager n).2 } := by
  obtain hr | ⟨r, s, identity, hin, hb, hf, hl, hne, ok⟩ := modelLeaseAcquire_cases sha w.manager n
  · rw [hr]
    exact h.serial _
  · rw [ok]
    have hk := (h.slots s hb).modelAcquire hl hin hf hne
    exact (h.exchange hin hb (.inl hf) (.inr rfl) hk (.inl hl)).serial _

theorem modelRelease_kept {identity : Identity} {sm : EngineSummary}
    (ok : modelLeaseRelease w.manager identity = .ok (sm, a)) :
    Kept { w with manager := a } := by
  obtain ⟨r, s, -, hin, hl, ow, hc, hct, rfl⟩ := modelLeaseRelease_ok ok
  have hb : s < w.manager.capacity := ow ▸ h.recorded r hin hl
  have hs := h.slots s hb
  have hoc : Occupied (w.manager.engines s).state := by
    by_contra idle
    exact hct (hs.quiet idle)
  have hk := hs.modelRelease hin hl ow.symm hc hct
  exact h.exchange hin hb (.inr ow.symm) (.inl rfl) hk (.inr ⟨Nat.sub_le _ _, hoc⟩)

theorem unloadStep_kept (t : ℕ) (n : Text) (g ss : ℕ) : Kept (unloadStep w t n g ss) := by
  unfold unloadStep
  split
  · next s a idle ok =>
    obtain ⟨fo, hr, hu, rfl⟩ := unloadStart_ok ok
    obtain ⟨hb, hne, -⟩ := engineFind_some fo
    have hl := (usable_iff.mp hr).1
    have hef := replaces_setState w.manager s .draining
    have d : ((setState w.manager s .draining).engines s) =
        { w.manager.engines s with state := .draining } := set_self s _
    apply h.phase hef
    · exact (h.slots s hb).restate hne (by simp [hl]) (by simp) (.inl (.inr rfl))
    · exact h.closings.same hef.names (hef.opened fun _ => .inr (.inl hl))
    · intro o _
      exact h.unengaged hl o
    · change Working (setState w.manager s .draining) _
      simp only [Working, d]
      exact ⟨hb, hne, trivial, trivial, hu⟩
    · intro at_ hh
      exact (Option.some.inj hh).symm
    · exact le_refl _
  · exact h

/-- An unload that waits or goes on keeps the invariant. -/
theorem drainStep_kept (t : ℕ) : Kept (drainStep w t) := by
  unfold drainStep
  split
  · next s g ph =>
    split_ifs with idle
    · have hw := h.crew.working t
      rw [ph] at hw
      obtain ⟨hb, hne, st, hc, hul⟩ := hw
      have mine : (w.threads t).slot = some s := by
        rw [ph]
        rfl
      have hs := h.slots s hb
      have hop : Opened (w.manager.engines s).state := .inr (.inr st)
      have hef := replaces_setState w.manager s .unloading
      have hun : ((setState w.manager s .unloading).engines s) =
          { w.manager.engines s with state := .unloading } := set_self s _
      -- no work is counted, so no lease of the slot is out
      have hu : ∀ l ∈ w.leases, l.engine ≠ s := by
        rintro l hm rfl
        obtain ⟨-, work, hp⟩ := hs.counted hm
        omega
      apply h.phase hef
      · exact hs.restate hne (by simp [st]) (by simp) (.inr ⟨hu, hul⟩)
      · have hcl := h.closings.close h.naming hef.names (fun i hi => h.named hi) hb
          hop (by simp [hun, Opened, Occupied]) (hef.opened fun _ => hop)
        rw [hc] at hcl
        exact hcl
      · exact h.apart mine
      · change Working (setState w.manager s .unloading) _
        simp only [Working, hun]
        exact ⟨hb, hne, trivial, hc⟩
      · intro at_ hh
        exact (Option.some.inj hh).symm
      · exact le_refl _
    · exact h
  · exact h

theorem unloadedStep_kept (t : ℕ) (cd : Bool) : Kept (unloadedStep w t cd) := by
  unfold unloadedStep
  split
  · next s g ph =>
    have hw := h.crew.working t
    rw [ph] at hw
    obtain ⟨hb, hne, st, -⟩ := hw
    have hm : (w.threads t).slot = some s := by
      rw [ph]
      rfl
    have hs := h.slots s hb
    have hu : ¬ Occupied (w.manager.engines s).state := by simp [st, Occupied]
    have hef := replaces_setState w.manager s (if cd then .unloaded else .failed)
    apply h.phase hef
    · apply hs.restate hne (by simp [st])
      · cases cd <;> simp
      · exact .inr ⟨(hs.unheld hu).1, hs.quiet hu⟩
    · apply h.closings.same hef.names
      apply hef.opened
      intro hop
      cases cd <;> simp [setState, Opened, Occupied] at hop
    · exact h.apart hm
    · trivial
    · rintro _ ⟨⟩
    · exact le_refl _
  · exact h

end Steps

end Yvex.EngineManager
