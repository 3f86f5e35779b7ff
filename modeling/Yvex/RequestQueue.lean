import Yvex.CheckedArithmetic
import Yvex.KeyedQueue
import Yvex.Runs
import Yvex.SlotTable
import Yvex.StateRecipe

/-!
# The server's request queue

A bounded queue that a pool of workers empties. A worker takes the first entry
whose serialization key is not active and keeps the key active until the entry's
callback has returned. Each turn of a worker is one critical section; waiting is a
worker state that every broadcast ends, and so may a spurious wakeup. A waiting
worker has nothing it could take, because everything that could give it work ends
with a broadcast. The active keys are those of the executing entries, so the
workers serve each key's entries one at a time and in order.
-/

set_option autoImplicit false

namespace Yvex.RequestQueue

open AttentionData CheckedArithmetic StateRecipe KeyedQueue SlotTable

def keyCap : ℕ := 224

def entryBytes : ℕ := 8 + keyCap

def threadBytes : ℕ := 8

structure Entry (ω : Type) where
  work : ω
  key : Text
  deriving DecidableEq

structure Shared (ω : Type) where
  queue : List (Entry ω)
  active : List Text
  queueCapacity : ℕ
  workerCount : ℕ
  started : Bool
  stopping : Bool

section Functions

variable {ω : Type}

def requestQueueRefuse (status : Status) (reason : String) : Refusal :=
  errorOnly status "server.request-queue" reason

def requestQueueKeyActive (shared : Shared ω) (key : Text) : Bool :=
  shared.active.contains key

def requestQueueSelect (shared : Shared ω) : Option (Entry ω × Shared ω) :=
  (extract (fun entry => !requestQueueKeyActive shared entry.key) shared.queue).map fun found =>
    (found.1, { shared with queue := found.2, active := shared.active ++ [found.1.key] })

def requestQueueRelease (shared : Shared ω) (key : Text) : Shared ω :=
  { shared with active := shared.active.erase key }

def requestQueueOpen (queueCapacity workerCount : ℕ) (allocated stored : Bool)
    (mutexReady conditionReady : Bool) : Except Refusal (Shared ω) :=
  if queueCapacity = 0 ∨ workerCount = 0 ∨ sizeMax / entryBytes < queueCapacity ∨
      sizeMax / threadBytes < workerCount ∨ sizeMax / keyCap < workerCount then
    .error (requestQueueRefuse .invalidArg
      "bounded queue, workers, execution callback, and output are required")
  else if !allocated then
    .error (requestQueueRefuse .nomem "request queue allocation failed")
  else if !stored then
    .error (requestQueueRefuse .nomem "request queue bounded storage allocation failed")
  else if !mutexReady then
    .error (requestQueueRefuse .state "request queue mutex initialization failed")
  else if !conditionReady then
    .error (requestQueueRefuse .state "request queue condition initialization failed")
  else .ok ⟨[], [], queueCapacity, workerCount, false, false⟩

def requestQueueStart (shared : Shared ω) : Except Refusal (Shared ω) :=
  if shared.started || shared.stopping then
    .error (requestQueueRefuse .state "request queue cannot start twice or after stop")
  else .ok { shared with started := true }

def requestQueueSubmit (shared : Shared ω) (work : Option ω) (key : Option Text) :
    Except Refusal (Shared ω × ℕ) :=
  match work, key with
  | some work, some key =>
    if keyCap ≤ key.length then
      .error (requestQueueRefuse .invalidArg "request queue work and bounded key are required")
    else if shared.queue.length = shared.queueCapacity then
      .error (requestQueueRefuse .bounds "bounded request queue is full")
    else if !shared.started || shared.stopping then
      .error (requestQueueRefuse .state "request queue is not accepting work")
    else
      .ok ({ shared with queue := shared.queue ++ [⟨work, key⟩] }, shared.queue.length + 1)
  | _, _ =>
    .error (requestQueueRefuse .invalidArg "request queue work and bounded key are required")

def requestQueueRequestStop (shared : Shared ω) : Shared ω := { shared with stopping := true }

end Functions

-- A submitted work carries the number of its acceptance.
abbrev Numbered (ω : Type) := Entry (ℕ × ω)

inductive Worker (ω : Type) where
  | ready
  | waiting
  | executing (entry : Numbered ω)
  | exited
  deriving DecidableEq

structure World (ω : Type) where
  shared : Shared (ℕ × ω)
  workers : ℕ → Worker ω
  accepted : List (Numbered ω)
  finished : List (Numbered ω)
  running : List (Numbered ω)

inductive Event (ω : Type) where
  | submit (work : Option ω) (key : Option Text)
  | stop
  | turn (worker : ℕ)
  | wake (worker : ℕ)

section Worlds

variable {ω : Type}

def Worker.woken : Worker ω → Worker ω
  | .waiting => .ready
  | worker => worker

def Worker.runnable : Worker ω → Bool
  | .ready => true
  | .executing _ => true
  | _ => false

def World.start (shared : Shared (ℕ × ω)) : World ω :=
  { shared := shared, workers := fun _ => .ready, accepted := [], finished := [], running := [] }

def World.setWorker (world : World ω) (index : ℕ) (worker : Worker ω) : World ω :=
  { world with workers := Function.update world.workers index worker }

def World.broadcast (world : World ω) : World ω :=
  { world with workers := fun index => (world.workers index).woken }

def World.acquire (world : World ω) (index : ℕ) : World ω :=
  if world.shared.stopping ∧ world.shared.queue = [] then world.setWorker index .exited
  else match requestQueueSelect world.shared with
  | some (entry, shared) =>
    { world.setWorker index (.executing entry) with
      shared := shared
      running := world.running ++ [entry] }
  | none => world.setWorker index .waiting

def World.complete (world : World ω) (index : ℕ) (entry : Numbered ω) : World ω :=
  { world.setWorker index .ready with
    shared := requestQueueRelease world.shared entry.key
    finished := world.finished ++ [entry]
    running := world.running.eraseP fun other => other.key == entry.key }.broadcast

def World.turn (world : World ω) (index : ℕ) : World ω :=
  match world.workers index with
  | .ready => world.acquire index
  | .executing entry => world.complete index entry
  | _ => world

def World.submit (world : World ω) (work : Option ω) (key : Option Text) : World ω :=
  let numbered := work.map fun work => (world.accepted.length, work)
  match requestQueueSubmit world.shared numbered key with
  | .ok (shared, _) =>
    { world with
      shared := shared
      accepted := world.accepted ++ (Entry.mk <$> numbered <*> key).toList }.broadcast
  | .error _ => world

def World.step (world : World ω) : Event ω → World ω
  | .submit work key => world.submit work key
  | .stop => { world with shared := requestQueueRequestStop world.shared }.broadcast
  | .turn index => if index < world.shared.workerCount then world.turn index else world
  | .wake index => world.setWorker index (world.workers index).woken

end Worlds

open Worker

variable {ω : Type}

def Worker.isExecuting : Worker ω → Bool
  | .executing _ => true
  | _ => false

def Worker.isReady : Worker ω → Bool
  | .ready => true
  | _ => false

theorem Worker.woken_ne_waiting (wk : Worker ω) : wk.woken ≠ .waiting := by
  cases wk <;> simp [woken]

variable {wk : Worker ω} {en : Numbered ω}

@[simp] theorem Worker.woken_eq_executing : wk.woken = .executing en ↔ wk = .executing en := by
  cases wk <;> simp [woken]

@[simp] theorem Worker.woken_eq_exited : wk.woken = .exited ↔ wk = .exited := by
  cases wk <;> simp [woken]

@[simp] theorem Worker.isExecuting_woken (wk : Worker ω) :
    wk.woken.isExecuting = wk.isExecuting := by
  cases wk <;> rfl

def Shared.selectable (shared : Shared (ℕ × ω)) : Option (Numbered ω × List (Numbered ω)) :=
  extract (fun entry => !requestQueueKeyActive shared entry.key) shared.queue

structure Balanced (w : World ω) : Prop where
  inLine : InLine Entry.key w.accepted ⟨w.finished, w.running, w.shared.queue⟩
  active : w.shared.active = w.running.map Entry.key
  executing : ∀ entry, entry ∈ w.running ↔
    ∃ i, i < w.shared.workerCount ∧ w.workers i = .executing entry
  owner : ∀ i j entry, i < w.shared.workerCount → j < w.shared.workerCount →
    w.workers i = .executing entry → w.workers j = .executing entry → i = j
  count : w.running.length = tally Worker.isExecuting w.workers w.shared.workerCount
  bounded : w.shared.queue.length ≤ w.shared.queueCapacity
  numbered : w.accepted.map (fun entry => entry.work.1) = List.range w.accepted.length
  exited : ∀ i, i < w.shared.workerCount → w.workers i = .exited →
    w.shared.stopping = true ∧ w.shared.queue = []

structure Consistent (w : World ω) : Prop extends Balanced w where
  asleep : ∀ i, i < w.shared.workerCount → w.workers i = .waiting →
    w.shared.selectable = none ∧ ¬(w.shared.stopping = true ∧ w.shared.queue = [])

variable {w : World ω}

theorem Balanced.selectable_running (hb : Balanced w) : w.shared.selectable =
      extract (fun en => !(w.running.map Entry.key).contains en.key) w.shared.queue := by
  unfold Shared.selectable requestQueueKeyActive
  rw [hb.active]

theorem Balanced.exclusive (hb : Balanced w) {i j : ℕ} {a b : Numbered ω}
    (h1 : i < w.shared.workerCount) (h2 : j < w.shared.workerCount)
    (left : w.workers i = .executing a) (right : w.workers j = .executing b) (hs : a.key = b.key) :
    i = j := by
  have mm := (hb.executing a).mpr ⟨i, h1, left⟩
  have m := (hb.executing b).mpr ⟨j, h2, right⟩
  obtain rfl := List.inj_on_of_nodup_map hb.inLine.single mm m hs
  exact hb.owner i j a h1 h2 left right

theorem Balanced.broadcast (hh : Balanced w) : Consistent w.broadcast where
  inLine := hh.inLine
  active := hh.active
  executing := by
    intro en
    simp only [World.broadcast, woken_eq_executing]
    exact hh.executing en
  owner := by
    intro i j en h1 h2
    simp only [World.broadcast, woken_eq_executing]
    exact hh.owner i j en h1 h2
  count := by
    have hs : tally isExecuting w.broadcast.workers w.shared.workerCount =
        tally isExecuting w.workers w.shared.workerCount :=
      total_congr fun i _ => by simp [World.broadcast]
    exact hh.count.trans hs.symm
  bounded := hh.bounded
  numbered := hh.numbered
  exited := fun i hb he => hh.exited i hb (woken_eq_exited.mp he)
  asleep := fun i _ hw => absurd hw (woken_ne_waiting _)

theorem requestQueueSubmit_ok {s s' : Shared ω} {wr : Option ω} {key : Option Text}
    {d : ℕ} (dn : requestQueueSubmit s wr key = .ok (s', d)) :
    ∃ w k, wr = some w ∧ key = some k ∧ s.queue.length ≠ s.queueCapacity ∧
      s.stopping = false ∧ s' = { s with queue := s.queue ++ [⟨w, k⟩] } := by
  unfold requestQueueSubmit at dn
  split at dn
  · rename_i w k
    split_ifs at dn with long full hr
    obtain ⟨rfl, -⟩ := Prod.mk.inj (Except.ok.inj dn)
    simp only [Bool.or_eq_true, not_or] at hr
    exact ⟨w, k, rfl, rfl, full, by simpa using hr.2, rfl⟩
  · simp at dn

theorem Consistent.submit (hc : Consistent w) (work : Option ω) (key : Option Text) :
    Consistent (w.submit work key) := by
  unfold World.submit
  dsimp only
  split
  · rename_i done
    obtain ⟨numbered, k, hw, rfl, room, hr, rfl⟩ := requestQueueSubmit_ok done
    obtain ⟨v, rfl, rfl⟩ := Option.map_eq_some_iff.mp hw
    apply Balanced.broadcast
    have hb := hc.bounded
    refine ⟨hc.inLine.push _, hc.active, hc.executing, hc.owner, hc.count, ?_, ?_, ?_⟩
    · simp only [List.length_append, List.length_cons, List.length_nil]
      omega
    · have gained : (Entry.mk <$> some (w.accepted.length, v) <*> some k).toList =
          [⟨(w.accepted.length, v), k⟩] := rfl
      simp only [Option.map_some, gained, List.map_append, hc.numbered, List.length_append,
        List.map_cons, List.map_nil, List.length_singleton, List.range_succ]
    · intro i hi e
      have hs := (hc.exited i hi e).1
      rw [hr] at hs
      simp at hs
  · exact hc

theorem Consistent.stop (hc : Consistent w) : Consistent (w.step .stop) := by
  apply Balanced.broadcast
  refine ⟨hc.inLine, hc.active, hc.executing, hc.owner, hc.count, hc.bounded, hc.numbered, ?_⟩
  intro i hb e
  exact ⟨rfl, (hc.exited i hb e).2⟩

variable {ix : ℕ}

theorem Consistent.setWorker (hc : Consistent w)
    (hid : (w.workers ix).isExecuting = false) (hst : wk.isExecuting = false)
    (hsl : wk = .waiting →
      w.shared.selectable = none ∧ ¬(w.shared.stopping = true ∧ w.shared.queue = []))
    (hl : wk = .exited → w.shared.stopping = true ∧ w.shared.queue = []) :
    Consistent (w.setWorker ix wk) := by
  have hos : ∀ i en, (w.setWorker ix wk).workers i = .executing en ↔
      w.workers i = .executing en := by
    intro i en
    refine update_iff.trans ?_
    constructor
    · rintro (⟨_, rfl⟩ | ⟨_, hs⟩)
      · cases hst
      · exact hs
    · intro hs
      refine .inr ⟨?_, hs⟩
      rintro rfl
      rw [hs] at hid
      cases hid
  refine ⟨⟨hc.inLine, hc.active, ?_, ?_, ?_, hc.bounded, hc.numbered, ?_⟩, ?_⟩
  · intro en
    simp only [hos]
    exact hc.executing en
  · intro i j en h1 h2
    simp only [hos]
    exact hc.owner i j en h1 h2
  · have hs : tally isExecuting (w.setWorker ix wk).workers w.shared.workerCount =
        tally isExecuting w.workers w.shared.workerCount := by
      apply total_congr
      intro i _
      by_cases hh : i = ix
      · subst hh
        simp only [World.setWorker, Function.update_self, hst, hid]
      · simp only [World.setWorker, Function.update_of_ne hh]
    exact hc.count.trans hs.symm
  · intro i hb e
    obtain ⟨_, hh⟩ | ⟨_, ht⟩ := update_iff.mp e
    · exact hl hh
    · exact hc.exited i hb ht
  · intro i hb hw
    obtain ⟨_, hh⟩ | ⟨_, ht⟩ := update_iff.mp hw
    · exact hsl hh
    · exact hc.asleep i hb ht

theorem requestQueueSelect_some {s s' : Shared (ℕ × ω)}
    (hf : requestQueueSelect s = some (en, s')) :
    ∃ r, s.selectable = some (en, r) ∧
      s' = { s with queue := r, active := s.active ++ [en.key] } := by
  rw [requestQueueSelect, Option.map_eq_some_iff] at hf
  obtain ⟨⟨f, r⟩, htk, hs⟩ := hf
  obtain ⟨rfl, rfl⟩ := Prod.mk.inj hs
  exact ⟨r, htk, rfl⟩

/-- The entry a worker takes is the first one whose key is not in work. -/
theorem Consistent.select (hc : Consistent w) (hi : ix < w.shared.workerCount)
    (hre : w.workers ix = .ready) {s : Shared (ℕ × ω)}
    (hf : requestQueueSelect w.shared = some (en, s)) :
    Consistent { w.setWorker ix (.executing en) with
      shared := s, running := w.running ++ [en] } := by
  obtain ⟨r, htk, rfl⟩ := requestQueueSelect_some hf
  have hs := htk
  rw [hc.selectable_running] at hs
  have hfr : en.key ∉ w.running.map Entry.key := by simpa using (extract_some hs).1
  have hoc : ∀ i e, w.workers i = .executing e → i ≠ ix := by
    rintro i e hex rfl
    rw [hre] at hex
    simp at hex
  have hn : w.shared.queue ≠ [] := by
    intro he
    rw [Shared.selectable, he] at htk
    simp [extract] at htk
  have hsh := extract_length htk
  have hb := hc.bounded
  refine ⟨⟨hc.inLine.start hs, ?_, ?_, ?_, ?_, ?_, hc.numbered, ?_⟩, ?_⟩
  · simp only [hc.active, List.map_append, List.map_cons, List.map_nil]
  · intro e
    rw [List.mem_append, List.mem_singleton]
    constructor
    · rintro (hol | rfl)
      · obtain ⟨i, hw, hex⟩ := (hc.executing e).mp hol
        exact ⟨i, hw, update_iff.mpr (.inr ⟨hoc i e hex, hex⟩)⟩
      · exact ⟨ix, hi, update_iff.mpr (.inl ⟨rfl, rfl⟩)⟩
    · rintro ⟨i, hw, hex⟩
      obtain ⟨_, hh⟩ | ⟨_, ht⟩ := update_iff.mp hex
      · exact .inr (executing.inj hh).symm
      · exact .inl ((hc.executing e).mpr ⟨i, hw, ht⟩)
  · -- The entry was not running, so no other worker holds it.
    have hu : ∀ i, i < w.shared.workerCount → w.workers i ≠ .executing en := by
      intro i hw hex
      exact hfr (List.mem_map_of_mem ((hc.executing en).mpr ⟨i, hw, hex⟩))
    intro i j e h1 h2 left right
    obtain ⟨rfl, hl⟩ | ⟨_, hl⟩ := update_iff.mp left
    · obtain ⟨rfl, _⟩ | ⟨_, hr⟩ := update_iff.mp right
      · rfl
      · cases hl
        exact absurd hr (hu j h2)
    · obtain ⟨_, hr⟩ | ⟨_, hr⟩ := update_iff.mp right
      · cases hr
        exact absurd hl (hu i h1)
      · exact hc.owner i j e h1 h2 hl hr
  · have hmv := tally_update isExecuting w.workers hi (.executing en)
    have b := hc.count
    rw [hre] at hmv
    change _ + 0 = _ + 1 at hmv
    simp only [World.setWorker, List.length_append, List.length_cons, List.length_nil]
    omega
  · change r.length ≤ w.shared.queueCapacity
    omega
  · intro i hw ex
    obtain ⟨_, hh⟩ | ⟨_, ht⟩ := update_iff.mp ex
    · cases hh
    · exact absurd (hc.exited i hw ht).2 hn
  · intro i hw hwt
    obtain ⟨_, hh⟩ | ⟨_, ht⟩ := update_iff.mp hwt
    · cases hh
    · have hno := (hc.asleep i hw ht).1
      rw [htk] at hno
      cases hno

theorem Consistent.acquire (hc : Consistent w) (hi : ix < w.shared.workerCount)
    (hr : w.workers ix = .ready) :
    Consistent (w.acquire ix) := by
  have hid : (w.workers ix).isExecuting = false := by rw [hr]; rfl
  unfold World.acquire
  split
  · rename_i hd
    exact hc.setWorker hid rfl (by simp) fun _ => hd
  rename_i m
  split
  · rename_i hf
    exact hc.select hi hr hf
  rename_i hno
  have none : w.shared.selectable = none := by
    rw [requestQueueSelect, Option.map_eq_none_iff] at hno
    exact hno
  exact hc.setWorker hid rfl (fun _ => ⟨none, m⟩) (by simp)

/-- A completed entry frees its key for the next one. -/
theorem Consistent.complete (hc : Consistent w) (hi : ix < w.shared.workerCount)
    (hb : w.workers ix = .executing en) : Consistent (w.complete ix en) := by
  have hru := (hc.executing en).mpr ⟨ix, hi, hb⟩
  have hk := hc.inLine.single
  have hrm : ∀ e, e ∈ w.running.eraseP (fun o => o.key == en.key) ↔
      e ∈ w.running ∧ e.key ≠ en.key := by
    intro e
    constructor
    · intro hm
      refine ⟨List.mem_of_mem_eraseP hm, ?_⟩
      have hn := List.mem_map_of_mem (f := Entry.key) hm
      rw [map_eraseP Entry.key, hk.mem_erase_iff] at hn
      exact hn.1
    · rintro ⟨hm, o⟩
      exact (List.mem_eraseP_of_neg (by simpa using o)).mpr hm
  apply Balanced.broadcast
  refine ⟨hc.inLine.finish hru, ?_, ?_, ?_, ?_, hc.bounded, hc.numbered, ?_⟩
  · change w.shared.active.erase en.key = _
    rw [hc.active, ← map_eraseP Entry.key]
  · intro e
    rw [hrm e, hc.executing e]
    constructor
    · rintro ⟨⟨i, hw, he⟩, o⟩
      have hap : i ≠ ix := by
        rintro rfl
        rw [hb] at he
        exact o (executing.inj he ▸ rfl)
      exact ⟨i, hw, update_iff.mpr (.inr ⟨hap, he⟩)⟩
    · rintro ⟨i, hw, he⟩
      obtain ⟨_, hh⟩ | ⟨ha, ht⟩ := update_iff.mp he
      · cases hh
      · exact ⟨⟨i, hw, ht⟩, fun hs => ha (hc.exclusive hw hi ht hb hs)⟩
  · intro i j e h1 h2 left right
    obtain ⟨_, hl⟩ | ⟨_, hl⟩ := update_iff.mp left
    · cases hl
    · obtain ⟨_, hr⟩ | ⟨_, hr⟩ := update_iff.mp right
      · cases hr
      · exact hc.owner i j e h1 h2 hl hr
  · have hmv := tally_update isExecuting w.workers hi .ready
    have b := hc.count
    have hsh := List.length_eraseP_of_mem hru (p := fun o => o.key == en.key) (by simp)
    rw [hb] at hmv
    change _ + 1 = _ + 0 at hmv
    change (w.running.eraseP _).length =
      tally isExecuting (Function.update w.workers ix .ready) w.shared.workerCount
    omega
  · intro i hw ex
    obtain ⟨_, hh⟩ | ⟨_, ht⟩ := update_iff.mp ex
    · cases hh
    · exact hc.exited i hw ht

theorem Consistent.step (hc : Consistent w) (e : Event ω) : Consistent (w.step e) := by
  cases e with
  | submit work key => exact hc.submit work key
  | stop => exact hc.stop
  | turn ix =>
    simp only [World.step]
    split
    · rename_i hi
      unfold World.turn
      split
      · rename_i hr
        exact hc.acquire hi hr
      · rename_i hb
        exact hc.complete hi hb
      · exact hc
    · exact hc
  | wake ix =>
    simp only [World.step]
    cases s : w.workers ix with
    | executing en =>
      have hs : w.setWorker ix (woken (.executing en)) = w := by
        simp only [World.setWorker, woken, ← s, Function.update_eq_self]
      rw [hs]
      exact hc
    | ready | waiting => exact hc.setWorker (by rw [s]; rfl) rfl (by simp [woken]) (by simp [woken])
    | exited =>
      have hs : w.setWorker ix (woken .exited) = w := by
        simp only [World.setWorker, woken, ← s, Function.update_eq_self]
      rw [hs]
      exact hc

end Yvex.RequestQueue
