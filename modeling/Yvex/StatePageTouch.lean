import Yvex.StatePageAccounts

/-!
# What a touch does to the memory of a store

A touch faults every host page it has just made writable: a fresh page by writing a zero to its
first byte, a shared one by writing back the byte it reads there.
-/

set_option autoImplicit false

namespace Yvex.StatePages

open CheckedArithmetic RefusableStep Runs

variable {α : Type}

structure Mapping (α : Type) where
  store : PageStore α
  bytes : ℕ → UInt8

def faultPage (store : PageStore α) (bytes : ℕ → UInt8) (page : ℕ) : ℕ → UInt8 :=
  if !store.systemCommitted page then Function.update bytes (page * store.systemPageBytes) 0
  else if store.shared.isSome && !store.privateSystemCommitted page then
    Function.update bytes (page * store.systemPageBytes) (bytes (page * store.systemPageBytes))
  else bytes

def faultPages (store : PageStore α) (range : TouchRange) (bytes : ℕ → UInt8) : ℕ → UInt8 :=
  (List.range' range.systemFirst (range.systemLast + 1 - range.systemFirst)).foldl
    (faultPage store) bytes

def touchedBytes (m : Mapping α) (elementStart elementCount : ℕ) : ℕ → UInt8 :=
  if !m.store.paged && m.store.shared.isNone then m.bytes
  else match touchRange m.store elementStart (elementStart + elementCount) with
  | .ok range => faultPages m.store range m.bytes
  | .error _ => m.bytes

def mappingTouch (pool : PagePool) (m : Mapping α) (elementStart elementCount : ℕ) :
    Outcome PageError (PagePool × Mapping α) :=
  match storeTouch pool m.store elementStart elementCount with
  | .refused e (pool, store) => .refused e (pool, ⟨store, m.bytes⟩)
  | .done (pool, store) => .done (pool, ⟨store, touchedBytes m elementStart elementCount⟩)

def PageStore.isCommitted (store : PageStore α) (page : ℕ) : Prop :=
  -- A store that is not paged has all of its pages from the start.
  page < store.pageCount ∧ (store.paged = true → store.committed page = true)

variable {s : PageStore α} {rg : TouchRange} {p : ℕ}

theorem faultPage_kept {bs : ℕ → UInt8} {o : ℕ}
    (h : p * s.systemPageBytes = o → s.systemCommitted p = true) :
    faultPage s bs p o = bs o := by
  unfold faultPage
  split_ifs with hfr hs
  · apply Function.update_of_ne
    intro hh
    rw [h hh.symm] at hfr
    cases hfr
  · rw [Function.update_eq_self]
  · rfl

theorem faultPages_kept (bs : ℕ → UInt8) {o : ℕ}
    (h : ∀ p, p * s.systemPageBytes = o → s.systemCommitted p = true) :
    faultPages s rg bs o = bs o := by
  unfold faultPages
  generalize List.range' rg.systemFirst _ = pa
  induction pa generalizing bs with
  | nil => rfl
  | cons p pa ih => rw [List.foldl_cons, ih, faultPage_kept (h p)]

theorem markPages_inside {b : ℕ → Bool} {first l i : ℕ} (low : first ≤ i) (hh : i ≤ l) :
    markPages b first l i = true := by
  simp [markPages, low, hh]

theorem markPages_twice (b : ℕ → Bool) (first l : ℕ) :
    markPages (markPages b first l) first l = markPages b first l := by
  funext i
  simp [markPages]

theorem commitPages_twice (s : PageStore α) (rg : TouchRange) :
    commitPages (commitPages s rg) rg = commitPages s rg := by
  by_cases hs : s.shared.isSome = true <;> simp [commitPages, hs, markPages_twice]

theorem commitPages_settled (s : PageStore α) (rg : TouchRange) :
    newPages (commitPages s rg) rg = 0 ∧ cowPages (commitPages s rg) rg = 0 ∧
    newSystemPages (commitPages s rg) rg = 0 ∧
    cowSystemPages (commitPages s rg) rg = 0 := by
  have p := s.pageBits.mark_settled rg.first rg.last
  have sy := s.systemBits.mark_settled rg.systemFirst rg.systemLast
  exact ⟨p.1, p.2, sy.1, sy.2⟩

theorem faultPages_settled (s : PageStore α) (rg : TouchRange) (bs : ℕ → UInt8) :
    faultPages (commitPages s rg) rg bs = bs := by
  unfold faultPages
  have hin : ∀ p ∈ List.range' rg.systemFirst (rg.systemLast + 1 - rg.systemFirst),
      rg.systemFirst ≤ p ∧ p ≤ rg.systemLast := fun p hm => by
    have := List.mem_range'_1.mp hm
    omega
  generalize List.range' rg.systemFirst _ = pa at hin ⊢
  induction pa with
  | nil => rfl
  | cons p pa ih =>
    obtain ⟨low, hh⟩ := hin p List.mem_cons_self
    have here : faultPage (commitPages s rg) bs p = bs := by
      by_cases hs : s.shared.isSome = true <;>
        simp [faultPage, commitPages, hs, markPages_inside low hh]
    rw [List.foldl_cons, here]
    exact ih fun p hm => hin p (List.mem_cons_of_mem _ hm)

theorem touchCharged_settled (p : PagePool) (s : PageStore α) (rg : TouchRange) :
    touchCharged p (commitPages s rg) rg 0 = (p, commitPages s rg) := by
  obtain ⟨h1, h2, h3, h4⟩ := commitPages_settled s rg
  unfold touchCharged
  rw [h1, h2, h3, h4]
  rfl

variable {po : PagePool}

/-- Touching the same elements again changes only what the host answers next. -/
theorem storeTouch_again {a n x : ℕ} (hn : n ≠ 0) (word : a + n < wordLimit)
    (hb : a + n ≤ s.elementCount) (hk : s.paged = false → s.shared ≠ none)
    (hr : touchRange s a (a + n) = .ok rg)
    (hc : touchCharge po s rg x = some (touchCharged po s rg x)) (host : Host) :
    let p := { (touchCharged po s rg x).1 with host := host }
    let store' := commitPages (touchCharged po s rg x).2 rg
    (storeTouch p store' a n).state = ({ p with host := p.hostCall.2.host }, store') := by
  intro p store'
  obtain ⟨-, -, h3, h4⟩ := commitPages_settled (touchCharged po s rg x).2 rg
  obtain ⟨admitted, sized, -⟩ := touchCharge_eq_some.mp hc
  have hs : touchCharged p store' rg 0 = (p, store') := touchCharged_settled ..
  have c : touchCharge p store' rg 0 = some (p, store') := by
    rw [touchCharge_eq_some, hs]
    obtain ⟨w1, w2, w3, w4, w5, w6⟩ := sized
    refine ⟨?_, ⟨w1, w2, w3, w4, w5, w6⟩, rfl⟩
    rw [poolAdmit_iff] at admitted ⊢
    simp only [p, touchCharged]
    omega
  have bs : touchBytes store' rg = some 0 := by
    simp [touchBytes, store', h3, h4, u64Add, u64Mul, wordLimit]
  have sum : u64Add a n = some (a + n) := if_pos word
  have range : touchRange store' a (a + n) = .ok rg := hr
  have h1 : ¬ (n = 0 ∨ store'.elementCount ≤ a ∨ store'.elementCount < a + n) := by
    change ¬ (n = 0 ∨ s.elementCount ≤ a ∨ s.elementCount < a + n)
    omega
  have h2 : ¬ (!store'.paged && store'.shared.isNone) = true := by
    change ¬ (!s.paged && s.shared.isNone) = true
    simpa using hk
  unfold storeTouch
  simp only [sum, if_neg h1, if_neg h2, range, bs, c]
  split
  · rw [Outcome.state, commitPages_twice]
  · rfl

theorem meets_iff {a n pa : ℕ} (hn : n ≠ 0) (hp : 0 < p) :
    (a / p ≤ pa ∧ pa ≤ (a + n - 1) / p) ↔ ∃ i, a ≤ i ∧ i < a + n ∧ i / p = pa := by
  constructor
  · rintro ⟨low, hh⟩
    rw [Nat.le_div_iff_mul_le hp] at hh
    by_cases b : a ≤ pa * p
    · exact ⟨pa * p, b, by omega, Nat.mul_div_cancel _ hp⟩
    · refine ⟨a, le_rfl, by omega, le_antisymm low ?_⟩
      exact (Nat.le_div_iff_mul_le hp).mpr (by omega)
  · rintro ⟨i, low, hh, rfl⟩
    exact ⟨Nat.div_le_div_right low, Nat.div_le_div_right (by omega)⟩

structure Touched (m m' : Mapping α) (a n : ℕ) : Prop where
  committed : ∀ page, m'.store.isCommitted page ↔
    m.store.isCommitted page ∨ ∃ i, a ≤ i ∧ i < a + n ∧ i / m.store.pageElements = page
  backed : ∀ page, m'.store.systemCommitted page = true →
    page * m.store.systemPageBytes + m.store.systemPageBytes ≤ m.store.mappedBytes
  kept : ∀ offset < m.store.requestedBytes,
    (m.store.isCommitted (offset / m.store.elementWidth / m.store.pageElements) ∨
      m.store.pageBits.shared (offset / m.store.elementWidth / m.store.pageElements) = true) →
    m'.bytes offset = m.bytes offset

theorem StoreSound.mapped_inside (hs : StoreSound s) (h : s.systemCommitted p = true) :
    p * s.systemPageBytes + s.systemPageBytes ≤ s.mappedBytes := by
  rw [hs.shaped.mapped, ← Nat.succ_mul]
  exact Nat.mul_le_mul_right _ (hs.systemPages.inside p h)

theorem touched_plain (hs : StoreSound s) (bs : ℕ → UInt8) {a n : ℕ}
    (hpl : s.paged = false) (hb : a + n ≤ s.elementCount) :
    Touched ⟨s, bs⟩ ⟨s, bs⟩ a n := by
  refine ⟨fun p => ⟨Or.inl, ?_⟩, fun p h => hs.mapped_inside h, fun _ _ _ => rfl⟩
  rintro (old | ⟨i, -, hh, rfl⟩)
  · exact old
  · refine ⟨?_, fun hp => by cases hpl.symm.trans hp⟩
    rw [hs.shaped.pages, Nat.lt_succ_iff]
    exact Nat.div_le_div_right (Nat.le_sub_one_of_lt (hh.trans_le hb))

theorem touched_paged (hs : StoreSound s) (bs : ℕ → UInt8) {a n x : ℕ}
    (hp : s.paged = true) (hn : n ≠ 0) (hb : a + n ≤ s.elementCount)
    (hr : touchRange s a (a + n) = .ok rg) (hx : touchBytes s rg = some x) :
    Touched ⟨s, bs⟩ ⟨commitPages (touchCharged po s rg x).2 rg, faultPages s rg bs⟩ a n := by
  obtain ⟨h1, last, hin⟩ := touchRange_inRange hs.shaped hn hb hr
  refine ⟨?_, fun p h => (hs.commit hin hp hx).mapped_inside h, ?_⟩
  · intro p
    rw [← meets_iff hn hs.shaped.page, ← h1, ← last]
    have hbo := hin.pages.2
    simp only [PageStore.isCommitted, commitPages, touchCharged, markPages, hp, Bool.or_eq_true,
      Bool.and_eq_true, decide_eq_true_eq, true_implies]
    constructor
    · rintro ⟨low, ho | new⟩
      · exact Or.inl ⟨low, ho⟩
      · exact Or.inr new
    · rintro (⟨low, ho⟩ | new)
      · exact ⟨low, Or.inl ho⟩
      · exact ⟨by omega, Or.inr new⟩
  · intro o hbo hh
    apply faultPages_kept
    rintro p rfl
    have hcm : s.committed (p * s.systemPageBytes / s.elementWidth / s.pageElements) = true := by
      rcases hh with ho | hsh
      · exact ho.2 hp
      · exact (hs.pages.joined _).trans (by rw [hsh, Bool.true_or])
    have hbc := hs.backs _ hbo hcm
    rwa [Nat.mul_div_cancel _ hs.shaped.system] at hbc

/-- In every state a run of the pool reaches: a touch that succeeds has committed exactly the
pages of its interval on top of those there were, within the mapping and without changing a byte
of a committed or shared page, and doing it again changes nothing; one that is refused leaves the
store, its bytes and the counters as they were. -/
theorem touch_exact [Inhabited α] (slots tables maximumBytes : ℕ) (host : Host)
    (events : List PageEvent) (slot : ℕ) (store : PageStore α) (bytes : ℕ → UInt8) (a n : ℕ)
    (live : (run (PageWorld.step slots tables) (.start maximumBytes host) events).stores slot =
      some store) :
    let pool := (run (PageWorld.step slots tables) (.start maximumBytes host : PageWorld α)
      events).pool
    (mappingTouch pool ⟨store, bytes⟩ a n).Ensures
      (fun r => Touched ⟨store, bytes⟩ r.2 a n ∧
        ∃ host, (mappingTouch r.1 r.2 a n).state = ({ r.1 with host := host }, r.2))
      (fun r => r.2 = ⟨store, bytes⟩ ∧ ∃ host, r.1 = { pool with host := host }) := by
  intro pool
  have sound : StoreSound store :=
    (accounted_run slots tables maximumBytes host events).sound slot store live
  obtain ⟨e, host, h⟩ | ⟨hn, hb, plain, shared, h⟩ | ⟨hn, word, hb, kept, rg, x, hr, hx, hc, h⟩ :=
    storeTouch_cases pool store a n
  · simp only [mappingTouch, h]
    exact ⟨rfl, host, rfl⟩
  · have still : touchedBytes ⟨store, bytes⟩ a n = bytes := by simp [touchedBytes, plain, shared]
    simp only [mappingTouch, h, still]
    exact ⟨touched_plain sound bytes plain hb, pool.host, by simp [h, still]⟩
  · have faulted : ∀ (s : PageStore α) (bytes : ℕ → UInt8),
        (s.paged = false → s.shared ≠ none) → touchRange s a (a + n) = .ok rg →
        touchedBytes ⟨s, bytes⟩ a n = faultPages s rg bytes := by
      intro s bytes kept hr
      rw [touchedBytes, if_neg (by simpa using kept)]
      simp only [hr]
    simp only [mappingTouch, h, faulted store bytes kept hr]
    refine ⟨touched_paged sound bytes (sound.paged_of kept) hn hb hr hx,
      pool.hostCall.2.host.call.2, ?_⟩
    have again := storeTouch_again hn word hb kept hr hc pool.hostCall.2.host
    dsimp only at again ⊢
    rw [faulted (commitPages (touchCharged pool store rg x).2 rg) _ kept hr, faultPages_settled]
    cases second : storeTouch _ _ a n with
    | done r | refused e r =>
      rw [second] at again
      obtain rfl : r = _ := again
      rfl

/-- Ten elements of four bytes in pages of three on host pages of sixteen bytes. -/
theorem touch_exact_small :
    ∃ store : PageStore ℕ, ∃ pool, (mappingTouch pool ⟨store, fun _ => 0⟩ 2 5).succeeded = true ∧
      (mappingTouch pool ⟨store, fun _ => 0⟩ 2 5).Ensures
        (fun r => Touched ⟨store, fun _ => 0⟩ r.2 2 5 ∧
          ∃ host, (mappingTouch r.1 r.2 2 5).state = ({ r.1 with host := host }, r.2))
        (fun r => r.2 = ⟨store, fun _ => 0⟩ ∧ ∃ host, r.1 = { pool with host := host }) :=
  ⟨_, _, by decide, touch_exact 1 0 0 ⟨[], 16, fun _ => 0, 0, []⟩ [.opens 0 10 4 3 true] 0
    _ (fun _ => 0) 2 5 rfl⟩

end Yvex.StatePages
