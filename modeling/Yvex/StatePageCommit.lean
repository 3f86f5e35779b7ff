import Yvex.StatePages

/-!
# Opening, touching and sharing page stores

Each function follows the page-store operation it is named after, with the
refusal texts of the source. A touch decides first and mutates last: every
refusal leaves the store as it was and the pool's counters unchanged.
-/

set_option autoImplicit false

namespace Yvex.StatePages

open CheckedArithmetic RefusableStep

variable {α : Type}

structure TouchRange where
  first : ℕ
  last : ℕ
  systemFirst : ℕ
  systemLast : ℕ

def touchSpan (store : PageStore α) (first last : ℕ) : Option (ℕ × ℕ) := do
  let start ← u64Mul first store.pageElements
  let start ← u64Mul start store.elementWidth
  let pages ← u64Add last 1
  let finish ← u64Mul pages store.pageElements
  let finish ← u64Mul finish store.elementWidth
  some (start, finish)

def touchRange (store : PageStore α) (elementStart stop : ℕ) : Except PageError TouchRange :=
  let first := elementStart / store.pageElements
  let last := (stop - 1) / store.pageElements
  match touchSpan store first last with
  | none => .error ⟨.bounds, "state page protection range overflowed"⟩
  | some (byteStart, byteFinish) =>
    let byteEnd := min byteFinish store.requestedBytes
    let protectStart := byteStart - byteStart % store.systemPageBytes
    match u64Add byteEnd (store.systemPageBytes - 1) with
    | none => .error ⟨.bounds, "state page protection rounding overflowed"⟩
    | some rounded =>
      let protectEnd := rounded - rounded % store.systemPageBytes
      .ok ⟨first, last, protectStart / store.systemPageBytes,
        protectEnd / store.systemPageBytes - 1⟩

def pagesWhere (first last : ℕ) (p : ℕ → Bool) : ℕ :=
  (List.range' first (last + 1 - first)).countP p

def newPages (store : PageStore α) (range : TouchRange) : ℕ :=
  pagesWhere range.first range.last fun page => !store.committed page

def cowPages (store : PageStore α) (range : TouchRange) : ℕ :=
  pagesWhere range.first range.last fun page =>
    store.shared.isSome && store.committed page && !store.privateCommitted page

def newSystemPages (store : PageStore α) (range : TouchRange) : ℕ :=
  pagesWhere range.systemFirst range.systemLast fun page => !store.systemCommitted page

def cowSystemPages (store : PageStore α) (range : TouchRange) : ℕ :=
  pagesWhere range.systemFirst range.systemLast fun page =>
    store.shared.isSome && store.systemCommitted page && !store.privateSystemCommitted page

def touchBytes (store : PageStore α) (range : TouchRange) : Option ℕ := do
  let pages ← u64Add (newSystemPages store range) (cowSystemPages store range)
  u64Mul pages store.systemPageBytes

def touchCharge (pool : PagePool) (store : PageStore α) (range : TouchRange) (additional : ℕ) :
    Option (PagePool × PageStore α) := do
  guard (poolAdmit pool 0 additional)
  let poolResident ← u64Add pool.residentBytes additional
  let pages ← u64Add (newPages store range) (cowPages store range)
  let poolPages ← u64Add pool.residentPageCount pages
  let commits ← u64Add pool.pageCommitCount pages
  let storeResident ← u64Add store.residentBytes additional
  let storePages ← u64Add store.residentPages pages
  let systemPages ← u64Add (newSystemPages store range) (cowSystemPages store range)
  let storeSystemPages ← u64Add store.residentSystemPages systemPages
  some ({ pool with
      residentBytes := poolResident
      residentPageCount := poolPages
      pageCommitCount := commits },
    { store with
      residentBytes := storeResident
      residentPages := storePages
      residentSystemPages := storeSystemPages })

def markPages (bits : ℕ → Bool) (first last : ℕ) : ℕ → Bool :=
  fun page => bits page || (decide (first ≤ page) && decide (page ≤ last))

def commitPages (store : PageStore α) (range : TouchRange) : PageStore α :=
  { store with
    committed := markPages store.committed range.first range.last
    systemCommitted := markPages store.systemCommitted range.systemFirst range.systemLast
    privateCommitted :=
      if store.shared.isSome then markPages store.privateCommitted range.first range.last
      else store.privateCommitted
    privateSystemCommitted :=
      if store.shared.isSome then
        markPages store.privateSystemCommitted range.systemFirst range.systemLast
      else store.privateSystemCommitted }

def storeTouch (pool : PagePool) (store : PageStore α) (elementStart elementCount : ℕ) :
    Outcome PageError (PagePool × PageStore α) :=
  match u64Add elementStart elementCount with
  | none => .refused ⟨.bounds, "state page touch exceeds its virtual extent"⟩ (pool, store)
  | some stop =>
    if elementCount = 0 ∨ store.elementCount ≤ elementStart ∨ store.elementCount < stop then
      .refused ⟨.bounds, "state page touch exceeds its virtual extent"⟩ (pool, store)
    else if !store.paged && store.shared.isNone then .done (pool, store)
    else match touchRange store elementStart stop with
    | .error e => .refused e (pool, store)
    | .ok range =>
      match touchBytes store range with
      | none => .refused ⟨.bounds, "host page commitment byte extent overflowed"⟩ (pool, store)
      | some additional =>
        match touchCharge pool store range additional with
        | none => .refused ⟨.bounds, "state page commitment exceeds its budget or counters"⟩
            (pool, store)
        | some (charged, chargedStore) =>
          if pool.hostCall.1 then
            .done ({ charged with host := pool.hostCall.2.host }, commitPages chargedStore range)
          else .refused ⟨.nomem, "state page commitment failed"⟩ (pool.hostCall.2, store)

structure PageStore.Grows (store store' : PageStore α) : Prop where
  elementCount : store'.elementCount = store.elementCount
  elementWidth : store'.elementWidth = store.elementWidth
  pageElements : store'.pageElements = store.pageElements
  requestedBytes : store'.requestedBytes = store.requestedBytes
  mappedBytes : store'.mappedBytes = store.mappedBytes
  pageCount : store'.pageCount = store.pageCount
  systemPageCount : store'.systemPageCount = store.systemPageCount
  systemPageBytes : store'.systemPageBytes = store.systemPageBytes
  paged : store'.paged = store.paged
  shared : store'.shared = store.shared
  written : store'.written = store.written
  trapped : store'.trapped = store.trapped
  committed : ∀ page, store.committed page = true → store'.committed page = true
  systemCommitted : ∀ page, store.systemCommitted page = true → store'.systemCommitted page = true
  privateCommitted : ∀ page, store.privateCommitted page = true →
    store'.privateCommitted page = true

namespace PageStore.Grows

theorem refl (s : PageStore α) : s.Grows s := by
  constructor <;> first | rfl | exact fun _ h => h

theorem trans {a b c : PageStore α} (h : a.Grows b) (h' : b.Grows c) : a.Grows c where
  elementCount := h'.elementCount.trans h.elementCount
  elementWidth := h'.elementWidth.trans h.elementWidth
  pageElements := h'.pageElements.trans h.pageElements
  requestedBytes := h'.requestedBytes.trans h.requestedBytes
  mappedBytes := h'.mappedBytes.trans h.mappedBytes
  pageCount := h'.pageCount.trans h.pageCount
  systemPageCount := h'.systemPageCount.trans h.systemPageCount
  systemPageBytes := h'.systemPageBytes.trans h.systemPageBytes
  paged := h'.paged.trans h.paged
  shared := h'.shared.trans h.shared
  written := h'.written.trans h.written
  trapped := h'.trapped.trans h.trapped
  committed page hp := h'.committed page (h.committed page hp)
  systemCommitted page hp := h'.systemCommitted page (h.systemCommitted page hp)
  privateCommitted page hp := h'.privateCommitted page (h.privateCommitted page hp)

theorem read_eq [Inhabited α] {a b : PageStore α} (h : a.Grows b) : b.read = a.read := by
  funext i
  simp only [PageStore.read, h.written, h.shared]

end PageStore.Grows

theorem commitPages_grows (s : PageStore α) (rg : TouchRange) : s.Grows (commitPages s rg) := by
  constructor <;> try rfl
  all_goals
    intro p h
    by_cases hs : s.shared.isSome = true <;> simp [commitPages, markPages, hs, h]

def touchCharged (pool : PagePool) (store : PageStore α) (range : TouchRange) (additional : ℕ) :
    PagePool × PageStore α :=
  let pages := newPages store range + cowPages store range
  ({ pool with
      residentBytes := pool.residentBytes + additional
      residentPageCount := pool.residentPageCount + pages
      pageCommitCount := pool.pageCommitCount + pages },
    { store with
      residentBytes := store.residentBytes + additional
      residentPages := store.residentPages + pages
      residentSystemPages := store.residentSystemPages +
        (newSystemPages store range + cowSystemPages store range) })

structure WordSized (pool : PagePool) (store : PageStore α) : Prop where
  poolResident : pool.residentBytes < wordLimit
  poolPages : pool.residentPageCount < wordLimit
  commits : pool.pageCommitCount < wordLimit
  resident : store.residentBytes < wordLimit
  pages : store.residentPages < wordLimit
  systemPages : store.residentSystemPages < wordLimit

theorem touchCharge_eq_some {p : PagePool} {s : PageStore α} {rg : TouchRange} {x : ℕ}
    {r : PagePool × PageStore α} :
    touchCharge p s rg x = some r ↔ poolAdmit p 0 x = true ∧
      WordSized (touchCharged p s rg x).1 (touchCharged p s rg x).2 ∧
      r = touchCharged p s rg x := by
  constructor
  · intro h
    simp only [touchCharge, Option.bind_eq_bind, Option.bind_eq_some_iff, u64Add_eq_some,
      Option.guard_eq_some'] at h
    obtain ⟨_, ha, _, ⟨h1, rfl⟩, _, ⟨-, rfl⟩, _, ⟨h3, rfl⟩, _, ⟨h4, rfl⟩, _, ⟨h5, rfl⟩, _,
      ⟨h6, rfl⟩, _, ⟨-, rfl⟩, _, ⟨h8, rfl⟩, he⟩ := h
    exact ⟨ha, ⟨h1, h3, h4, h5, h6, h8⟩, (Option.some.inj he).symm⟩
  · rintro ⟨ha, ⟨h1, h3, h4, h5, h6, h8⟩, rfl⟩
    simp only [touchCharged] at h1 h3 h4 h5 h6 h8
    simp [touchCharge, ha, u64Add, h1, h3, h4, h5, h6, h8, touchCharged,
      (Nat.le_add_left _ _).trans_lt h3, (Nat.le_add_left _ _).trans_lt h8]

/-- What a touch can do: refuse and leave the store alone, pass through a store
without pages, or charge and mark the pages of the interval. -/
theorem storeTouch_cases (p : PagePool) (s : PageStore α) (a n : ℕ) :
    (∃ e host, storeTouch p s a n = .refused e ({ p with host := host }, s)) ∨
    (n ≠ 0 ∧ a + n ≤ s.elementCount ∧ s.paged = false ∧ s.shared = none ∧
      storeTouch p s a n = .done (p, s)) ∨
    (n ≠ 0 ∧ a + n < wordLimit ∧ a + n ≤ s.elementCount ∧
      (s.paged = false → s.shared ≠ none) ∧ ∃ rg x,
      touchRange s a (a + n) = .ok rg ∧ touchBytes s rg = some x ∧
      touchCharge p s rg x = some (touchCharged p s rg x) ∧
      storeTouch p s a n = .done
        ({ (touchCharged p s rg x).1 with host := p.hostCall.2.host },
          commitPages (touchCharged p s rg x).2 rg)) := by
  unfold storeTouch
  split
  · exact .inl ⟨_, p.host, rfl⟩
  rename_i hs
  obtain ⟨word, rfl⟩ := (u64Add_eq_some _ _ _).mp hs
  split
  · exact .inl ⟨_, p.host, rfl⟩
  split
  next hp =>
    simp only [Bool.and_eq_true, Bool.not_eq_true', Option.isNone_iff_eq_none] at hp
    exact .inr (.inl ⟨by omega, by omega, hp.1, hp.2, rfl⟩)
  next hp =>
  have hk : s.paged = false → s.shared ≠ none := by simpa using hp
  split
  · exact .inl ⟨_, p.host, rfl⟩
  rename_i rg hr
  split
  · exact .inl ⟨_, p.host, rfl⟩
  rename_i x hx
  split
  · exact .inl ⟨_, p.host, rfl⟩
  rename_i hc
  obtain ⟨-, -, he⟩ := touchCharge_eq_some.mp hc
  split
  · exact .inr (.inr ⟨by omega, word, by omega, hk, rg, x, hr, hx, he ▸ hc, by rw [← he]⟩)
  · exact .inl ⟨_, p.hostCall.2.host, rfl⟩

theorem storeTouch_grows {p : PagePool} {s : PageStore α} {a n : ℕ} :
    s.Grows (storeTouch p s a n).state.2 := by
  obtain ⟨e, host, h⟩ | ⟨-, -, -, -, h⟩ | ⟨-, -, -, -, rg, x, -, -, -, h⟩ :=
    storeTouch_cases p s a n
  · rw [h]
    exact .refl s
  · rw [h]
    exact .refl s
  · rw [h]
    exact (PageStore.Grows.refl s).trans
      (by constructor <;> first | rfl | exact fun _ h => h) |>.trans (commitPages_grows _ rg)

end Yvex.StatePages
