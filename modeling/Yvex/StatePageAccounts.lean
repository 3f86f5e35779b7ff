import Yvex.Runs
import Yvex.SlotTable
import Yvex.StatePagePool

/-!
# The accounts of the page pool

Every call moves the counters of the pool by what it changes at one store or table, so the
counters are sums over the live stores. A store owns the pages it has committed itself: its
private ones when it is mapped over a backing, all its committed ones otherwise.
-/

set_option autoImplicit false

namespace Yvex.StatePages

open CheckedArithmetic RefusableStep Runs SlotTable Nat Option Prod PageStore

variable {α : Type}

variable {p q : ℕ → Bool}

theorem countP_add {r : ℕ → Bool} (h : ∀ i, (p i).toNat + (q i).toNat = (r i).toNat)
    (l : List ℕ) : l.countP p + l.countP q = l.countP r := by
  induction l with
  | nil => rfl
  | cons i l ih =>
    have here := h i
    cases hp : p i <;> cases hq : q i <;> cases hr : r i <;> simp_all <;> omega

theorem bitCount_add (p : ℕ → Bool) (m n : ℕ) :
    bitCount p (m + n) = bitCount p m + bitCount (fun i => p (m + i)) n := by
  rw [bitCount, List.range_add, List.countP_append, List.countP_map]
  rfl

theorem bitCount_congr {n : ℕ} (h : ∀ i < n, p i = q i) : bitCount p n = bitCount q n :=
  List.countP_congr fun i mem => by rw [h i (List.mem_range.mp mem)]

theorem bitCount_mark (bi : ℕ → Bool) {fi l n : ℕ} (hf : fi ≤ l) (hl : l < n) :
    bitCount (markPages bi fi l) n = bitCount bi n + pagesWhere fi l fun p => !bi p := by
  obtain ⟨k, rfl⟩ := Nat.exists_eq_add_of_le hf
  obtain ⟨r, rfl⟩ := Nat.exists_eq_add_of_le hl
  have ir : bitCount (fun i => bi (fi + i)) (k + 1) +
      bitCount (fun i => !bi (fi + i)) (k + 1) = bitCount (fun _ => true) (k + 1) :=
    countP_add (fun i => by cases bi (fi + i) <;> rfl) _
  have new : pagesWhere fi (fi + k) (fun p => !bi p) =
      bitCount (fun i => !bi (fi + i)) (k + 1) := by
    rw [pagesWhere, Nat.add_assoc, Nat.add_sub_cancel_left, List.range'_eq_map_range,
      List.countP_map]
    rfl
  have low : bitCount (markPages bi fi (fi + k)) fi = bitCount bi fi :=
    bitCount_congr fun i hi => by simp [markPages, not_le.mpr hi]
  have marked : bitCount (fun i => markPages bi fi (fi + k) (fi + i)) (k + 1) =
      bitCount (fun _ => true) (k + 1) :=
    bitCount_congr fun i hi => by simp [markPages, Nat.lt_succ_iff.mp hi]
  have high : bitCount (fun i => markPages bi fi (fi + k) (fi + (k + 1) + i)) r =
      bitCount (fun i => bi (fi + (k + 1) + i)) r :=
    bitCount_congr fun i _ => by simp [markPages, show ¬ fi + (k + 1) + i ≤ fi + k by omega]
  have cut : (fi + k).succ + r = fi + (k + 1) + r := rfl
  rw [cut, bitCount_add, bitCount_add, bitCount_add bi, bitCount_add bi]
  omega

structure PageBits where
  mapped : Bool
  committed : ℕ → Bool
  own : ℕ → Bool
  shared : ℕ → Bool
  count : ℕ

namespace PageBits

def owned (b : PageBits) : ℕ → Bool := if b.mapped then b.own else b.committed

def mark (b : PageBits) (first last : ℕ) : PageBits :=
  { b with
    committed := markPages b.committed first last
    own := if b.mapped then markPages b.own first last else b.own }

structure Sound (b : PageBits) : Prop where
  inside : ∀ page, b.committed page = true → page < b.count
  joined : ∀ page, b.committed page = (b.shared page || b.owned page)

variable {b : PageBits} {fi last : ℕ}

theorem owned_mark (b : PageBits) (fi l : ℕ) : (b.mark fi l).owned = markPages b.owned fi l := by
  cases h : b.mapped <;> simp [owned, mark, h]

theorem Sound.mark (hs : b.Sound) (hl : last < b.count) : (b.mark fi last).Sound := by
  constructor
  · intro p hm
    simp only [PageBits.mark, markPages, Bool.or_eq_true, Bool.and_eq_true,
      decide_eq_true_eq] at hm ⊢
    rcases hm with old | new
    · exact hs.inside p old
    · omega
  · intro p
    rw [owned_mark]
    exact (congrArg (· || _) (hs.joined p)).trans (Bool.or_assoc ..)

theorem Sound.count_mark (hso : b.Sound) (hf : fi ≤ last) (hl : last < b.count) :
    bitCount (b.mark fi last).owned b.count = bitCount b.owned b.count +
      (pagesWhere fi last (fun i => !b.committed i) +
        pagesWhere fi last fun i => b.mapped && b.committed i && !b.own i) := by
  rw [owned_mark, bitCount_mark _ hf hl]
  congr 1
  refine (countP_add (fun i => ?_) _).symm
  have hh := hso.joined i
  unfold owned at hh ⊢
  cases hs : b.mapped <;> cases hc : b.committed i <;> cases ho : b.own i <;> simp_all

theorem Sound.unowned (hcm : b.committed = b.shared) (ho : b.owned = fun _ => false)
    (hin : ∀ p, b.shared p = true → p < b.count) : b.Sound := by
  refine ⟨hcm ▸ hin, fun p => ?_⟩
  rw [hcm, ho, Bool.or_false]

theorem mark_settled (b : PageBits) (fi l : ℕ) :
    pagesWhere fi l (fun i => !(b.mark fi l).committed i) = 0 ∧
    pagesWhere fi l (fun i => b.mapped && (b.mark fi l).committed i &&
      !(b.mark fi l).own i) = 0 := by
  simp only [pagesWhere, List.countP_eq_zero, List.mem_range'_1]
  constructor
  · intro i hh
    have : fi ≤ i ∧ i ≤ l := by omega
    simp [mark, markPages, this]
  · intro i hh
    have : fi ≤ i ∧ i ≤ l := by omega
    cases h : b.mapped <;> simp [mark, markPages, this, h]

theorem count_unowned (ho : b.owned = fun _ => false) : bitCount b.owned b.count = 0 := by
  simp [ho, bitCount]

end PageBits

namespace PageStore

def pageBits (store : PageStore α) : PageBits :=
  ⟨store.shared.isSome, store.committed, store.privateCommitted,
    fun page => store.shared.elim false (·.committed page), store.pageCount⟩

def systemBits (store : PageStore α) : PageBits :=
  ⟨store.shared.isSome, store.systemCommitted, store.privateSystemCommitted,
    fun page => store.shared.elim false (·.systemCommitted page), store.systemPageCount⟩

end PageStore

def Backs (requested width pageElements systemBytes : ℕ) (pages system : ℕ → Bool) : Prop :=
  ∀ offset < requested, pages (offset / width / pageElements) = true →
    system (offset / systemBytes) = true

structure BackingSound (b : SharedBacking α) : Prop where
  inside : ∀ page, b.committed page = true → page < b.pageCount
  systemInside : ∀ page, b.systemCommitted page = true →
    page < b.mappedBytes / b.systemPageBytes
  backs : Backs b.requestedBytes b.elementWidth b.pageElements b.systemPageBytes b.committed
    b.systemCommitted
  resident : b.residentBytes =
    bitCount b.systemCommitted (b.mappedBytes / b.systemPageBytes) * b.systemPageBytes

structure Shaped (store : PageStore α) : Prop where
  elements : 0 < store.elementCount
  width : 0 < store.elementWidth
  page : 0 < store.pageElements
  system : 0 < store.systemPageBytes
  requested : store.requestedBytes = store.elementCount * store.elementWidth
  pages : store.pageCount = (store.elementCount - 1) / store.pageElements + 1
  systemPages : store.systemPageCount = (store.requestedBytes - 1) / store.systemPageBytes + 1
  mapped : store.mappedBytes = store.systemPageCount * store.systemPageBytes

structure StoreSound (store : PageStore α) : Prop where
  shaped : Shaped store
  pages : store.pageBits.Sound
  systemPages : store.systemBits.Sound
  backs : Backs store.requestedBytes store.elementWidth store.pageElements store.systemPageBytes
    store.committed store.systemCommitted
  plain : store.paged = false → store.shared = none ∧
    store.residentBytes = store.requestedBytes ∧ store.residentPages = store.pageCount
  owned : store.paged = true →
    store.residentPages = bitCount store.pageBits.owned store.pageCount ∧
    store.residentSystemPages = bitCount store.systemBits.owned store.systemPageCount ∧
    store.residentBytes = store.residentSystemPages * store.systemPageBytes
  backing : ∀ b, store.shared = some b → BackingSound b ∧ SameGeometry store b

structure InRange (store : PageStore α) (range : TouchRange) : Prop where
  pages : range.first ≤ range.last ∧ range.last < store.pageCount
  systemPages : range.systemFirst ≤ range.systemLast ∧ range.systemLast < store.systemPageCount
  covers : ∀ offset < store.requestedBytes,
    range.first ≤ offset / store.elementWidth / store.pageElements →
    offset / store.elementWidth / store.pageElements ≤ range.last →
    range.systemFirst ≤ offset / store.systemPageBytes ∧
      offset / store.systemPageBytes ≤ range.systemLast

variable {st : PageStore α} {po : PagePool} {rg : TouchRange}

theorem touchRange_ok {a s : ℕ} (sy : 0 < st.systemPageBytes)
    (hp : 0 < min (((s - 1) / st.pageElements + 1) * st.pageElements * st.elementWidth)
      st.requestedBytes)
    (h : touchRange st a s = .ok rg) :
    rg = ⟨a / st.pageElements, (s - 1) / st.pageElements,
      a / st.pageElements * st.pageElements * st.elementWidth / st.systemPageBytes,
      (min (((s - 1) / st.pageElements + 1) * st.pageElements * st.elementWidth)
        st.requestedBytes - 1) / st.systemPageBytes⟩ := by
  simp only [touchRange] at h
  split at h
  · cases h
  rename_i hs
  simp only [touchSpan, bind_eq_bind, bind_eq_some_iff, u64Mul_eq_some,
    u64Add_eq_some, some.injEq, Prod.mk.injEq] at hs
  obtain ⟨_, ⟨-, rfl⟩, _, ⟨-, rfl⟩, _, ⟨-, rfl⟩, _, ⟨-, rfl⟩, _, ⟨-, rfl⟩, rfl, rfl⟩ := hs
  split at h
  · cases h
  rename_i hr
  obtain ⟨-, rfl⟩ := (u64Add_eq_some _ _ _).mp hr
  generalize min _ st.requestedBytes = stop' at hp h ⊢
  have hsh : stop' + (st.systemPageBytes - 1) = stop' - 1 + st.systemPageBytes := by omega
  rw [← div_eq_sub_mod_div, ← div_eq_sub_mod_div, hsh, add_div_right _ sy] at h
  cases h
  rfl

theorem touchRange_inRange (hs : Shaped st) {a n : ℕ} (hn : n ≠ 0)
    (hb : a + n ≤ st.elementCount) (h : touchRange st a (a + n) = .ok rg) :
    rg.first = a / st.pageElements ∧ rg.last = (a + n - 1) / st.pageElements ∧
      InRange st rg := by
  obtain ⟨e, wd, p, sy, hr, pa, s, -⟩ := hs
  have tt : 0 < st.requestedBytes := hr ▸ mul_pos e wd
  have hf : 0 < ((a + n - 1) / st.pageElements + 1) * st.pageElements *
      st.elementWidth := by positivity
  have heq := touchRange_ok sy (lt_min hf tt) h
  have od : a / st.pageElements ≤ (a + n - 1) / st.pageElements := Nat.div_le_div_right (by omega)
  have sr : a / st.pageElements * st.pageElements * st.elementWidth <
      st.requestedBytes := by
    rw [hr]
    exact mul_lt_mul_of_pos_right ((div_mul_le_self a _).trans_lt (by omega)) wd
  have be : a / st.pageElements * st.pageElements * st.elementWidth <
      ((a + n - 1) / st.pageElements + 1) * st.pageElements * st.elementWidth :=
    mul_lt_mul_of_pos_right (mul_lt_mul_of_pos_right (by omega) p) wd
  subst heq
  refine ⟨rfl, rfl, ⟨od, ?_⟩, ⟨?_, ?_⟩, ?_⟩
  · rw [pa, Nat.lt_succ_iff]
    exact Nat.div_le_div_right (by omega)
  · exact Nat.div_le_div_right (Nat.le_sub_one_of_lt (lt_min be sr))
  · rw [s, Nat.lt_succ_iff]
    exact Nat.div_le_div_right (Nat.sub_le_sub_right (min_le_right _ _) 1)
  · intro o hbo low hh
    rw [le_div_iff_mul_le p, le_div_iff_mul_le wd] at low
    rw [← Nat.lt_succ_iff, Nat.div_lt_iff_lt_mul p, Nat.div_lt_iff_lt_mul wd] at hh
    exact ⟨Nat.div_le_div_right low, Nat.div_le_div_right (Nat.le_sub_one_of_lt (lt_min hh hbo))⟩

def weigh (f : PageStore α → ℕ) (o : Option (PageStore α)) : ℕ := o.elim 0 f

def Budgeted (pool : PagePool) : Prop :=
  pool.maximumBytes ≠ 0 → pool.metadataBytes + pool.residentBytes ≤ pool.maximumBytes

inductive Counter where
  | metadata | resident | virtual | pages | residentPages | stores

namespace Counter

def ofPool : Counter → PagePool → ℕ
  | metadata => (·.metadataBytes)
  | resident => (·.residentBytes)
  | virtual => (·.virtualBytes)
  | pages => (·.pageCount)
  | residentPages => (·.residentPageCount)
  | stores => (·.storeCount)

def ofStore : Counter → PageStore α → ℕ
  | metadata => (·.metadataCharge)
  | resident => (·.residentBytes)
  | virtual => (·.requestedBytes)
  | pages => (·.pageCount)
  | residentPages => (·.residentPages)
  | stores => fun _ => 1

def ofTables (tables : ℕ → ℕ × ℕ) (count : ℕ) : Counter → ℕ
  | metadata => total Prod.snd tables count
  | _ => 0

end Counter

structure Moves (pool : PagePool) (old : Option (PageStore α))
    (r : PagePool × Option (PageStore α)) : Prop where
  moved : ∀ c : Counter, c.ofPool r.1 + weigh c.ofStore old = c.ofPool pool + weigh c.ofStore r.2
  budget : Budgeted pool → Budgeted r.1
  sound : ∀ s, r.2 = some s → StoreSound s

theorem Moves.kept (p : PagePool) (host : Host) (hs : StoreSound st) :
    Moves p (some st) ({ p with host := host }, some st) :=
  ⟨fun c => by cases c <;> rfl, id, fun _ h => some.inj h ▸ hs⟩

theorem Moves.absent (p : PagePool) (host : Host) :
    Moves p (none : Option (PageStore α)) ({ p with host := host }, none) :=
  ⟨fun c => by cases c <;> rfl, id, nofun⟩

theorem poolAdmit_iff {m r : ℕ} : poolAdmit po m r = true ↔
      po.metadataBytes + po.residentBytes + (m + r) < wordLimit ∧
      (po.maximumBytes = 0 ∨ po.metadataBytes + po.residentBytes + (m + r) ≤ po.maximumBytes) := by
  by_cases h : po.metadataBytes + po.residentBytes + (m + r) < wordLimit
  · have h1 : po.metadataBytes + po.residentBytes < wordLimit := by omega
    have h2 : m + r < wordLimit := by omega
    simp [poolAdmit, u64Add, h, h1, h2]
  · unfold poolAdmit u64Add
    split_ifs <;> simp [h]

theorem StoreSound.commit (hso : StoreSound st) (hi : InRange st rg)
    (hp : st.paged = true) {x : ℕ} (hx : touchBytes st rg = some x) :
    StoreSound (commitPages (touchCharged po st rg x).2 rg) := by
  obtain ⟨hs, p, s, hbc, -, ho, ba⟩ := hso
  obtain ⟨h1, h2, h3⟩ := ho hp
  refine ⟨⟨hs.1, hs.2, hs.3, hs.4, hs.5, hs.6, hs.7, hs.8⟩,
    p.mark hi.pages.2, s.mark hi.systemPages.2, ?_, ?_,
    fun _ => ⟨?_, ?_, ?_⟩, ba⟩
  · intro o hb hm
    simp only [commitPages, touchCharged, markPages, Bool.or_eq_true, Bool.and_eq_true,
      decide_eq_true_eq] at hm ⊢
    rcases hm with old | ⟨low, hh⟩
    · exact Or.inl (hbc o hb old)
    · exact Or.inr (hi.covers o hb low hh)
  · intro hpl
    cases hp.symm.trans hpl
  · exact (congrArg (· + _) h1).trans (p.count_mark hi.pages.1 hi.pages.2).symm
  · exact (congrArg (· + _) h2).trans (s.count_mark hi.systemPages.1 hi.systemPages.2).symm
  · simp only [touchBytes, bind_eq_bind, bind_eq_some_iff, u64Add_eq_some, u64Mul_eq_some] at hx
    obtain ⟨_, ⟨-, rfl⟩, -, rfl⟩ := hx
    exact (congrArg (· + _) h3).trans (add_mul ..).symm

theorem StoreSound.paged_of (hs : StoreSound st)
    (hk : st.paged = false → st.shared ≠ none) : st.paged = true := by
  by_contra plain
  rw [Bool.not_eq_true] at plain
  exact hk plain (hs.plain plain).1

open Counter

theorem storeTouch_moves (hs : StoreSound st) (a n : ℕ) :
    Moves po (some st) (Prod.map id some (storeTouch po st a n).state) := by
  obtain ⟨e, ho, h⟩ | ⟨-, -, -, -, h⟩ | ⟨hn, -, hb, hk, rg, x, hr, hx, hc, h⟩ :=
    storeTouch_cases po st a n
  · rw [h]
    exact .kept po ho hs
  · rw [h]
    exact .kept po po.host hs
  · rw [h]
    obtain ⟨ha, -, -⟩ := touchCharge_eq_some.mp hc
    obtain ⟨-, -, hin⟩ := touchRange_inRange hs.shaped hn hb hr
    have hp := hs.paged_of hk
    refine ⟨?_, ?_, ?_⟩
    · rintro (_ | _ | _ | _ | _ | _)
      all_goals
        simp only [ofPool, ofStore, weigh, Option.elim, map, id, touchCharged,
          commitPages, Outcome.state]
        try omega
    · intro _ hlm
      have := (poolAdmit_iff.mp ha).2
      simp only [touchCharged, Outcome.state, map, id] at hlm ⊢
      omega
    · rintro _ ⟨⟩
      exact hs.commit hin hp hx

theorem StoreSound.blank (hsh : Shaped st) (hs : st.shared = none)
    (hcm : st.committed = fun _ => false)
    (hsy : st.systemCommitted = fun _ => false)
    (hp : st.paged = false → st.residentBytes = st.requestedBytes ∧ st.residentPages = st.pageCount)
    (hk : st.paged = true → st.residentPages = 0 ∧ st.residentSystemPages = 0 ∧
      st.residentBytes = 0) : StoreSound st := by
  have ho : st.pageBits.owned = fun _ => false := by simp [PageBits.owned, pageBits, hs, hcm]
  have hss : st.systemBits.owned = fun _ => false := by simp [PageBits.owned, systemBits, hs, hsy]
  refine ⟨hsh, .unowned ?_ ho ?_, .unowned ?_ hss ?_, ?_, fun h => ⟨hs, hp h⟩, ?_, ?_⟩
  · simp [pageBits, hs, hcm]
  · simp [pageBits, hs]
  · simp [systemBits, hs, hsy]
  · simp [systemBits, hs]
  · simp [Backs, hcm]
  · intro h
    obtain ⟨p, s, r⟩ := hk h
    refine ⟨p.trans (PageBits.count_unowned ho).symm, s.trans (PageBits.count_unowned hss).symm, ?_⟩
    rw [r, s, zero_mul]
  · simp [hs]

theorem storeReserved_sound {e wd p s c : ℕ} {pa : Bool}
    {g : PageGeometry} (h : pagesGeometry e wd p s = some g) :
    StoreSound (storeReserved g e wd p s pa c : PageStore α) := by
  simp only [pagesGeometry, bind_eq_bind, bind_eq_some_iff, u64Mul_eq_some,
    u64Add_eq_some, guard_eq_some', some.injEq] at h
  obtain ⟨_, ⟨he, hw, hp, hs⟩, _, ⟨-, rfl⟩, _, ⟨-, rfl⟩, _, ⟨-, rfl⟩, rfl⟩ := h
  have total : 0 < e * wd := mul_pos (by omega) (by omega)
  have bytes : e * wd + (s - 1) = e * wd - 1 + s := by omega
  have count : e + (p - 1) = e - 1 + p := by omega
  have ps : (e - 1 + p) / p = (e - 1) / p + 1 := add_div_right _ (by omega)
  have mapped : e * wd - 1 + s - (e * wd - 1 + s) % s = ((e * wd - 1) / s + 1) * s := by
    rw [← add_div_right _ (by omega), div_mul_self_eq_mod_sub_self]
  have sy : ((e * wd - 1) / s + 1) * s / s = (e * wd - 1) / s + 1 := Nat.mul_div_cancel _ (by omega)
  rw [bytes, count, mapped, ps]
  refine .blank ⟨?_, ?_, ?_, ?_, rfl, rfl, sy, ?_⟩ rfl rfl rfl ?_ ?_
  · exact pos_of_ne_zero he
  · exact pos_of_ne_zero hw
  · exact pos_of_ne_zero hp
  · exact pos_of_ne_zero hs
  · exact congrArg (· * s) sy.symm
  · intro plain
    subst plain
    exact ⟨rfl, rfl⟩
  · intro hk
    subst hk
    exact ⟨rfl, rfl, rfl⟩

theorem storeRegister_moves {p : PagePool} (hs : StoreSound st)
    (hb : st.residentPages = if st.paged then 0 else st.pageCount)
    (h : storeRegister po st = some p) : Moves po none (p, some st) := by
  simp only [storeRegister, bind_eq_bind, bind_eq_some_iff, u64Add_eq_some,
    guard_eq_some', some.injEq] at h
  obtain ⟨_, ⟨-, rfl⟩, _, ⟨-, rfl⟩, _, fits, _, ⟨-, rfl⟩, _, ⟨-, rfl⟩, _, ⟨-, rfl⟩, _, ⟨-, rfl⟩,
    rfl⟩ := h
  refine ⟨?_, ?_, ?_⟩
  · rintro (_ | _ | _ | _ | _ | _)
    case residentPages => exact congrArg (po.residentPageCount + ·) hb.symm
    all_goals rfl
  · intro _ hlm
    simp only at hlm ⊢
    omega
  · rintro _ ⟨⟩
    exact hs

theorem storeOpen_moves (e wd p : ℕ) (pa : Bool) :
    Moves po (none : Option (PageStore α)) (storeOpen po e wd p pa).state := by
  unfold storeOpen
  dsimp only
  split
  · exact .absent po po.host
  split
  · exact .absent po po.host
  split
  · exact .absent po _
  split
  · exact .absent po _
  rename_i hg
  split
  · exact .absent po _
  split
  · exact .absent po _
  split
  · exact .absent po _
  rename_i hr
  obtain ⟨hmv, bu, hs⟩ := storeRegister_moves (storeReserved_sound hg) rfl hr
  refine ⟨fun c => (hmv c).trans ?_, bu, hs⟩
  cases c <;> rfl

theorem Shaped.system_count (hs : Shaped st) :
    st.mappedBytes / st.systemPageBytes = st.systemPageCount := by
  rw [hs.mapped]
  exact Nat.mul_div_cancel _ hs.system

variable {b : SharedBacking α}

theorem storeMapped_sound (hs : Shaped st) (hb : BackingSound b)
    (hp : st.paged = true) (hsa : SameGeometry st b) :
    StoreSound (storeMapped st b) := by
  have g := hsa
  simp only [SameGeometry, SharedBacking.geometry, PageStore.geometry, Prod.mk.injEq] at g
  obtain ⟨-, wd, pa, hm, hr, p, s⟩ := g
  have hin := hb.inside
  have hsy := hb.systemInside
  have hbc := hb.backs
  rw [p] at hin
  rw [hm, s, hs.system_count] at hsy
  rw [hr, wd, pa, s] at hbc
  refine ⟨⟨hs.1, hs.2, hs.3, hs.4, hs.5, hs.6, hs.7, hs.8⟩,
    .unowned rfl rfl hin, .unowned rfl rfl hsy, hbc, ?_, ?_, ?_⟩
  · intro hpl
    cases hp.symm.trans hpl
  · exact fun _ => ⟨(PageBits.count_unowned rfl).symm, (PageBits.count_unowned rfl).symm,
      (zero_mul _).symm⟩
  · rintro _ ⟨⟩
    exact ⟨hb, hsa⟩

theorem storeInstallShared_moves (hs : StoreSound st) (hb : BackingSound b) :
    Moves po (some st) (Prod.map id some (storeInstallShared po st b).state) := by
  unfold storeInstallShared
  dsimp only
  split
  · exact .kept po po.host hs
  rename_i hf
  split
  · exact .kept po _ hs
  split
  · exact .kept po _ hs
  split
  · exact .kept po _ hs
  split
  · exact .kept po _ hs
  rename_i hh
  split
  · exact .kept po _ hs
  push Not at hf hh
  refine ⟨?_, ?_, ?_⟩
  · rintro (_ | _ | _ | _ | _ | _)
    case resident => exact Nat.sub_add_cancel hh.1
    case residentPages => exact Nat.sub_add_cancel hh.2
    all_goals rfl
  · intro fine hlm
    have := fine hlm
    simp only [map, id, Outcome.state]
    omega
  · rintro _ ⟨⟩
    exact storeMapped_sound hs.shaped hb (by simpa using hf.1) hf.2

theorem storeCleared_sound (hs : Shaped st) :
    StoreSound (storeCleared st (if st.paged then 0 else st.requestedBytes)
      (if st.paged then 0 else st.pageCount)) := by
  refine .blank ⟨hs.1, hs.2, hs.3, hs.4, hs.5, hs.6, hs.7, hs.8⟩ rfl rfl rfl ?_ ?_
  · intro hpl
    simp only [storeCleared] at hpl ⊢
    simp [hpl]
  · intro hp
    simp only [storeCleared] at hp ⊢
    simp [hp]

theorem storeReset_moves (hs : StoreSound st) :
    Moves po (some st) (Prod.map id some (storeReset po st).state) := by
  unfold storeReset
  dsimp only
  split
  · refine ⟨fun c => by cases c <;> rfl, id, ?_⟩
    rintro _ ⟨⟩
    obtain ⟨s, h1, h2, h3, h4, h5, h6⟩ := hs
    exact ⟨⟨s.1, s.2, s.3, s.4, s.5, s.6, s.7, s.8⟩, h1, h2, h3, h4, h5, h6⟩
  split
  · exact .kept po po.host hs
  rename_i hh
  split
  · rename_i h2 h3
    split
    · exact .kept po po.host hs
    split
    · obtain ⟨-, rfl⟩ := (u64Add_eq_some _ _ _).mp h2
      obtain ⟨-, rfl⟩ := (u64Add_eq_some _ _ _).mp h3
      refine ⟨?_, ?_, ?_⟩
      · rintro (_ | _ | _ | _ | _ | _)
        all_goals
          simp only [ofPool, ofStore, weigh, Option.elim, map, id, storeCleared, Outcome.state]
          try omega
      · intro _ hlm
        simp only [map, id, Outcome.state] at hlm ⊢
        omega
      · rintro _ ⟨⟩
        exact storeCleared_sound hs.shaped
    · exact .kept po _ hs
  · exact .kept po po.host hs

theorem storeClose_moves (hh : ∀ c : Counter, c.ofStore st ≤ c.ofPool po) :
    Moves po (some st) (storeClose po st, none) := by
  refine ⟨fun c => ?_, ?_, nofun⟩
  · have hc := Nat.sub_add_cancel (hh c)
    cases c <;> exact hc
  · intro hf hlm
    have := hf hlm
    simp only [storeClose]
    omega

theorem sharedBacking_sound [Inhabited α] (hs : StoreSound st) (n : ℕ)
    (identity : AttentionData.Identity) :
    BackingSound (sharedBacking st n (bitCount (sharedBacking st n 0 []).systemCommitted
      (st.mappedBytes / st.systemPageBytes) * st.systemPageBytes) identity) := by
  have m := hs.shaped.system_count
  refine ⟨?_, ?_, ?_, rfl⟩
  · intro p hc
    simp only [sharedBacking] at hc ⊢
    split at hc
    · exact hs.pages.inside p hc
    · exact of_decide_eq_true hc
  · intro p hc
    simp only [sharedBacking] at hc ⊢
    split at hc
    · rw [m]
      exact hs.systemPages.inside p hc
    · exact of_decide_eq_true hc
  · intro o hb hc
    simp only [sharedBacking] at hb hc ⊢
    split at hc
    · rename_i hp
      rw [if_pos hp]
      exact hs.backs o hb hc
    · rename_i hpl
      rw [if_neg hpl, m, hs.shaped.systemPages, decide_eq_true_eq, Nat.lt_succ_iff]
      exact Nat.div_le_div_right (Nat.le_sub_one_of_lt hb)

theorem sharedOpen_sound [Inhabited α] (p : PagePool) (hs : StoreSound st)
    (identity : Option AttentionData.Identity) :
    (∃ host, (sharedOpen p st identity).state.1 = { p with host := host }) ∧
      ∀ b ∈ (sharedOpen p st identity).state.2, BackingSound b := by
  unfold sharedOpen
  dsimp only
  split
  · exact ⟨⟨p.host, rfl⟩, nofun⟩
  split
  · exact ⟨⟨_, rfl⟩, nofun⟩
  split
  · exact ⟨⟨_, rfl⟩, nofun⟩
  rename_i hr
  obtain ⟨-, rfl⟩ := (u64Mul_eq_some _ _ _).mp hr
  split
  · refine ⟨⟨_, rfl⟩, ?_⟩
    rintro _ ⟨⟩
    exact sharedBacking_sound hs _ _
  · exact ⟨⟨_, rfl⟩, nofun⟩

structure Accounted (slots tables : ℕ) (w : PageWorld α) : Prop where
  counted : ∀ c : Counter, c.ofPool w.pool =
    total (weigh c.ofStore) w.stores slots + c.ofTables w.tables tables
  budget : Budgeted w.pool
  sound : ∀ slot store, w.stores slot = some store → StoreSound store
  sealed : ∀ b ∈ w.backings, BackingSound b

variable {ss t j : ℕ} {w : PageWorld α}

theorem Accounted.replace (ha : Accounted ss t w) (hb : j < ss)
    {r : PagePool × Option (PageStore α)} (m : Moves w.pool (w.stores j) r) :
    Accounted ss t { w with
      pool := r.1, stores := Function.update w.stores j r.2 } := by
  constructor
  · intro c
    have hr := total_update (weigh c.ofStore) w.stores hb r.2
    have hmv := m.moved c
    have hct := ha.counted c
    dsimp only
    omega
  · exact m.budget ha.budget
  · intro i st f
    dsimp only at f
    by_cases hh : i = j
    · rw [hh, Function.update_self] at f
      exact m.sound st f
    · rw [Function.update_of_ne hh] at f
      exact ha.sound i st f
  · exact ha.sealed

/-- A call that moves bytes reserved for one table, and no store. -/
theorem Accounted.reserve (ha : Accounted ss t w) {ta : ℕ} (hbo : ta < t) {held : ℕ × ℕ}
    (hm : po.metadataBytes + (w.tables ta).2 = w.pool.metadataBytes + held.2)
    (hr : po = { w.pool with metadataBytes := po.metadataBytes, host := po.host })
    (hb : Budgeted w.pool → Budgeted po) :
    Accounted ss t { w with
      pool := po, tables := Function.update w.tables ta held } := by
  have move := total_update snd w.tables hbo held
  refine ⟨fun c => ?_, hb ha.budget, ha.sound, ha.sealed⟩
  have hct := ha.counted c
  rw [hr] at hm ⊢
  cases c with
  | metadata =>
    simp only [ofPool, ofTables] at hct hm ⊢
    omega
  | _ => exact hct

theorem Accounted.le (acc : Accounted ss t w) (hb : j < ss)
    (hf : w.stores j = some st) (c : Counter) : c.ofStore st ≤ c.ofPool w.pool := by
  have le := weight_le_total (weigh c.ofStore) w.stores hb
  rw [hf] at le
  rw [acc.counted c]
  exact le.trans (Nat.le_add_right ..)

theorem Accounted.onStore (acc : Accounted ss t w) (hb : j < ss)
    {c : PageStore α → Outcome PageError (PagePool × PageStore α)}
    (m : ∀ st, StoreSound st → Moves w.pool (some st) (Prod.map id some (c st).state)) :
    Accounted ss t (w.onStore j c) := by
  unfold PageWorld.onStore
  split
  · exact acc
  rename_i st f
  have hr := m st (acc.sound j st f)
  rw [← f] at hr
  exact acc.replace hb hr

theorem pointerTableReserve_pool (pool : PagePool) (c bs lim : ℕ) :
    let r := (Provider.pointerTableReserve pool c bs lim).state
    r.1.metadataBytes + bs = pool.metadataBytes + r.2.2 ∧
    r.1 = { pool with metadataBytes := r.1.metadataBytes, host := r.1.host } ∧
    (Budgeted pool → Budgeted r.1) := by
  have hk : pool = { pool with metadataBytes := pool.metadataBytes, host := pool.host } := rfl
  unfold Provider.pointerTableReserve
  dsimp only
  split
  · exact ⟨rfl, hk, id⟩
  split
  · exact ⟨rfl, hk, id⟩
  split
  · exact ⟨rfl, hk, id⟩
  split
  · exact ⟨rfl, hk, id⟩
  rename_i _ _ hf
  unfold poolReserve
  split
  · rename_i hp
    split at hp
    · cases hp
    · cases hp
      exact ⟨rfl, hk, id⟩
  · rename_i hp
    split at hp
    · rename_i hh hm
      cases hp
      obtain ⟨-, rfl⟩ := (u64Add_eq_some _ _ _).mp hm
      have ha := (poolAdmit_iff.mp hh).2
      split
      · rename_i hc
        obtain rfl := congrArg snd hc
        refine ⟨?_, rfl, ?_⟩
        · dsimp only [PagePool.hostCall, Outcome.state]
          omega
        · intro _ hlm
          dsimp only [PagePool.hostCall, Outcome.state] at hlm ⊢
          omega
      · rename_i hc
        obtain rfl := congrArg snd hc
        have back : ∀ n, n ≤ pool.metadataBytes + n := fun n => Nat.le_add_left n _
        simp only [poolRelease, PagePool.hostCall, if_pos (back _), Nat.add_sub_cancel_right]
        exact ⟨rfl, rfl, id⟩
    · cases hp

theorem poolBindCapacity_pool (p : PagePool) (c : Option CapacityPlan.ExecutionCapacityPlan) :
    let r := (poolBindCapacity p c).state
    r = { p with maximumBytes := r.maximumBytes } ∧ (Budgeted p → Budgeted r) := by
  unfold poolBindCapacity
  dsimp only
  split
  · exact ⟨rfl, id⟩
  rename_i sums
  simp only [bind_eq_bind, bind_eq_some_iff, u64Add_eq_some, some.injEq, Prod.mk.injEq] at sums
  split
  · exact ⟨rfl, id⟩
  split
  · refine ⟨rfl, fun _ hlm => ?_⟩
    dsimp only [Outcome.state] at hlm ⊢
    omega
  · exact ⟨rfl, id⟩

theorem Accounted.ite {c : Prop} [Decidable c] {w' : PageWorld α} (acc : Accounted ss t w)
    (h : c → Accounted ss t w') : Accounted ss t (if c then w' else w) := by
  split
  · exact h ‹c›
  · exact acc

/-- Every event keeps the counters of the pool the sums over its stores and tables. -/
theorem Accounted.step [Inhabited α] (ha : Accounted ss t w) (ev : PageEvent) :
    Accounted ss t (w.step ss t ev) := by
  cases ev with
  | opens j e wd p hp =>
    refine ha.ite fun hf => ha.replace hf.1 ?_
    rw [isNone_iff_eq_none.mp hf.2]
    exact storeOpen_moves e wd p hp
  | touch j a n => exact ha.ite fun hb => ha.onStore hb fun st hs => storeTouch_moves hs a n
  | share j identity =>
    rw [PageWorld.step]
    split
    · exact ha
    rename_i st f
    obtain ⟨⟨h, same⟩, hs⟩ := sharedOpen_sound w.pool (ha.sound j st f) identity
    dsimp only
    rw [same]
    refine ⟨fun c => (ha.counted c).symm.trans ?_ |>.symm, ha.budget, ha.sound, ?_⟩
    · cases c <;> rfl
    intro b mem
    rcases List.mem_append.mp mem with old | new
    · exact ha.sealed b old
    · exact hs b (mem_toList.mp new)
  | install j i =>
    rw [PageWorld.step]
    split
    · exact ha
    · rename_i ba f
      have hsl := ha.sealed ba (List.mem_of_getElem? f)
      exact ha.ite fun hb => ha.onStore hb fun st hs => storeInstallShared_moves hs hsl
  | reset => exact ha.ite fun hb => ha.onStore hb fun st hs => storeReset_moves hs
  | close j =>
    rw [PageWorld.step]
    split
    · exact ha
    rename_i f
    refine ha.ite fun hb => ?_
    have mv := storeClose_moves (ha.le hb f)
    rw [← f] at mv
    exact ha.replace hb mv
  | reserve ta lim =>
    obtain ⟨m, r, bu⟩ := pointerTableReserve_pool w.pool (w.tables ta).1 (w.tables ta).2 lim
    exact ha.ite fun hb => ha.reserve hb m r bu
  | release ta =>
    refine ha.ite fun hb => ?_
    have le := weight_le_total snd w.tables hb
    have hh : (w.tables ta).2 ≤ w.pool.metadataBytes :=
      (le.trans (Nat.le_add_left ..)).trans_eq (ha.counted .metadata).symm
    unfold poolRelease
    rw [if_pos hh]
    refine ha.reserve hb (Nat.sub_add_cancel hh) rfl ?_
    intro fine hlm
    have := fine hlm
    dsimp only
    omega
  | bind c =>
    have hl := poolBindCapacity_pool w.pool c
    have bu := hl.2 ha.budget
    rw [hl.1] at bu
    rw [PageWorld.step, hl.1]
    refine ⟨fun c => (ha.counted c).symm.trans ?_ |>.symm, bu, ha.sound, ha.sealed⟩
    cases c <;> rfl

theorem accounted_run [Inhabited α] (ss t m : ℕ) (host : Host) (ev : List PageEvent) :
    Accounted ss t (run (PageWorld.step ss t) (.start m host : PageWorld α) ev) := by
  refine run_invariant (P := Accounted ss t) (fun _ e acc => acc.step e) ?_ ev
  refine ⟨fun c => ?_, fun _ => zero_le _, nofun, nofun⟩
  have s : total (weigh c.ofStore) (fun _ => (none : Option (PageStore α))) ss = 0 :=
    total_eq_zero fun _ _ => rfl
  have hr : total snd (fun _ => ((0, 0) : ℕ × ℕ)) t = 0 := total_eq_zero fun _ _ => rfl
  cases c <;> simp [PageWorld.start, ofPool, ofTables, s, hr]

/-- After every run the counters of the pool are the sums over the live stores and the tables,
within the budget; a paged store has the bits of its own pages counted, and a store that is not
paged is resident with all of its requested bytes. -/
theorem page_accounts [Inhabited α] (slots tables maximumBytes : ℕ) (host : Host)
    (events : List PageEvent) :
    let w : PageWorld α := run (PageWorld.step slots tables) (.start maximumBytes host) events
    w.pool.metadataBytes =
      total (weigh (·.metadataCharge)) w.stores slots + total snd w.tables tables ∧
    w.pool.residentBytes = total (weigh (·.residentBytes)) w.stores slots ∧
    w.pool.virtualBytes = total (weigh (·.requestedBytes)) w.stores slots ∧
    w.pool.pageCount = total (weigh (·.pageCount)) w.stores slots ∧
    w.pool.residentPageCount = total (weigh (·.residentPages)) w.stores slots ∧
    (w.pool.maximumBytes ≠ 0 →
      w.pool.metadataBytes + w.pool.residentBytes ≤ w.pool.maximumBytes) ∧
    (∀ table < tables, (w.tables table).2 ≤ w.pool.metadataBytes) ∧
    ∀ j < slots, ∀ store, w.stores j = some store →
      (if store.paged then
        store.residentPages = bitCount store.pageBits.owned store.pageCount ∧
        store.residentBytes =
          bitCount store.systemBits.owned store.systemPageCount * store.systemPageBytes
      else store.residentPages = store.pageCount ∧ store.residentBytes = store.requestedBytes) ∧
      store.metadataCharge ≤ w.pool.metadataBytes ∧ store.residentBytes ≤ w.pool.residentBytes ∧
      store.requestedBytes ≤ w.pool.virtualBytes ∧ store.pageCount ≤ w.pool.pageCount ∧
      store.residentPages ≤ w.pool.residentPageCount ∧ 0 < w.pool.storeCount := by
  intro w
  have acc : Accounted slots tables w := accounted_run slots tables maximumBytes host events
  refine ⟨acc.counted .metadata, acc.counted .resident, acc.counted .virtual, acc.counted .pages,
    acc.counted .residentPages, acc.budget, ?_, ?_⟩
  · intro table bound
    have le := weight_le_total snd w.tables bound
    exact (le.trans (Nat.le_add_left ..)).trans_eq (acc.counted .metadata).symm
  · intro j bound store found
    have sound := acc.sound j store found
    have le := acc.le bound found
    refine ⟨?_, le .metadata, le .resident, le .virtual, le .pages, le .residentPages, le .stores⟩
    split
    · rename_i paged
      obtain ⟨pages, systemPages, resident⟩ := sound.owned paged
      exact ⟨pages, systemPages ▸ resident⟩
    · rename_i plain
      obtain ⟨-, resident, pages⟩ := sound.plain (by simpa using plain)
      exact ⟨pages, resident⟩

def smallPages : Host := ⟨[], 4096, fun _ => 0, 0, []⟩

/-- A store of four bytes that is not paged is resident with these four bytes, while a whole
host page is behind it. -/
theorem plain_store_resident :
    ∃ store : PageStore ℕ, (run (PageWorld.step 1 0) (.start 0 smallPages)
        [.opens 0 1 4 1 false]).stores 0 = some store ∧ store.systemPageCount = 1 ∧
      store.residentBytes = 4 ∧
      store.residentBytes ≠ store.systemPageCount * store.systemPageBytes :=
  ⟨_, rfl, rfl, rfl, by decide⟩

end Yvex.StatePages
