import Yvex.StableRuns

/-!
# The sampler's merge sort

Runs of doubling width are merged from one buffer into the other until one run is left.
It is copied back when it ended in the scratch buffer. A buffer of `count` candidates
exists, so no sum of two positions in it wraps around.
-/

set_option autoImplicit false

namespace Yvex.StableSort

open Function List StableRuns

variable {α : Type}

def copyRun (source : ℕ → α) (first stop output : ℕ) (target : ℕ → α) : ℕ → α :=
  if first < stop then
    copyRun source (first + 1) stop (output + 1) (update target output (source first))
  else target
termination_by stop - first

section Model

variable (compare : α → α → ℤ)

def mergeRuns (source : ℕ → α) (middle stop left right output : ℕ) (target : ℕ → α) : ℕ → α :=
  if left < middle ∧ right < stop then
    if compare (source left) (source right) ≤ 0 then
      mergeRuns source middle stop (left + 1) right (output + 1)
        (update target output (source left))
    else
      mergeRuns source middle stop left (right + 1) (output + 1)
        (update target output (source right))
  else
    copyRun source right stop (output + (middle - left)) (copyRun source left middle output target)
termination_by (middle - left) + (stop - right)

def mergePass (source : ℕ → α) (count width : ℕ) (positive : 0 < width) (base : ℕ)
    (target : ℕ → α) : ℕ → α :=
  if base < count then
    let middle := if base + width < count then base + width else count
    let stop := if middle + width < count then middle + width else count
    mergePass source count width positive stop
      (mergeRuns compare source middle stop base middle base target)
  else target
termination_by count - base
decreasing_by grind

structure Buffers (α : Type) where
  source : ℕ → α
  target : ℕ → α
  swapped : Bool

def sortLoop (count width : ℕ) (positive : 0 < width) (b : Buffers α) : Buffers α :=
  if _ : width < count then
    sortLoop count (if count / 2 < width then count else width * 2) (by grind)
      ⟨mergePass compare b.source count width positive 0 b.target, b.source, !b.swapped⟩
  else b
termination_by count - width
decreasing_by grind

def stableSort (count : ℕ) (candidates scratch : ℕ → α) : (ℕ → α) × (ℕ → α) :=
  let b := sortLoop compare count 1 Nat.one_pos ⟨candidates, scratch, false⟩
  if b.swapped then (copyRun b.source 0 count 0 b.target, b.source) else (b.source, b.target)

end Model

def span (memory : ℕ → α) (first stop : ℕ) : List α := (range' first (stop - first)).map memory

def overlay (target : ℕ → α) (output : ℕ) : List α → ℕ → α
  | [] => target
  | x :: xs => overlay (update target output x) (output + 1) xs

variable {m t : ℕ → α} {a b c n o w : ℕ} {l r r' rs : List α}

theorem span_length : (span m a b).length = b - a := by simp [span]

theorem span_cons (h : a < b) : span m a b = m a :: span m (a + 1) b := by
  rw [span, span, show b - a = b - (a + 1) + 1 by omega, range'_succ, map_cons]

theorem span_nil (h : b ≤ a) : span m a b = [] := by
  rw [span, Nat.sub_eq_zero_of_le h]
  rfl

theorem span_append (h1 : a ≤ b) (h2 : b ≤ c) : span m a b ++ span m b c = span m a c := by
  rw [span, span, span, ← map_append, show c - a = (b - a) + (c - b) by omega, ← range'_append,
    Nat.one_mul, Nat.add_sub_of_le h1]

theorem span_split (h : span m a n = r ++ rs) (ha : a ≤ n) :
    span m a (a + r.length) = r ∧ span m (a + r.length) n = rs ∧
      a + (r.length + rs.length) = n := by
  have hl := congrArg length h
  rw [span_length, length_append] at hl
  rw [← span_append (Nat.le_add_right a r.length) (by omega)] at h
  obtain ⟨h1, h2⟩ := append_inj h (by rw [span_length]; omega)
  exact ⟨h1, h2, by omega⟩

theorem overlay_append : overlay t o (r ++ rs) = overlay (overlay t o r) (o + r.length) rs := by
  induction r generalizing t o with
  | nil => rfl
  | cons x r ih =>
    rw [cons_append, overlay, ih, overlay, length_cons, Nat.add_assoc, Nat.add_comm 1]

theorem overlay_apart {i : ℕ} (h : i < o ∨ o + r.length ≤ i) : overlay t o r i = t i := by
  induction r generalizing t o with
  | nil => rfl
  | cons x r ih =>
    rw [length_cons] at h
    rw [overlay, ih (by omega), update_of_ne (by omega)]

theorem span_overlay (h : o + r.length = n) : span (overlay t o r) o n = r := by
  induction r generalizing t o with
  | nil => exact span_nil h.ge
  | cons x r ih =>
    rw [length_cons] at h
    rw [span_cons (by omega), overlay, ih (by omega), overlay_apart (.inl o.lt_succ_self),
      update_self]

theorem copyRun_eq : copyRun m a b o t = overlay t o (span m a b) := by
  fun_induction copyRun m a b o t with
  | case1 a o t h ih => rw [ih, span_cons h, overlay]
  | case2 a o t h => rw [span_nil (Nat.not_lt.mp h), overlay]

variable {compare : α → α → ℤ}

def atMost (compare : α → α → ℤ) (a b : α) : Bool := compare a b ≤ 0

/-- One pass over two runs writes their merge. -/
theorem mergeRuns_eq : mergeRuns compare m b c o a n t =
    overlay t n (merge (span m o b) (span m a c) (atMost compare)) := by
  fun_induction mergeRuns compare m b c o a n t with
  | case1 o a n t h hc ih =>
    rw [ih, span_cons h.1, span_cons h.2, cons_merge_cons, if_pos (by simpa [atMost]), overlay]
  | case2 o a n t h hc ih =>
    rw [ih, span_cons h.1, span_cons h.2, cons_merge_cons, if_neg (by simpa [atMost] using hc),
      overlay]
  | case3 o a n t h =>
    rw [copyRun_eq, copyRun_eq, ← span_length (m := m), ← overlay_append]
    rcases not_and_or.mp h with h | h
    · rw [span_nil (Nat.not_lt.mp h), nil_append, nil_merge]
    · rw [span_nil (Nat.not_lt.mp h), append_nil, merge_right]

structure TotalPreorder (compare : α → α → ℤ) : Prop where
  trans : ∀ a b c, compare a b ≤ 0 → compare b c ≤ 0 → compare a c ≤ 0
  total : ∀ a b, compare a b ≤ 0 ∨ compare b a ≤ 0

structure Sorting (compare : α → α → ℤ) (n w : ℕ) (candidates scratch : ℕ → α) (b : Buffers α) :
    Prop where
  runs : Runs (atMost compare) w (span candidates 0 n) (span b.source 0 n)
  source : ∀ i, n ≤ i → b.source i = bif b.swapped then scratch i else candidates i
  target : ∀ i, n ≤ i → b.target i = bif b.swapped then candidates i else scratch i

section Pass

variable (hp : TotalPreorder compare) (hw : 0 < w)

theorem mergePass_end : mergePass compare m n w hw n t = t := by
  rw [mergePass, if_neg (Nat.lt_irrefl n)]

/-- A round merges two runs, of which only the last one of all may be short. -/
theorem mergePass_round (ha : a < n) (h : span m a n = r ++ (r' ++ rs))
    (h1 : r.length = w ∨ r' ++ rs = [] ∧ r.length ≤ w)
    (h2 : r'.length = w ∨ rs = [] ∧ r'.length ≤ w) :
    mergePass compare m n w hw a t = mergePass compare m n w hw (a + r.length + r'.length)
      (overlay t a (merge r r' (atMost compare))) := by
  obtain ⟨hr, h, hb⟩ := span_split h ha.le
  obtain ⟨hr', -, hc⟩ := span_split h (by omega)
  have hm : (if a + w < n then a + w else n) = a + r.length := by grind
  have hs : (if a + r.length + w < n then a + r.length + w else n) =
      a + r.length + r'.length := by grind
  rw [mergePass, if_pos ha]
  simp only [hm, hs, mergeRuns_eq, hr, hr']

include hp

theorem merge_stable {l' : List α}
    (h : Stable (atMost compare) l r) (h' : Stable (atMost compare) l' r') :
    Stable (atMost compare) (l ++ l') (merge r r' (atMost compare)) :=
  h.merge (by simpa [atMost] using hp.trans) (by simpa [atMost] using hp.total) h'

/-- A pass over sorted runs leaves sorted runs of twice the width. -/
theorem mergePass_runs :
    ∀ {l r : List α} {a : ℕ} {t : ℕ → α}, Runs (atMost compare) w l r → a ≤ n → span m a n = r →
      ∃ r', mergePass compare m n w hw a t = overlay t a r' ∧ Runs (atMost compare) (w * 2) l r'
  | l, r, a, t, .last st sh, ha, h => by
    have hl := st.perm.length_eq
    rw [← append_nil r, ← append_nil []] at h
    have hn := (span_split h ha).2.2
    rw [append_nil] at hn
    refine ⟨r, ?_, .last st (by omega)⟩
    rcases ha.lt_or_eq with ha | rfl
    · rw [mergePass_round hw ha h (.inr ⟨rfl, by omega⟩) (.inr ⟨rfl, Nat.zero_le w⟩), merge_right,
        Nat.add_assoc, hn, mergePass_end]
    · rw [length_eq_zero_iff.mp (by omega : r.length = 0), mergePass_end, overlay]
  | _, _, a, t, @Runs.cons _ _ _ l r _ r' st full (.last st' sh), ha, h => by
    have hl := st.perm.length_eq
    have hl' := st'.perm.length_eq
    have hn := (span_split h ha).2.2
    refine ⟨_, ?_, .last (merge_stable hp st st') (by rw [length_append]; omega)⟩
    rw [← append_nil r'] at h
    rw [mergePass_round hw (by omega) h (.inl (by omega)) (.inr ⟨rfl, by omega⟩),
      Nat.add_assoc, hn, mergePass_end]
  | _, _, a, t, @Runs.cons _ _ _ l r _ _ st full (@Runs.cons _ _ _ l' r' _ _ st' full' rest), ha,
      h => by
    have hl := st.perm.length_eq
    have hl' := st'.perm.length_eq
    obtain ⟨-, hs, hn⟩ := span_split h ha
    obtain ⟨-, hs, hn'⟩ := span_split hs (by omega)
    obtain ⟨rs', ho, hr⟩ := mergePass_runs rest (by omega) hs
    refine ⟨merge r r' (atMost compare) ++ rs', ?_, ?_⟩
    · rw [mergePass_round hw (by omega) h (.inl (by omega)) (.inl (by omega)), ho, overlay_append,
        length_merge, Nat.add_assoc]
    · rw [← append_assoc]
      exact .cons (merge_stable hp st st') (by rw [length_append]; omega) hr

variable {x : Buffers α} {m' : ℕ → α}

theorem Sorting.pass (h : Sorting compare n w m m' x) : Sorting compare n (w * 2) m m'
    ⟨mergePass compare x.source n w hw 0 x.target, x.source, !x.swapped⟩ := by
  obtain ⟨r, ho, hr⟩ := mergePass_runs hp hw (t := x.target) h.runs (Nat.zero_le n) rfl
  have hl := hr.perm.length_eq
  rw [span_length, Nat.sub_zero] at hl
  rw [ho]
  refine ⟨by rwa [span_overlay (by omega)], fun i hi => ?_, fun i hi => ?_⟩ <;>
    dsimp only <;> rw [Bool.cond_not]
  · rw [overlay_apart (.inr (by omega)), h.target i hi]
  · exact h.source i hi

theorem sortLoop_sorts (h : Sorting compare n w m m' x) :
    Sorting compare n n m m' (sortLoop compare n w hw x) := by
  fun_induction sortLoop compare n w hw x with
  | case1 w hw x hlt ih =>
    apply ih
    have hs := h.pass hp hw
    split_ifs
    · have hr := hs.runs.stable (by rw [span_length]; omega)
      exact ⟨.last hr span_length.le, hs.source, hs.target⟩
    · exact hs
  | case2 w hw x hge =>
    have hr := h.runs.stable (by rw [span_length]; omega)
    exact ⟨.last hr span_length.le, h.source, h.target⟩

end Pass

/-- The sort returns a sorted, stable permutation, whatever the scratch buffer holds. -/
theorem stable_sort_correct {α : Type} (compare : α → α → ℤ) (order : TotalPreorder compare)
    (count : ℕ) (candidates scratch : ℕ → α) :
    Stable (atMost compare) (span candidates 0 count)
      (span (stableSort compare count candidates scratch).1 0 count) ∧
    ∀ i, count ≤ i → (stableSort compare count candidates scratch).1 i = candidates i ∧
      (stableSort compare count candidates scratch).2 i = scratch i := by
  have sorting : Sorting compare count 1 candidates scratch ⟨candidates, scratch, false⟩ :=
    ⟨runs_single _, fun _ _ => rfl, fun _ _ => rfl⟩
  have sorted := sortLoop_sorts order Nat.one_pos sorting
  have stable := sorted.runs.stable span_length.le
  obtain ⟨-, source, target⟩ := sorted
  unfold stableSort
  dsimp only
  split_ifs with swapped
  · simp only [swapped, cond_true] at source target
    rw [copyRun_eq, span_overlay (by rw [span_length]; omega)]
    refine ⟨stable, fun i beyond => ⟨?_, source i beyond⟩⟩
    exact (overlay_apart (.inr (by rw [span_length]; omega))).trans (target i beyond)
  · simp only [swapped, cond_false] at source target
    exact ⟨stable, fun i beyond => ⟨source i beyond, target i beyond⟩⟩

theorem stable_sort_correct_pairs :
    let keys : ℕ × ℕ → ℕ × ℕ → ℤ := fun a b => a.1 - b.1
    let candidates : ℕ → ℕ × ℕ := fun i => (7 * i % 3, i)
    Stable (atMost keys) (span candidates 0 5)
      (span (stableSort keys 5 candidates fun _ => (0, 0)).1 0 5) :=
  (stable_sort_correct _ ⟨by grind, by grind⟩ 5 _ _).1

end Yvex.StableSort
