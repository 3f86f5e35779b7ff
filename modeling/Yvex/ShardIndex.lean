import Mathlib.Algebra.Group.Nat.Defs
import Mathlib.Data.List.Chain
import Mathlib.Data.Nat.Log

/-!
# The shard index

An admitted index has strictly increasing keys and entries numbered by their positions.
A lookup halves the entries that may hold its key with every comparison.
-/

set_option autoImplicit false

namespace Yvex.ShardIndex

open List

abbrev Key := List UInt8

abbrev strcmp : Key → Key → Ordering := compare

structure Entry where
  canonicalId : ℕ
  canonicalKey : Key
  deriving DecidableEq

structure Index where
  entries : List Entry
  deriving DecidableEq

inductive Refusal where
  | invalid
  | budget
  | duplicateId
  | duplicateKey
  | noncanonicalOrder
  deriving DecidableEq

def admitFrom (ordinal : ℕ) (previous : Option Key) : List Entry → Except Refusal Unit
  | [] => .ok ()
  | entry :: rest =>
    if entry.canonicalKey = [] then .error .invalid
    else if entry.canonicalId ≠ ordinal then .error .duplicateId
    else match previous.map (strcmp · entry.canonicalKey) with
    | some .eq => .error .duplicateKey
    | some .gt => .error .noncanonicalOrder
    | _ => admitFrom (ordinal + 1) (some entry.canonicalKey) rest

def indexInit (entries : List Entry) (maximumEntries : ℕ) : Except Refusal Index :=
  if entries.length = 0 ∨ maximumEntries = 0 then .error .invalid
  else if maximumEntries < entries.length then .error .budget
  else (admitFrom 0 none entries).map fun _ => ⟨entries⟩

def findLoop (entries : List Entry) (key : Key) (lower upper comparisons : ℕ)
    (inside : upper ≤ entries.length) : Option Entry × ℕ :=
  if _ : lower < upper then
    let middle := lower + (upper - lower) / 2
    match strcmp entries[middle].canonicalKey key with
    | .eq => (some entries[middle], comparisons + 1)
    | .lt => findLoop entries key (middle + 1) upper (comparisons + 1) inside
    | .gt => findLoop entries key lower middle (comparisons + 1) (by omega)
  else (none, comparisons)
termination_by upper - lower

def indexFind (index : Index) (key : Key) : Option Entry × ℕ :=
  findLoop index.entries key 0 index.entries.length 0 le_rfl

abbrev Below (a b : Key) : Prop := strcmp a b = .lt

instance : IsTrans Key Below := ⟨fun _ _ _ => Std.TransCmp.lt_trans⟩

structure Canonical (entries : List Entry) : Prop where
  keys : (entries.map (·.canonicalKey)).Pairwise Below
  ids : entries.map (·.canonicalId) = range entries.length

variable {es : List Entry} {e : Entry} {k : Key}

theorem admitFrom_ok_iff (n : ℕ) (p : Option Key) : admitFrom n p es = .ok () ↔
    (∀ e ∈ es, e.canonicalKey ≠ []) ∧ es.map (·.canonicalId) = range' n es.length ∧
      (p.toList ++ es.map (·.canonicalKey)).IsChain Below := by
  induction es generalizing n p with
  | nil => cases p <;> simp [admitFrom]
  | cons e es ih =>
    rw [admitFrom, forall_mem_cons, map_cons, length_cons, range'_succ, cons.injEq]
    by_cases hk : e.canonicalKey = []
    · simp [hk]
    by_cases hi : e.canonicalId = n
    · cases p with
      | none => simp [hk, hi, ih]
      | some q => cases ho : strcmp q e.canonicalKey <;> simp [hk, hi, ho, ih, Below]
    · simp [hk, hi]

/-- An index is opened exactly over nonempty, bounded entries in canonical order. -/
theorem indexInit_ok_iff {m : ℕ} {x : Index} : indexInit es m = .ok x ↔
    (es ≠ [] ∧ es.length ≤ m ∧ (∀ e ∈ es, e.canonicalKey ≠ []) ∧ Canonical es) ∧
      x = ⟨es⟩ := by
  have ha := @admitFrom_ok_iff es 0 none
  rw [Option.toList_none, nil_append, isChain_iff_pairwise, ← range_eq_range'] at ha
  rw [indexInit, ← length_pos_iff]
  split_ifs with h0 hm
  · simp only [false_iff]
    omega
  · simp only [false_iff]
    omega
  have hx : (admitFrom 0 none es).map (fun _ => Index.mk es) = .ok x ↔
      admitFrom 0 none es = .ok () ∧ x = ⟨es⟩ := by
    cases admitFrom 0 none es <;> simp [Except.map, eq_comm]
  rw [hx, ha, and_congr_left_iff]
  intro _
  constructor
  · rintro ⟨hk, hi, hc⟩
    exact ⟨by omega, by omega, hk, hc, hi⟩
  · rintro ⟨-, -, hk, hc⟩
    exact ⟨hk, hc.ids, hc.keys⟩

theorem findLoop_found {l u c : ℕ} {hu : u ≤ es.length}
    (hf : (findLoop es k l u c hu).1 = some e) : e ∈ es ∧ e.canonicalKey = k := by
  fun_induction findLoop es k l u c hu with
  | case1 l u c hu hlt mid hc =>
    obtain rfl := Option.some.inj hf
    exact ⟨getElem_mem _, Std.LawfulEqCmp.eq_of_compare hc⟩
  | case2 l u c hu hlt mid hc ih | case3 l u c hu hlt mid hc ih => exact ih hf
  | case4 => cases hf

/-- The bounds keep the position of the key's entry between them. -/
theorem findLoop_finds (hs : es.Pairwise fun a b => Below a.canonicalKey b.canonicalKey) {i : ℕ}
    (hi : i < es.length) {l u c : ℕ} {hu : u ≤ es.length} (hl : l ≤ i) (hiu : i < u) :
    (findLoop es es[i].canonicalKey l u c hu).1 = some es[i] := by
  have hb : ∀ {j} (hj : j < es.length),
      strcmp es[j].canonicalKey es[i].canonicalKey = compare j i := by
    intro j hj
    rcases lt_trichotomy j i with h | rfl | h
    · rw [compare_lt_iff_lt.mpr h]
      exact pairwise_iff_getElem.mp hs j i hj hi h
    · simp
    · rw [compare_gt_iff_gt.mpr h]
      exact Std.OrientedCmp.gt_of_lt (pairwise_iff_getElem.mp hs i j hi hj h)
  fun_induction findLoop es es[i].canonicalKey l u c hu with
  | case1 l u c hu hlt mid hc =>
    rw [hb, compare_eq_iff_eq] at hc
    simp only [hc]
  | case2 l u c hu hlt mid hc ih =>
    rw [hb, compare_lt_iff_lt] at hc
    exact ih hc hiu
  | case3 l u c hu hlt mid hc ih =>
    rw [hb, compare_gt_iff_gt] at hc
    exact ih hl hc
  | case4 => omega

theorem findLoop_comparisons (n : ℕ) {l u c : ℕ} {hu : u ≤ es.length} (hn : u - l < 2 ^ n) :
    (findLoop es k l u c hu).2 ≤ c + n := by
  induction n generalizing l u c with
  | zero =>
    rw [findLoop, dif_neg (by omega)]
    exact le_rfl
  | succ n ih =>
    rw [Nat.pow_succ] at hn
    rw [findLoop]
    split
    · dsimp only
      split
      · omega
      · exact (ih (by omega)).trans (by omega)
      · exact (ih (by omega)).trans (by omega)
    · exact Nat.le_add_right _ _

/-- A sealed index finds every key it has, no other, in logarithmically many comparisons. -/
theorem shard_index_lookup (entries : List Entry) (maximumEntries : ℕ) :
    ((∃ index, indexInit entries maximumEntries = .ok index) ↔
      entries ≠ [] ∧ entries.length ≤ maximumEntries ∧ (∀ e ∈ entries, e.canonicalKey ≠ []) ∧
        Canonical entries) ∧
    ∀ index, indexInit entries maximumEntries = .ok index → ∀ key,
      (∀ e, (indexFind index key).1 = some e ↔ e ∈ entries ∧ e.canonicalKey = key) ∧
      (indexFind index key).2 ≤ Nat.log 2 entries.length + 1 := by
  constructor
  · simp only [indexInit_ok_iff, exists_and_left, exists_eq, and_true]
  intro index admitted key
  obtain ⟨⟨-, -, -, canonical⟩, rfl⟩ := indexInit_ok_iff.mp admitted
  refine ⟨fun e => ⟨findLoop_found, ?_⟩, ?_⟩
  · rintro ⟨member, rfl⟩
    obtain ⟨i, hi, rfl⟩ := mem_iff_getElem.mp member
    exact findLoop_finds (pairwise_map.mp canonical.keys) hi (Nat.zero_le i) hi
  · have halved := Nat.lt_pow_succ_log_self Nat.one_lt_two entries.length
    exact (findLoop_comparisons _ halved).trans_eq (Nat.zero_add _)

def sampleEntries : List Entry := [⟨0, [97]⟩, ⟨1, [97, 98]⟩, ⟨2, [98]⟩]

theorem shard_index_lookup_sample : ∃ index, indexInit sampleEntries 4 = .ok index ∧
    (indexFind index [98]).1 = some ⟨2, [98]⟩ ∧ (indexFind index [98]).2 ≤ 2 := by
  have lookup := (shard_index_lookup sampleEntries 4).2 ⟨sampleEntries⟩ rfl [98]
  exact ⟨_, rfl, (lookup.1 _).mpr (by decide), lookup.2⟩

/-- Canonical entries are refused when there are none or too many, or when a key is empty. -/
theorem canonical_entries_refused :
    (Canonical [] ∧ indexInit [] 4 = .error .invalid) ∧
    (Canonical sampleEntries ∧ indexInit sampleEntries 2 = .error .budget) ∧
    (Canonical [⟨0, []⟩] ∧ indexInit [⟨0, []⟩] 4 = .error .invalid) :=
  ⟨⟨⟨by decide, rfl⟩, rfl⟩, ⟨⟨by decide, rfl⟩, rfl⟩, ⟨by decide, rfl⟩, rfl⟩

end Yvex.ShardIndex
