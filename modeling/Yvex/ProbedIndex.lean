import Yvex.SlotTable

/-!
# Indexes with linear probing

An index is a table of slots. An entry is put into the first free slot behind the
home slot of its key, and looked for along the same way. As long as some slot is
free, both walks end; then an entry is found exactly by its key.
-/

set_option autoImplicit false

namespace Yvex.ProbedIndex

open SlotTable List Nat Function Option

variable {ε κ : Type} {ss : ℕ → Option ε} {c : ℕ}

def probe (slots : ℕ → Option ε) (capacity : ℕ) (same : ε → Bool) :
    ℕ → ℕ → Option (ℕ × Option ε)
  | 0, _ => none
  | fuel + 1, slot =>
    match slots slot with
    | none => some (slot, none)
    | some entry =>
      if same entry then some (slot, some entry)
      else probe slots capacity same fuel ((slot + 1) % capacity)

def place (capacity home distance : ℕ) : ℕ := (home + distance) % capacity

theorem place_succ (c start d : ℕ) : (place c start d + 1) % c = place c start (d + 1) := by
  simp [place, add_assoc]

theorem place_lt {home d : ℕ} (hp : 0 < c) : place c home d < c := mod_lt _ hp

variable {s : ℕ}

theorem exists_place (start : ℕ) (hb : s < c) : ∃ d, d < c ∧ place c start d = s := by
  have hp : 0 < c := by omega
  have below := mod_lt start hp
  by_cases ha : start % c ≤ s
  · refine ⟨s - start % c, by omega, ?_⟩
    rw [place, add_mod, mod_eq_of_lt (show s - start % c < c by omega),
      Nat.add_sub_cancel' ha, Nat.mod_eq_of_lt hb]
  · refine ⟨s + c - start % c, by omega, ?_⟩
    rw [place, add_mod, mod_eq_of_lt (show s + c - start % c < c by omega),
      show start % c + (s + c - start % c) = s + c by omega,
      add_mod_right, mod_eq_of_lt hb]

def Passed (slots : ℕ → Option ε) (capacity : ℕ) (same : ε → Bool) (home distance : ℕ) : Prop :=
  ∀ before, before < distance →
    ∃ entry, slots (place capacity home before) = some entry ∧ same entry = false

variable {hit : ε → Bool} {found : Option ε}

theorem probe_some {start : ℕ} (f dn : ℕ) (hp : Passed ss c hit start dn)
    (h : probe ss c hit f (place c start dn) = some (s, found)) :
    ∃ d, s = place c start d ∧ d < dn + f ∧ Passed ss c hit start d ∧ ss s = found ∧
      ∀ en, found = some en → hit en = true := by
  induction f generalizing dn with
  | zero => cases h
  | succ f ih =>
    rw [probe] at h
    split at h
    · next e =>
      cases h
      exact ⟨dn, rfl, by omega, hp, e, nofun⟩
    next en hfl =>
    split_ifs at h with test
    · cases h
      refine ⟨dn, rfl, by omega, hp, hfl, ?_⟩
      intro en' he
      cases he
      exact test
    · rw [place_succ] at h
      have hfr : Passed ss c hit start (dn + 1) := by
        intro b below
        by_cases last : b = dn
        · subst last
          exact ⟨en, hfl, by simpa using test⟩
        · exact hp b (by omega)
      obtain ⟨d, at_, hb, r⟩ := ih (dn + 1) hfr h
      exact ⟨d, at_, by omega, r⟩

theorem probe_none {start : ℕ} (f d : ℕ) (hp : Passed ss c hit start d)
    (h : probe ss c hit f (place c start d) = none) :
    Passed ss c hit start (d + f) := by
  induction f generalizing d with
  | zero => exact hp
  | succ f ih =>
    rw [probe] at h
    split at h
    · cases h
    next en full =>
    split_ifs at h with test
    rw [place_succ] at h
    have hfr : Passed ss c hit start (d + 1) := by
      intro b hb
      by_cases last : b = d
      · subst last
        exact ⟨en, full, by simpa using test⟩
      · exact hp b (by omega)
    have all := ih (d + 1) hfr h
    rwa [add_assoc, add_comm 1] at all

theorem passed_zero (hit : ε → Bool) (home : ℕ) : Passed ss c hit home 0 :=
  fun _ hb => absurd hb (not_lt_zero _)

theorem mod_eq_place (start : ℕ) : start % c = place c start 0 := rfl

structure Holds (key : ε → κ) (home : κ → ℕ) (slots : ℕ → Option ε) (capacity : ℕ)
    (entries : List ε) : Prop where
  stored : ∀ slot, slot < capacity → ∀ entry, slots slot = some entry → entry ∈ entries
  reached : ∀ entry ∈ entries, ∃ distance, distance < capacity ∧
    slots (place capacity (home (key entry)) distance) = some entry ∧
    ∀ before, before < distance → slots (place capacity (home (key entry)) before) ≠ none
  distinct : (entries.map key).Nodup
  load : tally Option.isSome slots capacity = entries.length

section Lookup

variable {key : ε → κ} {home : κ → ℕ} {es : List ε}

theorem holds_empty : Holds key home (fun _ : ℕ => (none : Option ε)) c [] where
  stored _ _ _ none := by cases none
  reached _ hm := by cases hm
  distinct := nodup_nil
  load := tally_eq_zero fun _ _ => rfl

theorem Holds.not_full (h : Holds key home ss c es) (room : es.length < c) {st : ℕ} :
    ¬ Passed ss c hit st c := by
  intro full
  have all : tally isSome ss c = tally (fun _ => true) ss c := by
    apply total_congr
    intro s hb
    obtain ⟨d, hbe, at_⟩ := exists_place st hb
    obtain ⟨en, hh, -⟩ := full d hbe
    rw [at_] at hh
    rw [hh]
    rfl
  have every : tally (fun _ : Option ε => true) ss c = c := by simp [tally, total]
  have load := h.load
  omega

theorem Holds.probe_ends (h : Holds key home ss c es)
    (hr : es.length < c) (hit : ε → Bool) (st : ℕ) :
    ∃ s found, probe ss c hit c (st % c) = some (s, found) := by
  cases walk : probe ss c hit c (st % c) with
  | none =>
    have hfu := probe_none c 0 (passed_zero hit st) (mod_eq_place st ▸ walk)
    rw [zero_add] at hfu
    exact absurd hfu (h.not_full hr)
  | some r => exact ⟨r.1, r.2, rfl⟩

/-- Only the keys of the entries matter. -/
theorem Holds.congr_key {key' : ε → κ} (h : Holds key home ss c es)
    (hs : ∀ en ∈ es, key en = key' en) :
    Holds key' home ss c es where
  stored := h.stored
  reached en hm := hs en hm ▸ h.reached en hm
  distinct := map_congr_left hs ▸ h.distinct
  load := h.load

theorem Holds.unique (h : Holds key home ss c es) {first second : ε}
    (one : first ∈ es) (two : second ∈ es) (hs : key first = key second) :
    first = second :=
  inj_on_of_nodup_map h.distinct one two hs

/-- Storing an entry where its walk ends keeps every entry on its way. -/
theorem Holds.store (h : Holds key home ss c es) {en : ε} (hfr : ∀ old ∈ es, key old ≠ key en)
    (ha : ∀ old ∈ es, hit old = true → key old = key en)
    (walk : probe ss c hit c (home (key en) % c) = some (s, found)) :
    Holds key home (Function.update ss s (some en)) c (es ++ [en]) := by
  obtain ⟨d, at_, below, hp, hhd, test⟩ :=
    probe_some c 0 (passed_zero _ _) (mod_eq_place (home (key en)) ▸ walk)
  have hb : s < c := by
    rw [at_]
    exact place_lt (by omega)
  have free : found = none := by
    cases found with
    | none => rfl
    | some old =>
      have hm := h.stored s hb old hhd
      exact absurd (ha old hm (test old rfl)) (hfr old hm)
  subst free
  constructor
  · intro ho hot hst at_other
    obtain ⟨_, hhe⟩ | ⟨_, ht⟩ := update_iff.mp at_other
    · cases hhe
      simp
    · exact mem_append_left _ (h.stored ho hot hst ht)
  · intro hst hm
    obtain old | new := mem_append.mp hm
    · obtain ⟨own, how, hh, way⟩ := h.reached hst old
      refine ⟨own, how, ?_, ?_⟩
      · rw [update_of_ne _]
        · exact hh
        · intro hhe
          rw [hhe, hhd] at hh
          cases hh
      · intro b hea
        by_cases hhe : place c (home (key hst)) b = s
        · rw [hhe, update_self]
          exact some_ne_none _
        · rw [update_of_ne hhe]
          exact way b hea
    · rw [mem_singleton.mp new]
      refine ⟨d, by omega, ?_, ?_⟩
      · rw [← at_, update_self]
      · intro b hea
        obtain ⟨ho, hth, -⟩ := hp b hea
        by_cases hhe : place c (home (key en)) b = s
        · rw [hhe, update_self]
          exact some_ne_none _
        · rw [update_of_ne hhe, hth]
          exact some_ne_none _
  · rw [map_append, map_singleton, nodup_append_comm, singleton_append, nodup_cons]
    constructor
    · intro hm
      obtain ⟨old, hth, hit⟩ := mem_map.mp hm
      exact hfr old hth hit
    · exact h.distinct
  · have hmv := tally_update isSome ss hb (some en)
    have load := h.load
    rw [hhd] at hmv
    simp only [isSome_none, isSome_some, Bool.toNat_false, Bool.toNat_true] at hmv
    rw [length_append, length_singleton]
    omega

variable [DecidableEq κ]

theorem Holds.probe_held (h : Holds key home ss c es) {en : ε} (hm : en ∈ es)
    (walk : probe ss c (fun e => decide (key e = key en)) c
      (home (key en) % c) = some (s, found)) : found = some en := by
  obtain ⟨d, at_, -, hp, hhe, test⟩ :=
    probe_some c 0 (passed_zero _ _) (mod_eq_place (home (key en)) ▸ walk)
  obtain ⟨own, below, hh, way⟩ := h.reached en hm
  have hb : s < c := by
    rw [at_]
    exact place_lt (by omega)
  cases found with
  | some ho =>
    have hs : key ho = key en := by simpa using test ho rfl
    rw [h.unique (h.stored s hb ho hhe) hm hs]
  | none =>
    -- a free slot before the entry would break its way, one behind it lies past the entry
    exfalso
    by_cases b : d < own
    · exact way d b (at_ ▸ hhe)
    by_cases he : d = own
    · rw [at_, he, hh] at hhe
      cases hhe
    obtain ⟨ho, hth, hdi⟩ := hp own (by omega)
    rw [hh] at hth
    cases hth
    simp at hdi

/-- A walk ends, and it finds exactly the entry of its key. -/
theorem Holds.probe_iff (h : Holds key home ss c es) (hr : es.length < c) (n : κ) :
    ∃ s found, probe ss c (fun e => decide (key e = n)) c (home n % c) = some (s, found) ∧
      ∀ en, found = some en ↔ en ∈ es ∧ key en = n := by
  obtain ⟨s, found, hw⟩ := h.probe_ends hr (fun e => decide (key e = n)) (home n)
  refine ⟨s, found, hw, ?_⟩
  intro en
  constructor
  · rintro rfl
    obtain ⟨d, at_, -, -, hh, test⟩ := probe_some c 0 (passed_zero _ _) (mod_eq_place (home n) ▸ hw)
    have hb : s < c := by
      rw [at_]
      exact place_lt (by omega)
    exact ⟨h.stored s hb en hh, by simpa using test en rfl⟩
  · rintro ⟨hm, rfl⟩
    exact h.probe_held hm hw

end Lookup

end Yvex.ProbedIndex
