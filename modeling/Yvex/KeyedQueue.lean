import Mathlib.Data.List.Perm.Basic
import Mathlib.Data.List.Nodup
import Mathlib.Tactic

/-!
# Lines of work, one at a time for each key

Work waits in one queue and is started out of order, but never while work of the
same key is running. For each key, what was accepted is then what has finished,
followed by what runs, followed by what waits.
-/

set_option autoImplicit false

namespace Yvex.KeyedQueue

open List

variable {α κ : Type}

def extract (p : α → Bool) : List α → Option (α × List α)
  | [] => none
  | x :: rest => if p x then some (x, rest) else (extract p rest).map fun found =>
      (found.1, x :: found.2)

variable {p : α → Bool} {l rest : List α} {x : α}

theorem extract_some (h : extract p l = some (x, rest)) :
    p x = true ∧ ∃ s a, l = s ++ x :: a ∧ rest = s ++ a ∧ ∀ y ∈ s, p y = false := by
  induction l generalizing rest with
  | nil => simp [extract] at h
  | cons y l ih =>
    rw [extract] at h
    by_cases pass : p y = true
    · rw [if_pos pass] at h
      obtain ⟨rfl, rfl⟩ := Prod.mk.inj (Option.some.inj h)
      exact ⟨pass, [], l, rfl, rfl, by simp⟩
    rw [if_neg pass, Option.map_eq_some_iff] at h
    obtain ⟨⟨f, o⟩, i, hs⟩ := h
    obtain ⟨rfl, rfl⟩ := Prod.mk.inj hs
    obtain ⟨hh, s, a, rfl, rfl, hf⟩ := ih i
    refine ⟨hh, y :: s, a, rfl, rfl, ?_⟩
    intro z hm
    rcases mem_cons.mp hm with rfl | hol
    · simpa using pass
    · exact hf z hol

theorem extract_eq_none : extract p l = none ↔ ∀ x ∈ l, p x = false := by
  induction l with
  | nil => simp [extract]
  | cons y l ih =>
    rw [extract]
    by_cases hp : p y = true
    · simp [hp]
    · simp [hp, ih]

theorem extract_length (h : extract p l = some (x, rest)) : rest.length + 1 = l.length := by
  obtain ⟨-, s, a, rfl, rfl, -⟩ := extract_some h
  simp
  omega

variable [BEq κ] [LawfulBEq κ] (key : α → κ)

def ofKey (k : κ) (l : List α) : List α := l.filter fun x => key x == k

omit [LawfulBEq κ] in
@[simp] theorem ofKey_append (k : κ) (l m : List α) :
    ofKey key k (l ++ m) = ofKey key k l ++ ofKey key k m := filter_append ..

theorem ofKey_eq_nil {k : κ} (hab : k ∉ l.map key) : ofKey key k l = [] := by
  rw [ofKey, filter_eq_nil_iff]
  intro x hm hs
  exact hab (mem_map.mpr ⟨x, hm, by simpa using hs⟩)

theorem ofKey_singleton_other {k : κ} (ho : key x ≠ k) : ofKey key k [x] = [] := by
  simp [ofKey, ho]

theorem ofKey_middle {s a : List α} (hf : ∀ y ∈ s, key y ≠ key x) (k : κ) :
    ofKey key k (s ++ x :: a) = ofKey key k [x] ++ ofKey key k (s ++ a) := by
  have hw : s ++ x :: a = s ++ ([x] ++ a) := rfl
  rw [hw, ofKey_append, ofKey_append, ofKey_append, ← append_assoc, ← append_assoc]
  by_cases hs : key x = k
  · have none : ofKey key k s = [] := by
      apply ofKey_eq_nil
      intro hm
      obtain ⟨y, hol, hn⟩ := mem_map.mp hm
      exact hf y hol (hn.trans hs.symm)
    rw [none, nil_append, append_nil]
  · rw [ofKey_singleton_other key hs, append_nil, nil_append]

theorem ofKey_extract (hb : ∀ y, key y = key x → p y = p x) (h : extract p l = some (x, rest))
    (k : κ) :
    ofKey key k l = ofKey key k [x] ++ ofKey key k rest := by
  obtain ⟨pass, s, a, rfl, rfl, hf⟩ := extract_some h
  refine ofKey_middle key (fun y hol hs => ?_) k
  have hfl := hf y hol
  rw [hb y hs, pass] at hfl
  simp at hfl

theorem ofKey_eraseP (hd : (l.map key).Nodup) (hm : x ∈ l) (k : κ) :
    ofKey key k l = ofKey key k [x] ++ ofKey key k (l.eraseP fun y => key y == key x) := by
  obtain ⟨y, s, a, hf, hk, rfl, he⟩ :=
    exists_of_eraseP (p := fun y => key y == key x) hm (by simp)
  obtain rfl : y = x := inj_on_of_nodup_map hd (by simp) hm (by simpa using hk)
  rw [he]
  exact ofKey_middle key (fun z hz => by simpa using hf z hz) k

omit [LawfulBEq κ] in
theorem map_eraseP (l : List α) (k : κ) :
    (l.eraseP fun y => key y == k).map key = (l.map key).erase k := by
  rw [erase_eq_eraseP', eraseP_map]
  rfl

structure Line (α : Type) where
  finished : List α
  running : List α
  queued : List α

structure InLine (accepted : List α) (line : Line α) : Prop where
  ordered : ∀ k, ofKey key k accepted =
    ofKey key k line.finished ++ (ofKey key k line.running ++ ofKey key k line.queued)
  single : (line.running.map key).Nodup

section Line

variable {key} {accepted : List α} {ln : Line α}

omit [LawfulBEq κ] in
theorem InLine.push (hin : InLine key accepted ln) (x : α) :
    InLine key (accepted ++ [x]) { ln with queued := ln.queued ++ [x] } where
  ordered := by
    intro k
    rw [ofKey_append, ofKey_append, hin.ordered k]
    simp only [append_assoc]
  single := hin.single

/-- The first entry whose key is free may start: no entry of its key is before it. -/
theorem InLine.start (hin : InLine key accepted ln) {rs : List α}
    (h : extract (fun y => !(ln.running.map key).contains (key y)) ln.queued = some (x, rs)) :
    InLine key accepted { ln with running := ln.running ++ [x], queued := rs } where
  ordered := by
    intro k
    have htk := ofKey_extract key (by intro y hs; simp only [hs]) h k
    have o := hin.ordered k
    rw [htk] at o
    simp only [ofKey_append, append_assoc]
    exact o
  single := by
    have hid := (extract_some h).1
    simp only [Bool.not_eq_true', contains_eq_mem, decide_eq_false_iff_not] at hid
    rw [map_append, map_cons, map_nil, nodup_append]
    refine ⟨hin.single, by simp, ?_⟩
    intro a h1 b h2
    rw [mem_singleton.mp h2]
    rintro rfl
    exact hid h1

theorem InLine.finish (hin : InLine key accepted ln) (hr : x ∈ ln.running) :
    InLine key accepted { ln with
      finished := ln.finished ++ [x]
      running := ln.running.eraseP fun y => key y == key x } where
  ordered := by
    intro k
    have o := hin.ordered k
    rw [ofKey_eraseP key hin.single hr k] at o
    simp only [ofKey_append, append_assoc] at o ⊢
    exact o
  single := by
    rw [map_eraseP]
    exact hin.single.erase _

theorem InLine.perm (hin : InLine key accepted ln) :
    accepted.Perm (ln.finished ++ (ln.running ++ ln.queued)) := by
  classical
  rw [perm_iff_count]
  intro x
  have own : ∀ l : List α, l.count x = (ofKey key (key x) l).count x := by
    intro l
    rw [ofKey, count_filter (by simp)]
  rw [own accepted, hin.ordered (key x), own (ln.finished ++ (ln.running ++ ln.queued)),
    ofKey_append, ofKey_append]

end Line

end Yvex.KeyedQueue
