import Yvex.GgufData
import Yvex.ProbedIndex

/-!
# GGUF identifiers

The checks that keys and names have to pass, and the open-addressed index that
finds their records. An index whose slots hold the records of distinct names, with
more slots than names, ends every walk and finds each name's record.
-/

set_option autoImplicit false

namespace Yvex.GgufNames

open CheckedArithmetic GgufData ProbedIndex

def sequenceValid (minimum lead : ℕ) (continuation : List UInt8) : Bool :=
  let codepoint := continuation.foldl (fun joined byte => joined * 64 + byte.toNat % 64) lead
  continuation.all (fun byte => byte.toNat / 64 == 2) &&
    (minimum ≤ codepoint && codepoint ≤ 0x10ffff && !(0xd800 ≤ codepoint && codepoint ≤ 0xdfff))

def utf8Valid : List UInt8 → Bool
  | [] => true
  | first :: rest =>
    if first < 0x80 then utf8Valid rest
    else if 0xc2 ≤ first && first ≤ 0xdf then
      match rest with
      | a :: rest => sequenceValid 0x80 (first.toNat % 32) [a] && utf8Valid rest
      | _ => false
    else if 0xe0 ≤ first && first ≤ 0xef then
      match rest with
      | a :: b :: rest => sequenceValid 0x800 (first.toNat % 16) [a, b] && utf8Valid rest
      | _ => false
    else if 0xf0 ≤ first && first ≤ 0xf4 then
      match rest with
      | a :: b :: c :: rest => sequenceValid 0x10000 (first.toNat % 8) [a, b, c] && utf8Valid rest
      | _ => false
    else false

def isLower (ch : UInt8) : Bool := 97 ≤ ch && ch ≤ 122

def isDigit (ch : UInt8) : Bool := 48 ≤ ch && ch ≤ 57

def keyScan (segmentStart previousUnderscore : Bool) : List UInt8 → Bool
  | [] => !segmentStart && !previousUnderscore
  | ch :: rest =>
    if 128 ≤ ch then false
    else if ch = 46 then
      if segmentStart || previousUnderscore || rest.isEmpty then false
      else keyScan true false rest
    else if segmentStart then isLower ch && keyScan false false rest
    else if ch = 95 then !previousUnderscore && keyScan false true rest
    else (isLower ch || isDigit ch) && keyScan false false rest

def metadataKeyValid (key : List UInt8) : Bool := !key.isEmpty && keyScan true false key

def nameHash (name : List UInt8) : ℕ :=
  name.foldl (fun hash byte => (hash ^^^ byte.toNat) * 1099511628211 % 2 ^ 64) 1469598103934665603

/-- Slots with the ordinals of the records. The capacity is a power of two, so that
masking a hash by the capacity less one is its remainder. -/
structure NameIndex where
  slots : ℕ → Option ℕ
  capacity : ℕ

def NameIndex.empty : NameIndex := ⟨fun _ => none, 0⟩

def growCapacity (wanted : ℕ) : ℕ → ℕ → Option ℕ
  | 0, _ => none
  | fuel + 1, capacity =>
    if wanted ≤ capacity then some capacity
    else if sizeMax / 2 < capacity then none
    else growCapacity wanted fuel (capacity * 2)

def NameIndex.walk (index : NameIndex) (names : List (List UInt8)) (name : List UInt8) :
    Option (ℕ × Option ℕ) :=
  -- The walk of a name: the slot where it ends and the record found there. There is no
  -- result when every slot is passed, for then the walk goes on for ever.
  probe index.slots index.capacity (fun prior => decide (names[prior]? = some name))
    index.capacity (nameHash name % index.capacity)

def NameIndex.put (index : NameIndex) (slot record : ℕ) : NameIndex :=
  { index with slots := Function.update index.slots slot (some record) }

def NameIndex.add (index : NameIndex) (names : List (List UInt8)) (name : List UInt8) :
    NameIndex :=
  match index.walk names name with
  | some (slot, _) => index.put slot names.length
  | none => index

def NameIndex.addAll (index : NameIndex) (names : List (List UInt8)) :
    List (List UInt8) → NameIndex
  | [] => index
  | name :: rest => (index.add names name).addAll (names ++ [name]) rest

def NameIndex.lookup (index : NameIndex) (names : List (List UInt8)) (name : List UInt8) :
    Option (Option ℕ) :=
  if index.capacity = 0 then some none else (index.walk names name).map Prod.snd

theorem growCapacity_some {w f s c : ℕ} (h : growCapacity w f s = some c) :
    w ≤ c ∧ ∃ d, c = s * 2 ^ d := by
  induction f generalizing s with
  | zero => cases h
  | succ f ih =>
    rw [growCapacity] at h
    split_ifs at h with enough
    · cases h
      exact ⟨enough, 0, by simp⟩
    · obtain ⟨hf, d, heq⟩ := ih h
      exact ⟨hf, d + 1, by rw [heq, pow_succ']; ring⟩

def Indexed (index : NameIndex) (names : List (List UInt8)) : Prop :=
  Holds (fun record => names[record]?) (fun name => nameHash (name.getD [])) index.slots
    index.capacity (List.range names.length)

theorem indexed_nil (c : ℕ) : Indexed ⟨fun _ => none, c⟩ [] := holds_empty

variable {i : NameIndex} {ns : List (List UInt8)}

/-- The walk of a name ends; it finds exactly the record of the name. -/
theorem Indexed.walk_iff (h : Indexed i ns) (room : ns.length < i.capacity) (n : List UInt8) :
    ∃ j f, i.walk ns n = some (j, f) ∧ ∀ r, f = some r ↔ ns[r]? = some n := by
  obtain ⟨j, f, walk, he⟩ := h.probe_iff (by rwa [List.length_range]) (some n)
  refine ⟨j, f, walk, ?_⟩
  intro r
  rw [he r]
  constructor
  · rintro ⟨-, hs⟩
    exact hs
  · intro hs
    refine ⟨List.mem_range.mpr ?_, hs⟩
    exact (List.getElem?_eq_some_iff.mp hs).1

theorem Indexed.put {n : List UInt8} {j : ℕ} {found : Option ℕ} (h : Indexed i ns)
    (hfr : n ∉ ns) (hw : i.walk ns n = some (j, found)) :
    Indexed (i.put j ns.length) (ns ++ [n]) := by
  have new : (ns ++ [n])[ns.length]? = some n := by simp
  have old : ∀ r, r < ns.length → (ns ++ [n])[r]? = ns[r]? := by
    intro r hb
    exact List.getElem?_append_left hb
  -- the old records have the same names in the longer list
  have hl : Holds (fun r => (ns ++ [n])[r]?) (fun n => nameHash (n.getD [])) i.slots i.capacity
      (List.range ns.length) := by
    apply Holds.congr_key h
    intro r hm
    exact (old r (List.mem_range.mp hm)).symm
  have hu : ∀ r ∈ List.range ns.length, (ns ++ [n])[r]? ≠ (ns ++ [n])[ns.length]? := by
    intro r hm hs
    rw [new, old r (List.mem_range.mp hm)] at hs
    exact hfr (List.mem_of_getElem? hs)
  have ha : ∀ r ∈ List.range ns.length, decide (ns[r]? = some n) = true →
      (ns ++ [n])[r]? = (ns ++ [n])[ns.length]? := by
    intro r hm hs
    rw [new, old r (List.mem_range.mp hm)]
    exact of_decide_eq_true hs
  have ho : nameHash n = nameHash ((ns ++ [n])[ns.length]?.getD []) := by rw [new, Option.getD_some]
  rw [NameIndex.walk, ho] at hw
  unfold Indexed
  rw [List.length_append, List.length_singleton, List.range_succ]
  exact hl.store hu ha hw

theorem Indexed.add {n : List UInt8} (h : Indexed i ns)
    (hr : ns.length < i.capacity) (hfr : n ∉ ns) :
    Indexed (i.add ns n) (ns ++ [n]) := by
  obtain ⟨j, f, hw, -⟩ := h.walk_iff hr n
  rw [NameIndex.add, hw]
  exact h.put hfr hw

open NameIndex

theorem add_capacity (i : NameIndex) (ns : List (List UInt8)) (n : List UInt8) :
    (i.add ns n).capacity = i.capacity := by
  unfold add
  split <;> rfl

/-- Adding new names one by one leaves an index of all of them. -/
theorem Indexed.addAll (h : Indexed i ns) (more : List (List UInt8))
    (hr : ns.length + more.length ≤ i.capacity) (hfr : (ns ++ more).Nodup) :
    Indexed (i.addAll ns more) (ns ++ more) := by
  induction more generalizing i ns with
  | nil =>
    rw [addAll, List.append_nil]
    exact h
  | cons n r ih =>
    rw [List.length_cons] at hr
    have new : n ∉ ns := by
      intro hm
      exact (List.nodup_append.mp hfr).2.2 n hm n List.mem_cons_self rfl
    rw [List.append_cons] at hfr ⊢
    apply ih (h.add (by omega) new) _ hfr
    rw [add_capacity, List.length_append, List.length_singleton]
    omega

theorem addAll_capacity (i : NameIndex) (ns more : List (List UInt8)) :
    (i.addAll ns more).capacity = i.capacity := by
  induction more generalizing i ns with
  | nil => rfl
  | cons n r ih => rw [addAll, ih, add_capacity]

def NameIndex.Finds (index : NameIndex) (names : List (List UInt8)) : Prop :=
  ∀ name, ∃ found, index.lookup names name = some found ∧
    ∀ record, found = some record ↔ names[record]? = some name

theorem finds_empty : NameIndex.empty.Finds [] := by
  intro n
  refine ⟨none, rfl, ?_⟩
  simp

theorem Indexed.finds (h : Indexed i ns) (hr : ns.length < i.capacity) : i.Finds ns := by
  intro n
  obtain ⟨j, f, walk, he⟩ := h.walk_iff hr n
  refine ⟨f, ?_, he⟩
  rw [lookup, if_neg (by omega), walk]
  rfl

end Yvex.GgufNames
