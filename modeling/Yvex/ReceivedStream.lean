import Mathlib.Tactic

/-!
# Reading a byte stream that arrives in segments

A receive call returns some of the bytes of the segment at the head of the
stream, never more than there is room for, or is interrupted. Two loops read
such a stream: one that fills a bounded buffer until a search succeeds in it,
and one that reads a fixed number of bytes. What both deliver depends on the
stream alone, except for how many bytes stand behind the place that the search
found.
-/

set_option autoImplicit false

namespace Yvex.ReceivedStream

open List

inductive Receive where
  | interrupted
  | data (bytes : List UInt8)

def received : List Receive → List UInt8
  | [] => []
  | .interrupted :: rest => received rest
  | .data bytes :: rest => bytes ++ received rest

def Proper : List Receive → Prop
  | [] => True
  | .interrupted :: rest => Proper rest
  | .data bytes :: rest => bytes ≠ [] ∧ Proper rest

def pushBack (bytes : List UInt8) (rest : List Receive) : List Receive :=
  if bytes = [] then rest else .data bytes :: rest

theorem received_pushBack (bs : List UInt8) (rs : List Receive) :
    received (pushBack bs rs) = bs ++ received rs := by
  unfold pushBack
  split
  · rename_i h
    rw [h, nil_append]
  · rfl

variable {bs : List UInt8}

theorem Proper.pushBack {rs : List Receive} (h : Proper rs) : Proper (pushBack bs rs) := by
  unfold ReceivedStream.pushBack
  split
  · exact h
  · rename_i hb
    exact ⟨hb, h⟩

variable {n : ℕ} {ss : List Receive}

def takeExactly (count : ℕ) : List UInt8 → List Receive → Option (List UInt8)
  | taken, [] => if taken.length < count then none else some taken
  | taken, .interrupted :: rest =>
    if taken.length < count then takeExactly count taken rest else some taken
  | taken, .data bytes :: rest =>
    if taken.length < count then
      if bytes = [] then none
      else takeExactly count (taken ++ bytes.take (count - taken.length)) rest
    else some taken

theorem takeExactly_done {taken : List UInt8} (h : n ≤ taken.length) (ss : List Receive) :
    takeExactly n taken ss = some taken := by
  have hd : ¬taken.length < n := by omega
  cases ss with
  | nil => simp [takeExactly, hd]
  | cons sg => cases sg <;> simp [takeExactly, hd]

def firstBytes (count : ℕ) (bytes : List UInt8) : Option (List UInt8) :=
  if count ≤ bytes.length then some (bytes.take count) else none

theorem firstBytes_append (h : bs.length = n) (mo : List UInt8) :
    firstBytes n (bs ++ mo) = some bs := by
  rw [firstBytes, if_pos (by rw [length_append]; omega), ← h, take_left]

/-- Reading a fixed number of bytes depends on the stream alone. -/
theorem takeExactly_eq {t : List UInt8} (ht : t.length ≤ n) (h : Proper ss) :
    takeExactly n t ss = firstBytes n (t ++ received ss) := by
  induction ss generalizing t with
  | nil =>
    rw [takeExactly, received, append_nil, firstBytes]
    by_cases hf : n ≤ t.length
    · rw [if_neg (by omega), if_pos hf, take_of_length_le ht]
    · rw [if_pos (by omega), if_neg hf]
  | cons sg rs ih =>
    by_cases hf : n ≤ t.length
    · rw [takeExactly_done hf, firstBytes_append (le_antisymm ht hf)]
    cases sg with
    | interrupted => rw [takeExactly, if_pos (by omega), ih ht h, received]
    | data bs =>
      obtain ⟨hb, hr⟩ := h
      have hl : (t ++ bs.take (n - t.length)).length ≤ n := by
        rw [length_append, length_take]
        omega
      rw [takeExactly, if_pos (by omega), if_neg hb, ih hl hr, received]
      by_cases hp : bs.length ≤ n - t.length
      · rw [take_of_length_le hp, append_assoc]
      -- The segment alone completes the read, so what follows it is cut off.
      have hw : (t ++ bs.take (n - t.length)).length = n := by
        rw [length_append, length_take]
        omega
      have hs : t ++ (bs ++ received rs) = t ++ bs.take (n - t.length) ++
            (bs.drop (n - t.length) ++ received rs) := by
        rw [append_assoc, ← append_assoc (bs.take _), take_append_drop]
      rw [hs, firstBytes_append hw, firstBytes_append hw]

section Search

inductive Found where
  | closed
  | full
  | found (buffer : List UInt8) (place : ℕ) (rest : List Receive)

def receiveUntil (limit : ℕ) (search : List UInt8 → Option ℕ) :
    List UInt8 → List Receive → Found
  | _, [] => .closed
  | buffer, .interrupted :: rest => receiveUntil limit search buffer rest
  | buffer, .data bytes :: rest =>
    if bytes = [] then .closed
    else
      let room := limit - buffer.length
      let filled := buffer ++ bytes.take room
      match search filled with
      | some place => .found filled place (pushBack (bytes.drop room) rest)
      | none => if filled.length < limit then receiveUntil limit search filled rest else .full

structure Stable (search : List UInt8 → Option ℕ) : Prop where
  within : ∀ bytes place, search bytes = some place → place ≤ bytes.length
  stays : ∀ bytes more place, search bytes = some place → search (bytes ++ more) = some place
  seen : ∀ bytes more place, search (bytes ++ more) = some place → place ≤ bytes.length →
    search bytes = some place

variable {m : ℕ} {se : List UInt8 → Option ℕ} {s : List UInt8}

/-- A shorter part that still reaches the place found gives the same place. -/
theorem Stable.take_eq (h : Stable se) {p : ℕ} (hp : se (s.take m) = some p)
    (hc : p ≤ n) (hl : n ≤ m) : se (s.take n) = some p := by
  have hwit := h.within _ _ hp
  rw [length_take] at hwit
  have hs : s.take m = s.take n ++ (s.drop n).take (m - n) := by
    rw [← take_add, Nat.add_sub_cancel' hl]
  rw [hs] at hp
  exact h.seen _ _ _ hp (by rw [length_take]; omega)

def Describes (limit : ℕ) (search : List UInt8 → Option ℕ) (stream : List UInt8) : Found → Prop
  | .closed => search (stream.take limit) = none ∧ stream.length < limit
  | .full => search (stream.take limit) = none ∧ limit ≤ stream.length
  | .found filled place rest =>
    search (stream.take limit) = some place ∧ place ≤ filled.length ∧ filled.length ≤ limit ∧
      filled ++ received rest = stream ∧ Proper rest

theorem receiveUntil_data (b bs : List UInt8) (rs : List Receive) (h : bs ≠ []) :
    receiveUntil m se b (.data bs :: rs) =
      match se (b ++ bs.take (m - b.length)) with
      | some p => .found (b ++ bs.take (m - b.length)) p
          (pushBack (bs.drop (m - b.length)) rs)
      | none =>
        if (b ++ bs.take (m - b.length)).length < m then
          receiveUntil m se (b ++ bs.take (m - b.length)) rs
        else .full := by
  rw [receiveUntil, if_neg h]

/-- The loop's result, from a buffer in which the search has not succeeded. -/
theorem receiveUntil_describes (hhs : Stable se) {b : List UInt8} (hhb : b.length < m)
    (hn : se b = none) (hhp : Proper ss) (hs : b ++ received ss = s) :
    Describes m se s (receiveUntil m se b ss) := by
  induction ss generalizing b with
  | nil =>
    rw [received, append_nil] at hs
    subst hs
    refine ⟨?_, hhb⟩
    rw [take_of_length_le (le_of_lt hhb)]
    exact hn
  | cons sg rs ih =>
    cases sg with
    | interrupted => exact ih hhb hn hhp hs
    | data bs =>
      obtain ⟨hb, hre⟩ := hhp
      have hr : (b ++ bs.take (m - b.length)).length ≤ m := by
        rw [length_append, length_take]
        omega
      have ha : b ++ bs.take (m - b.length) ++ (bs.drop (m - b.length) ++ received rs) = s := by
        rw [append_assoc, ← append_assoc (bs.take _), take_append_drop]
        exact hs
      have ht : s.take m = b ++ bs.take (m - b.length) ++
          (bs.drop (m - b.length) ++ received rs).take
            (m - (b ++ bs.take (m - b.length)).length) := by
        rw [← ha, take_append, take_of_length_le hr]
      rw [receiveUntil_data b bs rs hb]
      cases hh : se (b ++ bs.take (m - b.length)) with
      | some =>
        refine ⟨?_, hhs.within _ _ hh, hr, ?_, hre.pushBack⟩
        · rw [ht]
          exact hhs.stays _ _ _ hh
        · rw [received_pushBack]
          exact ha
      | none =>
        by_cases hl : (b ++ bs.take (m - b.length)).length < m
        · rw [if_pos hl]
          apply ih hl hh hre
          have hp : bs.length ≤ m - b.length := by
            rw [length_append, length_take] at hl
            omega
          rw [drop_eq_nil_of_le hp, nil_append] at ha
          exact ha
        · have hf : (b ++ bs.take (m - b.length)).length = m := by omega
          rw [if_neg hl]
          refine ⟨?_, ?_⟩
          · rw [ht, hf, Nat.sub_self, take_zero, append_nil]
            exact hh
          · rw [← ha, length_append, hf]
            omega

end Search

end Yvex.ReceivedStream
