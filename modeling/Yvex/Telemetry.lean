import Yvex.KeyedSlots
import Yvex.Runs
import Yvex.TelemetryEvent
import Yvex.WordCounter

/-!
# Bounded event retention

The telemetry keeps the last events in a fixed number of slots under one lock.
When all are taken, an event that may be given up makes room for a new one; if
there is none, an event that may be given up is not published, and any other
takes the slot of the oldest. A subscriber asks for the first event behind a
sequence number and may wait for it. Each critical section is one step; a
waiting subscriber looks again whenever it is woken. The invariant of the ring
looks at the sequence number and the kind of a slot's event, and what an emission
may do to them is said once.
-/

set_option autoImplicit false

namespace Yvex.Telemetry

open AttentionData StateRecipe ProviderRequest TelemetryEvent KeyedSlots CheckedArithmetic
  WordCounter ServerEnums List

structure ServerTelemetry where
  events : List Event
  capacity : ℕ
  nextSequence : ℕ
  retainedCount : ℕ
  dropped : ℕ
  coalescedCount : ℕ
  dropNoticeSequence : ℕ
  activeSubscribers : ℕ
  closing : Bool

def maximumSequence : ℕ := wordLimit - 1

def telemetryOpen (slotLimit capacity : ℕ) : Except Refusal ServerTelemetry :=
  if capacity = 0 ∨ capacity > slotLimit then
    .error (errorOnly .invalidArg "server.telemetry.open" "bounded telemetry capacity is required")
  else .ok ⟨List.replicate capacity Event.zero, capacity, 1, 0, 0, 0, 0, 0, false⟩

def oldestSlot (telemetry : ServerTelemetry) (replaceableOnly : Bool) : Option ℕ :=
  leastSlot (fun event => event.sequence != 0 && (!replaceableOnly || replaceable event.kind))
    Event.sequence maximumSequence telemetry.events

def freeSlot (telemetry : ServerTelemetry) : Option ℕ :=
  telemetry.events.findIdx? fun event => event.sequence == 0

inductive Appended where
  | failed
  | published (event : Event) (telemetry : ServerTelemetry)
  | givenUp

def storeAt (digest : EventDigest) (telemetry : ServerTelemetry) (slot : ℕ) (event : Event) :
    Appended :=
  let numbered := identify digest { event with sequence := telemetry.nextSequence }
  let held := telemetry.events.getD slot Event.zero
  .published numbered
    { telemetry with
      events := telemetry.events.set slot numbered
      nextSequence := wordAdd telemetry.nextSequence 1
      retainedCount :=
        if telemetry.retainedCount < telemetry.capacity then telemetry.retainedCount + 1
        else telemetry.retainedCount
      dropNoticeSequence :=
        if held.sequence = telemetry.dropNoticeSequence then 0 else telemetry.dropNoticeSequence }

def eventAppend (digest : EventDigest) (telemetry : ServerTelemetry) (event : Event) : Appended :=
  if telemetry.retainedCount < telemetry.capacity then
    match freeSlot telemetry with
    | some slot => storeAt digest telemetry slot event
    | none => .failed
  else match oldestSlot telemetry true with
    | some slot => storeAt digest telemetry slot event
    | none =>
      if replaceable event.kind then .givenUp
      else match oldestSlot telemetry false with
        | some slot => storeAt digest telemetry slot event
        | none => .failed

def dropNoticeUpdate (digest : EventDigest) (telemetry : ServerTelemetry) : ServerTelemetry :=
  if telemetry.dropNoticeSequence = 0 then telemetry
  else match telemetry.events.findIdx? fun event =>
      event.sequence == telemetry.dropNoticeSequence with
    | none => { telemetry with dropNoticeSequence := 0 }
    | some slot =>
      let event := telemetry.events.getD slot Event.zero
      { telemetry with
        events := telemetry.events.set slot (identify digest
          (dropNotice telemetry.dropped telemetry.capacity telemetry.coalescedCount event)) }

def makesNotice (telemetry : ServerTelemetry) (event : Event) : Bool :=
  replaceable event.kind && telemetry.dropNoticeSequence == 0 && (oldestSlot telemetry true).isSome

def underPressure (telemetry : ServerTelemetry) (event : Event) : ServerTelemetry :=
  { telemetry with
    dropped := wordAdd telemetry.dropped 1
    coalescedCount :=
      if replaceable event.kind then wordAdd telemetry.coalescedCount 1
      else telemetry.coalescedCount }

def emitFull (digest : EventDigest) (telemetry : ServerTelemetry) (event : Event) : Appended :=
  let counted := underPressure telemetry event
  let notice := makesNotice counted event
  let offered :=
    if notice then dropNotice counted.dropped counted.capacity counted.coalescedCount event
    else event
  match eventAppend digest (dropNoticeUpdate digest counted) offered with
  | .published stored after =>
    .published stored
      (if notice then { after with dropNoticeSequence := stored.sequence } else after)
  | other => other

def notPublished (digest : EventDigest) (telemetry : ServerTelemetry) (event : Event) :
    ServerTelemetry :=
  if telemetry.retainedCount = telemetry.capacity then
    dropNoticeUpdate digest (underPressure telemetry event)
  else telemetry

inductive Emitted where
  | refused (refusal : Refusal)
  | published (event : Event)
  | givenUp

def emitLocked (digest : EventDigest) (telemetry : ServerTelemetry) (event : Event) :
    Emitted × ServerTelemetry :=
  if telemetry.closing then (.refused (emitRefusal .state "telemetry is closing"), telemetry)
  else
    let appended :=
      if telemetry.retainedCount = telemetry.capacity then emitFull digest telemetry event
      else eventAppend digest telemetry event
    match appended with
    | .published stored after => (.published stored, after)
    | .givenUp => (.givenUp, notPublished digest telemetry event)
    | .failed =>
      (.refused (emitRefusal .state "event identity derivation failed"),
        notPublished digest telemetry event)

def emitProvider (services : Services) (digest : EventDigest) (telemetry : ServerTelemetry)
    (facts : EmitFacts) : Emitted × ServerTelemetry :=
  match emitCheck services facts with
  | .error refusal => (.refused refusal, telemetry)
  | .ok () => emitLocked digest telemetry (buildEvent facts)

section Subscription

def nextSlot (telemetry : ServerTelemetry) (after : ℕ) : Option ℕ :=
  leastSlot (fun event => decide (after < event.sequence)) Event.sequence maximumSequence
    telemetry.events

def mustWait (telemetry : ServerTelemetry) (after : ℕ) : Bool :=
  -- A waiting call stays while nothing behind its sequence number has been numbered.
  !telemetry.closing && decide (wordSub telemetry.nextSequence 1 ≤ after)

def selectNext (telemetry : ServerTelemetry) (after : ℕ) : Option Event :=
  (nextSlot telemetry after).bind fun slot => telemetry.events[slot]?

structure Return where
  after : ℕ
  wait : Bool
  found : Option Event
  retained : List Event
  closing : Bool

def leave (telemetry : ServerTelemetry) : ServerTelemetry :=
  { telemetry with activeSubscribers := telemetry.activeSubscribers - 1 }

structure World where
  telemetry : ServerTelemetry
  waiting : ℕ → Option ℕ
  published : List Event
  returns : List Return

inductive Op where
  | emit (facts : EmitFacts)
  | next (subscriber after : ℕ) (wait : Bool)
  | wake (subscriber : ℕ)
  | close

def returned (world : World) (after : ℕ) (wait : Bool) (found : Option Event) : Return :=
  ⟨after, wait, found, world.telemetry.events.filter fun event => event.sequence != 0,
    world.telemetry.closing⟩

def finishNext (world : World) (after : ℕ) (wait : Bool) : World :=
  { world with
    telemetry := leave world.telemetry
    returns := world.returns ++
      [returned world after wait (selectNext world.telemetry after)] }

def setWaiting (world : World) (subscriber : ℕ) (after : Option ℕ) : World :=
  { world with waiting := Function.update world.waiting subscriber after }

variable (services : Services) (digest : EventDigest)

def step (world : World) : Op → World
  | .emit facts =>
    match emitProvider services digest world.telemetry facts with
    | (.published event, telemetry) =>
      { world with telemetry := telemetry, published := world.published ++ [event] }
    | (_, telemetry) => { world with telemetry := telemetry }
  | .next subscriber after wait =>
    if (world.waiting subscriber).isSome then world
    else if world.telemetry.closing then
      { world with returns := world.returns ++ [returned world after wait none] }
    else
      let entered : World :=
        { world with telemetry :=
            { world.telemetry with activeSubscribers := world.telemetry.activeSubscribers + 1 } }
      if wait && mustWait world.telemetry after then setWaiting entered subscriber (some after)
      else finishNext entered after wait
  | .wake subscriber =>
    match world.waiting subscriber with
    | none => world
    | some after =>
      if mustWait world.telemetry after then world
      else finishNext (setWaiting world subscriber none) after true
  | .close => { world with telemetry := { world.telemetry with closing := true } }

def start (telemetry : ServerTelemetry) : World := ⟨telemetry, fun _ => none, [], []⟩

end Subscription

def noticeKind : UInt32 := code EventKind.telemetryDropped.ctorIdx

def mark (event : Event) : ℕ × UInt32 := (event.sequence, event.kind)

def shape (telemetry : ServerTelemetry) : List (ℕ × UInt32) := telemetry.events.map mark

structure Ordered (telemetry : ServerTelemetry) (count : ℕ) : Prop where
  size : (shape telemetry).length = telemetry.capacity
  room : 0 < telemetry.capacity
  held : telemetry.retainedCount = occupied Prod.fst (shape telemetry)
  distinct : Distinct Prod.fst (shape telemetry)
  next : telemetry.nextSequence = count + 1
  bounded : ∀ slot ∈ shape telemetry, slot.1 ≤ count
  latest : 0 < count → ∃ slot ∈ shape telemetry, slot.1 = count
  notice : ∀ slot ∈ shape telemetry, slot.1 = telemetry.dropNoticeSequence →
    telemetry.dropNoticeSequence ≠ 0 → slot.2 = noticeKind
  noticed : telemetry.dropNoticeSequence ≤ count

structure Alike (telemetry other : ServerTelemetry) : Prop where
  marks : shape other = shape telemetry
  capacity : other.capacity = telemetry.capacity
  next : other.nextSequence = telemetry.nextSequence
  retained : other.retainedCount = telemetry.retainedCount
  notice : other.dropNoticeSequence = telemetry.dropNoticeSequence ∨ other.dropNoticeSequence = 0
  contents : ∀ event ∈ other.events, event ∈ telemetry.events ∨ event.kind = noticeKind

theorem Alike.refl (t : ServerTelemetry) : Alike t t :=
  ⟨rfl, rfl, rfl, rfl, .inl rfl, fun _ => .inl⟩

variable {f mid : ServerTelemetry}

theorem Alike.trans {last : ServerTelemetry} (h : Alike f mid) (hn : Alike mid last) :
    Alike f last := by
  refine ⟨hn.marks.trans h.marks, hn.capacity.trans h.capacity, hn.next.trans h.next,
    hn.retained.trans h.retained, ?_, ?_⟩
  · rcases hn.notice with hke | hg
    · rw [hke]
      exact h.notice
    · exact .inr hg
  · intro e hev
    rcases hn.contents e hev with hh | hk
    · exact h.contents e hh
    · exact .inr hk

theorem Alike.ordered {n : ℕ} (h : Alike f mid) (ho : Ordered f n) : Ordered mid n := by
  obtain ⟨hm, hc, hn, hr, hnot, _⟩ := h
  refine ⟨?_, ?_, ?_, ?_, ?_, ?_, ?_, ?_, ?_⟩
  · rw [hm, hc]
    exact ho.size
  · rw [hc]
    exact ho.room
  · rw [hm, hr]
    exact ho.held
  · rw [hm]
    exact ho.distinct
  · rw [hn]
    exact ho.next
  · rw [hm]
    exact ho.bounded
  · rw [hm]
    exact ho.latest
  · intro s hsl hs hne
    rcases hnot with hk | hg
    · rw [hm] at hsl
      rw [hk] at hs hne
      exact ho.notice s hsl hs hne
    · exact absurd hg hne
  · have := ho.noticed
    omega

section Emission

variable {d : EventDigest} {t : ServerTelemetry} {n : ℕ}

theorem mark_notice (k c m : ℕ) (e : Event) :
    mark (identify d (dropNotice k c m e)) = (e.sequence, noticeKind) := rfl

variable {s : ℕ}

theorem summary_shape (h : Ordered t n) (hs : t.events.findIdx? (fun e =>
      e.sequence == t.dropNoticeSequence) = some s)
    (hn : t.dropNoticeSequence ≠ 0) :
    (t.events.set s (identify d (dropNotice t.dropped t.capacity
      t.coalescedCount (t.events.getD s Event.zero)))).map mark =
      shape t := by
  obtain ⟨hlt, hf, _⟩ := findIdx?_eq_some_iff_getElem.mp hs
  have hsq : t.events[s].sequence = t.dropNoticeSequence := by simpa using hf
  have hk : t.events[s].kind = noticeKind := h.notice _ (mem_map_of_mem (getElem_mem hlt)) hsq hn
  have hget : t.events.getD s Event.zero = t.events[s] := by simp [hlt]
  rw [map_set, mark_notice, hget, ← hk]
  change (shape t).set s (mark t.events[s]) = shape t
  have hs : (shape t)[s]? = some (mark t.events[s]) := by simp [shape, hlt]
  obtain ⟨_, he⟩ := List.getElem?_eq_some_iff.mp hs
  rw [← he, set_getElem_self]

theorem dropNoticeUpdate_alike (h : Ordered t n) : Alike t (dropNoticeUpdate d t) := by
  unfold dropNoticeUpdate
  split
  · exact Alike.refl t
  rename_i hn
  split
  · exact ⟨rfl, rfl, rfl, rfl, .inr rfl, fun _ => .inl⟩
  rename_i hs
  refine ⟨?_, rfl, rfl, rfl, .inl rfl, ?_⟩
  · exact summary_shape h hs hn
  · intro e hev
    rcases mem_or_eq_of_mem_set hev with hh | rfl
    · exact .inl hh
    · exact .inr rfl

theorem underPressure_alike (e : Event) : Alike t (underPressure t e) :=
  ⟨rfl, rfl, rfl, rfl, .inl rfl, fun _ => .inl⟩

theorem pressed_alike (h : Ordered t n) (e : Event) :
    Alike t (dropNoticeUpdate d (underPressure t e)) :=
  (underPressure_alike e).trans (dropNoticeUpdate_alike ((underPressure_alike e).ordered h))

def Takes (telemetry : ServerTelemetry) (slot : ℕ) (event : Event) : Prop :=
  ∃ held, (shape telemetry)[slot]? = some held ∧
    ((held.1 = 0 ∧ telemetry.retainedCount < telemetry.capacity) ∨
      (held.1 ≠ 0 ∧ telemetry.retainedCount = telemetry.capacity ∧
        (replaceable held.2 = true ∨
          (replaceable event.kind = false ∧
            ∀ other ∈ shape telemetry, other.1 ≠ 0 → replaceable other.2 = false))))

structure Stored (telemetry : ServerTelemetry) (event : Event) (after : ServerTelemetry) :
    Prop where
  sequence : event.sequence = telemetry.nextSequence
  next : after.nextSequence = wordAdd telemetry.nextSequence 1
  capacity : after.capacity = telemetry.capacity
  retained : after.retainedCount = if telemetry.retainedCount < telemetry.capacity then
    telemetry.retainedCount + 1 else telemetry.retainedCount
  slot : ∃ slot, Takes telemetry slot event ∧
    shape after = (shape telemetry).set slot (mark event)
  notice : after.dropNoticeSequence = 0 ∨ after.dropNoticeSequence = telemetry.dropNoticeSequence ∨
    (after.dropNoticeSequence = event.sequence ∧ event.kind = noticeKind)
  contents : ∀ held ∈ after.events, held = event ∨ held ∈ telemetry.events ∨ held.kind = noticeKind

variable {e st : Event} {a : ServerTelemetry}

theorem storeAt_stored (ht : Takes t s e) (h : storeAt d t s e = .published st a) :
    Stored t st a ∧ st.kind = e.kind := by
  cases h
  refine ⟨⟨rfl, rfl, rfl, rfl, ⟨s, ht, ?_⟩, ?_, ?_⟩, rfl⟩
  · simp [shape, map_set]
  · dsimp only
    split
    · exact .inl rfl
    · exact .inr (.inl rfl)
  · intro held hh
    rcases mem_or_eq_of_mem_set hh with hold | rfl
    · exact .inr (.inl hold)
    · exact .inl rfl

theorem oldestSlot_some {only : Bool} (h : oldestSlot t only = some s) :
    ∃ old, (shape t)[s]? = some old ∧ old.1 ≠ 0 ∧ (only = true → replaceable old.2 = true) := by
  obtain ⟨e, hev, ha, _⟩ := leastSlot_some h
  refine ⟨mark e, by rw [shape, getElem?_map, hev]; rfl, ?_, ?_⟩
  · simp only [Bool.and_eq_true, bne_iff_ne] at ha
    exact ha.1
  · rintro rfl
    simpa [mark] using (Bool.and_eq_true _ _ ▸ ha).2

theorem Stored.of_alike {b : ServerTelemetry} (ha : Alike t b) (h : Stored b e a) :
    Stored t e a := by
  obtain ⟨hm, hc, hn, hr, hnot, hcon⟩ := ha
  refine ⟨?_, ?_, ?_, ?_, ?_, ?_, ?_⟩
  · rw [h.sequence, hn]
  · rw [h.next, hn]
  · rw [h.capacity, hc]
  · rw [h.retained, hr, hc]
  · obtain ⟨s, ht, hsh⟩ := h.slot
    refine ⟨s, ?_, by rw [hsh, hm]⟩
    unfold Takes at ht ⊢
    rw [hm, hr, hc] at ht
    exact ht
  · rcases h.notice with hg | hs | hne
    · exact .inl hg
    · rcases hnot with hk | hf
      · exact .inr (.inl (hs.trans hk))
      · exact .inl (hs.trans hf)
    · exact .inr (.inr hne)
  · intro hh hhe
    rcases h.contents hh hhe with hne | hold | hki
    · exact .inl hne
    · exact .inr (hcon hh hold)
    · exact .inr (.inr hki)

def EmitResult (telemetry : ServerTelemetry) : Emitted × ServerTelemetry → Prop
  | (.published event, after) => Stored telemetry event after
  | (_, after) => Alike telemetry after

/-- A stored event leaves the slots with distinct sequence numbers. -/
theorem Stored.ordered (ho : Ordered t n) (hco : n + 1 < maximumSequence) (h : Stored t e a) :
    Ordered a (n + 1) := by
  obtain ⟨s, ⟨held, hhe, hc⟩, hs⟩ := h.slot
  have hse : (mark e).1 = n + 1 := by
    rw [← ho.next]
    exact h.sequence
  have hlt : s < (shape t).length := (List.getElem?_eq_some_iff.mp hhe).1
  have hm : ∀ o ∈ (shape t).set s (mark e), o = mark e ∨ o ∈ shape t := by
    intro o hot
    exact (mem_or_eq_of_mem_set hot).symm
  have hnoti := ho.noticed
  have hev : e.sequence = n + 1 := hse
  refine ⟨?_, ?_, ?_, ?_, ?_, ?_, ?_, ?_, ?_⟩
  · rw [hs, length_set, h.capacity]
    exact ho.size
  · rw [h.capacity]
    exact ho.room
  · rw [h.retained, hs]
    rcases hc with ⟨hf, hr⟩ | ⟨hu, hfull, _⟩
    · rw [if_pos hr, ho.held, occupied_set_free Prod.fst hhe hf (by omega)]
    · rw [if_neg (by omega), ho.held, occupied_set_used Prod.fst hhe hu (by omega)]
  · rw [hs]
    apply ho.distinct.set
    intro o hot
    have := ho.bounded o hot
    omega
  · have hl : maximumSequence = wordLimit - 1 := rfl
    rw [h.next, ho.next, wordAdd_eq (by omega)]
  · rw [hs]
    intro o hot
    rcases hm o hot with rfl | hh
    · exact le_of_eq hse
    · have := ho.bounded o hh
      omega
  · intro _
    rw [hs]
    exact ⟨mark e, mem_set hlt _, hse⟩
  · rw [hs]
    intro o hot hsa hne
    rcases h.notice with hg | hk | ⟨hn, hki⟩
    · exact absurd hg hne
    · rcases hm o hot with rfl | hh
      · omega
      · rw [hk] at hsa hne
        exact ho.notice o hh hsa hne
    · rcases hm o hot with rfl | hh
      · exact hki
      · have := ho.bounded o hh
        omega
  · rcases h.notice with hg | hk | ⟨hn, _⟩ <;> omega

theorem Ordered.full_iff (h : Ordered t n) : ¬t.retainedCount < t.capacity ↔
      t.retainedCount = t.capacity := by
  have hle := occupied_le Prod.fst (shape t)
  rw [← h.held, h.size] at hle
  omega

theorem Ordered.unfilled (h : Ordered t n) (hr : t.retainedCount < t.capacity) :
    ∃ s, freeSlot t = some s ∧ ∃ event, t.events[s]? = some event ∧ event.sequence = 0 := by
  cases hs : freeSlot t with
  | some s =>
    obtain ⟨hlt, hf, _⟩ := findIdx?_eq_some_iff_getElem.mp hs
    exact ⟨s, rfl, t.events[s], getElem?_eq_getElem hlt, by simpa using hf⟩
  | none =>
    have ha : occupied Prod.fst (shape t) = (shape t).length := by
      rw [occupied, countP_eq_length]
      intro slot hm
      obtain ⟨event, hh, rfl⟩ := mem_map.mp hm
      simpa [mark] using findIdx?_eq_none_iff.mp hs event hh
    rw [← h.held, h.size] at ha
    omega

variable (h : Ordered t n) (hc : n < maximumSequence)
include h hc

theorem oldestSlot_none (hn : oldestSlot t true = none) :
    ∀ s ∈ shape t, s.1 ≠ 0 → replaceable s.2 = false := by
  intro s hs hne
  obtain ⟨e, hev, rfl⟩ := mem_map.mp hs
  have hb := h.bounded _ hs
  by_contra hkind
  have hl := leastSlot_none hn e hev (by
    simp only [mark] at hne hkind
    simpa [hne] using hkind)
  have hseq : e.sequence ≤ n := hb
  omega

theorem Ordered.oldest (hf : t.retainedCount = t.capacity) : oldestSlot t false ≠ none := by
  intro hn
  have ha : occupied Prod.fst (shape t) = (shape t).length := by
    rw [← h.held, h.size]
    exact hf
  have hr := h.room
  rw [← h.size] at hr
  obtain ⟨s, hs⟩ := exists_mem_of_length_pos hr
  have hu := all_occupied Prod.fst ha s hs
  have hb := h.bounded s hs
  obtain ⟨held, hh, rfl⟩ := mem_map.mp hs
  have hl := leastSlot_none hn held hh (by simpa [mark] using hu)
  simp only [mark] at hb
  omega

/-- An event is stored in a slot it may take, or given up by a full ring. -/
theorem eventAppend_cases (e : Event) :
    (∃ s, Takes t s e ∧ eventAppend d t e = storeAt d t s e) ∨
      (eventAppend d t e = .givenUp ∧ replaceable e.kind = true ∧
        t.retainedCount = t.capacity) := by
  unfold eventAppend
  split
  · rename_i hr
    obtain ⟨s, hs, hhe, hh, hz⟩ := h.unfilled hr
    refine .inl ⟨s, ⟨mark hhe, by simp [shape, hh], .inl ⟨hz, hr⟩⟩, ?_⟩
    rw [hs]
  rename_i hf
  rw [h.full_iff] at hf
  cases hs : oldestSlot t true with
  | some s =>
    obtain ⟨hhe, hh, hne, hk⟩ := oldestSlot_some hs
    exact .inl ⟨s, ⟨hhe, hh, .inr ⟨hne, hf, .inl (hk rfl)⟩⟩, rfl⟩
  | none =>
    by_cases hk : replaceable e.kind = true
    · exact .inr ⟨if_pos hk, hk, hf⟩
    obtain ⟨s, ho⟩ := Option.ne_none_iff_exists'.mp (h.oldest hc hf)
    obtain ⟨hhe, hh, hne, _⟩ := oldestSlot_some ho
    refine .inl ⟨s, ⟨hhe, hh, .inr ⟨hne, hf, .inr ⟨by simpa using hk, ?_⟩⟩⟩, ?_⟩
    · exact oldestSlot_none h hc hs
    · rw [if_neg hk, ho]

theorem eventAppend_stored (ha : eventAppend d t e = .published st a) :
    Stored t st a ∧ st.kind = e.kind := by
  rcases eventAppend_cases h hc e with ⟨s, ht, hs⟩ | ⟨hg, -⟩
  · exact storeAt_stored ht (hs.symm.trans ha)
  · rw [hg] at ha
    cases ha

theorem emitFull_stored (hf : emitFull d t e = .published st a) : Stored t st a := by
  have ha : Alike t (dropNoticeUpdate d (underPressure t e)) := pressed_alike h e
  unfold emitFull at hf
  dsimp only at hf
  split at hf
  · rename_i happ
    obtain ⟨hs, hk⟩ := eventAppend_stored (ha.ordered h) hc happ
    cases hf
    by_cases hn : makesNotice (underPressure t e) e = true
    · rw [if_pos hn] at hk ⊢
      apply Stored.of_alike ha
      exact ⟨hs.sequence, hs.next, hs.capacity, hs.retained, hs.slot,
        .inr (.inr ⟨rfl, hk⟩), hs.contents⟩
    · rw [if_neg hn]
      exact Stored.of_alike ha hs
  · rename_i ho
    exact absurd hf (ho _ _)

theorem emitLocked_result (e : Event) : EmitResult t (emitLocked d t e) := by
  have hk : Alike t (notPublished d t e) := by
    unfold notPublished
    split
    · exact pressed_alike h e
    · exact Alike.refl t
  unfold emitLocked
  split
  · exact Alike.refl t
  dsimp only
  split
  · rename_i ha
    split at ha
    · exact emitFull_stored h hc ha
    · exact (eventAppend_stored h hc ha).1
  · exact hk
  · exact hk

theorem emitProvider_result (services : Services) (facts : EmitFacts) :
    EmitResult t (emitProvider services d t facts) := by
  unfold emitProvider
  split
  · exact Alike.refl t
  · exact emitLocked_result h hc _

end Emission

section Publication

variable (d : EventDigest) {t : ServerTelemetry} {n : ℕ}

variable {e : Event}

/-- An event that may not be given up always finds a slot. -/
theorem eventAppend_publishes (h : Ordered t n) (hc : n < maximumSequence)
    (hk : replaceable e.kind = false) :
    ∃ st a, eventAppend d t e = .published st a ∧ a.closing = t.closing := by
  rcases eventAppend_cases h hc e with ⟨s, -, hs⟩ | ⟨-, hg, -⟩
  · exact ⟨_, _, hs, rfl⟩
  · rw [hk] at hg
    cases hg

theorem dropNoticeUpdate_closing : (dropNoticeUpdate d t).closing = t.closing := by
  unfold dropNoticeUpdate
  split
  · rfl
  · split <;> rfl

theorem emitLocked_publishes (h : Ordered t n) (hc : n < maximumSequence) (ho : t.closing = false)
    (hk : replaceable e.kind = false) :
    ∃ st a, emitLocked d t e = (.published st, a) ∧ a.closing = false := by
  have hn : makesNotice (underPressure t e) e = false := by simp [makesNotice, hk]
  unfold emitLocked
  rw [if_neg (by simp [ho])]
  by_cases hf : t.retainedCount = t.capacity
  · have hp : Ordered (dropNoticeUpdate d (underPressure t e)) n := (pressed_alike h e).ordered h
    obtain ⟨st, a, ha, hcl⟩ := eventAppend_publishes d hp hc hk
    refine ⟨st, a, ?_, ?_⟩
    · simp [hf, emitFull, hn, ha]
    · rw [hcl, dropNoticeUpdate_closing]
      exact ho
  · obtain ⟨st, a, ha, hcl⟩ := eventAppend_publishes d h hc hk
    refine ⟨st, a, ?_, hcl.trans ho⟩
    simp [hf, ha]

end Publication

end Yvex.Telemetry
