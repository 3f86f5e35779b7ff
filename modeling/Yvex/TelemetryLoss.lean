import Yvex.TelemetryRetention

/-!
# What a full ring loses

A ledger counts the events that callers offer and keeps each published one as
its caller offered it. A full ring counts one loss for each offered event. It
has lost one more while it retains a summary of its own: the event that was
turned into the summary and the one that made room for it were counted once.
-/

set_option autoImplicit false

namespace Yvex.Telemetry
open ProviderRequest TelemetryEvent ServerEnums KeyedSlots CheckedArithmetic WordCounter Runs List

structure Ledger where
  telemetry : ServerTelemetry
  offered : ℕ
  own : List Event

def offer (services : Services) (digest : EventDigest) (ledger : Ledger) (facts : EmitFacts) :
    Ledger :=
  match emitProvider services digest ledger.telemetry facts with
  | (.refused _, after) => { ledger with telemetry := after }
  | (.givenUp, after) => { ledger with telemetry := after, offered := ledger.offered + 1 }
  | (.published stored, after) =>
    ⟨after, ledger.offered + 1, ledger.own ++
      [identify digest { buildEvent facts with sequence := stored.sequence }]⟩

def lost (ledger : Ledger) : ℕ :=
  ledger.offered - ledger.own.countP fun event => event ∈ ledger.telemetry.events

def notices (ledger : Ledger) : ℕ :=
  (retainedEvents ledger.telemetry).countP fun event => event ∉ ledger.own

def Owned (own : List Event) (telemetry : ServerTelemetry) : Prop :=
  -- Only the summary is not an offered event.
  ∀ event ∈ telemetry.events, event.sequence ≠ 0 →
    event.sequence ≠ telemetry.dropNoticeSequence → event ∈ own

structure Balanced (ledger : Ledger) : Prop where
  ordered : Ordered ledger.telemetry ledger.own.length
  numbered : ledger.own.map Event.sequence = range' 1 ledger.own.length
  few : ledger.own.length ≤ ledger.offered
  counted : ledger.offered = ledger.telemetry.retainedCount + ledger.telemetry.dropped
  owned : Owned ledger.own ledger.telemetry

variable {d : EventDigest} {t a : ServerTelemetry} {n s : ℕ} {own : List Event} {e st : Event}

theorem Owned.storeAt (ho : Owned own t) (h : Ordered t n) (ht : Takes t s e)
    (hst : storeAt d t s e = .published st a) : Owned (own ++ [st]) a := by
  unfold Telemetry.storeAt at hst
  cases hst
  intro x hx hz hd
  obtain ⟨i, hi⟩ := mem_iff_getElem?.mp hx
  rw [getElem?_set] at hi
  split_ifs at hi with hs
  · simp [Option.some.inj hi]
  refine mem_append_left _ (ho x (mem_of_getElem? hi) hz ?_)
  intro hx'
  -- the slot that was taken did not hold the summary: this one does
  obtain ⟨m, hm, -⟩ := ht
  obtain ⟨hhe, hh, rfl⟩ := Option.map_eq_some_iff.mp (getElem?_map (f := mark) ▸ hm)
  have hne : hhe.sequence ≠ t.dropNoticeSequence := by
    intro hsa
    exact hs (h.distinct s i (mark hhe) (mark x) hm (by simp [shape, hi])
      (hsa.trans hx'.symm) (fun hze => hz (hx'.trans (hsa.symm.trans hze))))
  rw [getD_eq_getElem?_getD, hh, Option.getD_some, if_neg hne] at hd
  exact hd hx'

theorem Owned.dropNoticeUpdate (ho : Owned own t) : Owned own (dropNoticeUpdate d t) := by
  unfold Telemetry.dropNoticeUpdate
  split
  · exact ho
  cases hs : t.events.findIdx? fun e => e.sequence == t.dropNoticeSequence with
  | none =>
    intro x hx hz _
    exact ho x hx hz (by simpa using findIdx?_eq_none_iff.mp hs x hx)
  | some s =>
    intro x hx hz hd
    obtain ⟨hlt, hf, -⟩ := findIdx?_eq_some_iff_getElem.mp hs
    rcases mem_or_eq_of_mem_set hx with hh | rfl
    · exact ho x hh hz hd
    · refine absurd ?_ hd
      simpa [identify, dropNotice, hlt] using hf

theorem dropNoticeUpdate_dropped : (dropNoticeUpdate d t).dropped = t.dropped := by
  unfold dropNoticeUpdate
  split
  · rfl
  · split <;> rfl

structure Entered (digest : EventDigest) (own : List Event) (telemetry : ServerTelemetry)
    (event stored : Event) (after : ServerTelemetry) : Prop where
  content : stored = identify digest { event with sequence := stored.sequence }
  owned : Owned (own ++ [stored]) after
  dropped : after.dropped = telemetry.dropped
  retained : after.retainedCount = if telemetry.retainedCount < telemetry.capacity then
    telemetry.retainedCount + 1 else telemetry.retainedCount
  quiet : telemetry.dropNoticeSequence = 0 → after.dropNoticeSequence = 0

theorem eventAppend_enters (d : EventDigest) (h : Ordered t n) (hn : n < maximumSequence)
    (ho : Owned own t) (e : Event) :
    (∃ st a, eventAppend d t e = .published st a ∧ Entered d own t e st a) ∨
      (eventAppend d t e = .givenUp ∧ t.retainedCount = t.capacity) := by
  rcases eventAppend_cases (d := d) h hn e with ⟨s, ht, hs⟩ | ⟨hg, -, hf⟩
  · refine .inl ⟨_, _, hs, rfl, ho.storeAt h ht rfl, rfl, rfl, fun hz => ?_⟩
    rw [hz, ite_self]
  · exact .inr ⟨hg, hf⟩

def Counts (digest : EventDigest) (own : List Event) (telemetry : ServerTelemetry)
    (event : Event) : Emitted × ServerTelemetry → Prop
  | (.refused _, after) => after = telemetry
  | (.givenUp, after) => Owned own after ∧
    after.retainedCount + after.dropped = telemetry.retainedCount + telemetry.dropped + 1
  | (.published stored, after) =>
    Owned (own ++ [identify digest { event with sequence := stored.sequence }]) after ∧
    after.retainedCount + after.dropped = telemetry.retainedCount + telemetry.dropped + 1

/-- An event that meets a full ring adds one to what is retained or counted as dropped. -/
theorem emitFull_counts (h : Ordered t n) (hn : n < maximumSequence)
    (hd : t.dropped + 1 < wordLimit) (ho : Owned own t) (hf : t.retainedCount = t.capacity)
    (hop : t.closing = false) (e : Event) : Counts d own t e (emitLocked d t e) := by
  let c := underPressure t e
  let p := dropNoticeUpdate d c
  have ha : Alike t p := pressed_alike h e
  have hp : Owned own p := Owned.dropNoticeUpdate (t := c) ho
  have hpd : p.dropped = t.dropped + 1 := by
    rw [dropNoticeUpdate_dropped]
    exact wordAdd_eq hd
  have hpr : p.retainedCount = t.retainedCount := ha.retained
  rcases eventAppend_enters d (ha.ordered h) hn hp (if makesNotice c e then
    dropNotice c.dropped c.capacity c.coalescedCount e else e) with ⟨st, a, hap, hen⟩ | ⟨hg, -⟩
  · have hem : emitLocked d t e = (.published st,
        if makesNotice c e then { a with dropNoticeSequence := st.sequence } else a) := by
      simp [emitLocked, hop, hf, emitFull, hap, p, c]
    have hco : a.retainedCount + a.dropped = t.retainedCount + t.dropped + 1 := by
      rw [hen.retained, if_neg (by rw [hpr, ha.capacity, hf]; exact lt_irrefl _), hen.dropped,
        hpr, hpd, add_assoc]
    rw [hem]
    by_cases hh : makesNotice c e = true
    · rw [if_pos hh]
      refine ⟨fun x hx hz hx' => ?_, hco⟩
      -- there was no summary before this one
      have hpz : p.dropNoticeSequence = 0 := by
        have hc : t.dropNoticeSequence = 0 := by
          simp only [makesNotice, Bool.and_eq_true, beq_iff_eq] at hh
          exact hh.1.2
        exact ha.notice.elim (·.trans hc) id
      rcases mem_append.mp (hen.owned x hx hz (by rwa [hen.quiet hpz])) with hown | hst
      · exact mem_append_left _ hown
      · exact absurd (congrArg Event.sequence (mem_singleton.mp hst)) hx'
    · rw [if_neg hh] at hen ⊢
      refine ⟨?_, hco⟩
      rw [← hen.content]
      exact hen.owned
  · have hem : emitLocked d t e = (.givenUp, p) := by
      simp [emitLocked, hop, hf, emitFull, hg, notPublished, p, c]
    rw [hem]
    exact ⟨hp, by rw [hpr, hpd, add_assoc]⟩

theorem emitLocked_counts (h : Ordered t n) (hn : n < maximumSequence)
    (hd : t.dropped + 1 < wordLimit) (ho : Owned own t) (e : Event) :
    Counts d own t e (emitLocked d t e) := by
  by_cases hop : t.closing = true
  · rw [emitLocked, if_pos hop]
    rfl
  by_cases hf : t.retainedCount = t.capacity
  · exact emitFull_counts h hn hd ho hf (by simpa using hop) e
  rcases eventAppend_enters d h hn ho e with ⟨st, a, hap, he⟩ | ⟨-, hg⟩
  · have hem : emitLocked d t e = (.published st, a) := by simp [emitLocked, hop, hf, hap]
    have hr : t.retainedCount < t.capacity := not_le.mp fun hle =>
      hf (h.full_iff.mp (not_lt.mpr hle))
    rw [hem]
    constructor
    · rw [← he.content]
      exact he.owned
    · rw [he.retained, if_pos hr, he.dropped]
      omega
  · exact absurd hg hf

variable {services : Services} {l : Ledger}

theorem offer_balanced (h : Balanced l) (facts : EmitFacts)
    (hn : l.offered + 1 < maximumSequence) : Balanced (offer services d l facts) := by
  obtain ⟨ho, hhn, hhf, hc, how⟩ := h
  have hl : maximumSequence = wordLimit - 1 := rfl
  unfold offer emitProvider
  cases emitCheck services facts with
  | error => exact ⟨ho, hhn, hhf, hc, how⟩
  | ok _ =>
    have hr := emitLocked_result (d := d) ho (by omega) (buildEvent facts)
    have hh := emitLocked_counts (d := d) ho (by omega) (by omega) how (buildEvent facts)
    generalize emitLocked d l.telemetry (buildEvent facts) = o at hr hh
    match o, hr, hh with
    | (.refused _, _), _, rfl => exact ⟨ho, hhn, hhf, hc, how⟩
    | (.givenUp, a), hr, ⟨hown, hcount⟩ =>
      refine ⟨Alike.ordered hr ho, hhn, ?_, ?_, hown⟩ <;> dsimp only <;> omega
    | (.published st, a), hr, ⟨hown, hcount⟩ =>
      have hs : st.sequence = 1 + l.own.length := by rw [Stored.sequence hr, ho.next, Nat.add_comm]
      refine ⟨?_, ?_, ?_, ?_, hown⟩
      · simpa using Stored.ordered ho (by omega) hr
      · simp [hhn, range'_concat, identify, hs]
      · simpa using hhf
      · dsimp only
        omega

theorem offer_offered (facts : EmitFacts) : (offer services d l facts).offered ≤ l.offered + 1 := by
  unfold offer
  split <;> simp

theorem run_balanced (h : Balanced l) (c : List EmitFacts)
    (hn : l.offered + c.length < maximumSequence) :
    Balanced (run (offer services d) l c) := by
  induction c generalizing l with
  | nil => exact h
  | cons hf r ih =>
    have hle : (offer services d l hf).offered ≤ l.offered + 1 := offer_offered hf
    simp only [length_cons] at hn
    exact ih (offer_balanced h hf (by omega)) (by omega)

theorem Balanced.retained (h : Balanced l) :
    l.own.countP (· ∈ l.telemetry.events) + notices l = l.telemetry.retainedCount := by
  have ho : l.own.Nodup := by
    apply Nodup.of_map Event.sequence
    rw [h.numbered]
    exact nodup_range' 1
  have hp : ∀ e ∈ l.own, e.sequence ≠ 0 := by
    intro e he
    have hm : e.sequence ∈ range' 1 l.own.length := h.numbered ▸ mem_map_of_mem he
    have := (mem_range'_1.mp hm).1
    omega
  have hh : (l.own.filter (· ∈ l.telemetry.events)).Perm
      ((retainedEvents l.telemetry).filter (· ∈ l.own)) := by
    rw [perm_ext_iff_of_nodup (ho.filter _) ((Nodup.of_map _ h.ordered.retained_nodup).filter _)]
    intro e
    simp only [mem_filter, decide_eq_true_eq, mem_retainedEvents]
    exact ⟨fun he => ⟨⟨he.2, hp e he.1⟩, he.1⟩, fun he => ⟨he.2, he.1.1⟩⟩
  rw [countP_eq_length_filter, hh.length_eq, ← countP_eq_length_filter,
    h.ordered.retained_length, length_eq_countP_add_countP (fun e => decide (e ∈ l.own)), notices]
  simp

theorem Balanced.notices_le (h : Balanced l) : notices l ≤ 1 := by
  have hle : notices l ≤ ((retainedEvents l.telemetry).map Event.sequence).count
      l.telemetry.dropNoticeSequence := by
    rw [count, countP_map]
    refine countP_mono_left fun e he ho => ?_
    obtain ⟨hm, hz⟩ := mem_retainedEvents.mp he
    by_contra hne
    exact absurd (h.owned e hm hz (by simpa using hne)) (by simpa using ho)
  exact hle.trans (nodup_iff_count_le_one.mp h.ordered.retained_nodup _)

/-- As long as the sequence numbers have not run out, the lost events are the dropped
ones and, while the ring retains a summary of its own, one more. -/
theorem telemetry_loss {services : Services} {digest : EventDigest} {slotLimit capacity : ℕ}
    {telemetry : ServerTelemetry} (hopen : telemetryOpen slotLimit capacity = .ok telemetry)
    (calls : List EmitFacts) (hcount : calls.length < maximumSequence) :
    let ledger := run (offer services digest) ⟨telemetry, 0, []⟩ calls
    lost ledger = ledger.telemetry.dropped + notices ledger ∧ notices ledger ≤ 1 := by
  intro ledger
  have hstart : Balanced ⟨telemetry, 0, []⟩ := by
    have hkept := open_kept hopen
    refine ⟨hkept.ordered, rfl, le_refl _, ?_, ?_⟩
    · unfold telemetryOpen at hopen
      split at hopen
      · cases hopen
      · cases hopen
        rfl
    · intro e he hz
      obtain ⟨o, ho, -⟩ := hkept.history e he hz
      cases ho
  have h : Balanced ledger := run_balanced hstart calls (by simpa using hcount)
  have hr := h.retained
  have hc := h.counted
  refine ⟨?_, h.notices_le⟩
  rw [lost]
  omega

theorem two_fragments_loss :
    ∃ telemetry, telemetryOpen 4096 1 = .ok telemetry ∧
      let ledger := run (offer plainServices plainDigest) ⟨telemetry, 0, []⟩
        [progressFacts, plainFacts]
      lost ledger = ledger.telemetry.dropped + notices ledger ∧ notices ledger ≤ 1 :=
  ⟨_, rfl, telemetry_loss (show telemetryOpen 4096 1 = .ok _ from rfl) _ (by decide)⟩

/-- Two events that may be given up meet a ring of one slot: both are lost, one is counted. -/
theorem coalesced_event_uncounted :
    ∃ telemetry, telemetryOpen 4096 1 = .ok telemetry ∧
      let ledger := run (offer plainServices plainDigest) ⟨telemetry, 0, []⟩
        [progressFacts, progressFacts]
      lost ledger = 2 ∧ ledger.telemetry.dropped = 1 :=
  ⟨_, rfl, by decide, by decide⟩

end Yvex.Telemetry
