import Yvex.ArtifactRuns

/-!
# Sections of the artifact sink

Each locked section, each positioned write and each call of the digest sink keeps the
invariant.
-/

set_option autoImplicit false

namespace Yvex.ArtifactSections

open AttentionData ByteRegions QuantSink ArtifactSink ArtifactTerminals ArtifactRuns List Move

variable (history : List Entry)

variable {Thread : Type} {plan : SinkPlan} {sha : Sha256} {w : World Thread} {t : Thread}

@[simp] theorem recordSet_same (sink : FileSink) (k : ℕ) (r : TerminalRecord) :
    (sink.setRecord k r).records k = r :=
  Function.update_self ..

theorem recordSet_other (sn : FileSink) {k p : ℕ} (r : TerminalRecord) (ha : p ≠ k) :
    (sn.setRecord k r).records p = sn.records p :=
  Function.update_of_ne ha ..

@[simp] theorem setState_same (sn : FileSink) (k : ℕ) (s : TerminalState) :
    (sn.setState k s).records k = { sn.records k with state := s } :=
  Function.update_self ..

variable {s : TerminalState} {sn : FileSink}

theorem setState_other {k p : ℕ} (ha : p ≠ k) : (sn.setState k s).records p = sn.records p :=
  Function.update_of_ne ha ..

theorem committedCount_congr {o : FileSink}
    (same : ∀ k, (o.records k).state = .committed ↔ (sn.records k).state = .committed) :
    committedCount plan o = committedCount plan sn := by
  unfold committedCount
  congr 1
  apply Finset.filter_congr
  intro k _
  exact same k

structure Still (sink : FileSink) (move : Move) : Prop where
  records : move.sink.records = sink.records
  digests : move.sink.digest.records = sink.digest.records
  bytes : move.sink.bytes = sink.bytes
  size : move.sink.size = sink.size
  committed : move.sink.summary.committedTerminals = sink.summary.committedTerminals
  entries : move.entries = [] ∨
    move.sink.failed = true ∧ ∀ ordinal, chunksOf ordinal move.entries = []
  failed : move.sink.failed = false → sink.failed = false ∧
    move.sink.summary.encodedBytesWritten = sink.summary.encodedBytesWritten
  writes : move.writes = []

variable {sink : FileSink} {m : Move}

theorem Still.receives (hst : Still sink m) (history : List Entry) (k : ℕ) :
    received k (history ++ m.entries) = received k history := by
  rcases hst.entries with none | ⟨-, hno⟩
  · rw [none, append_nil]
  · rw [received, chunksOf_append, hno, append_nil, received]

theorem Still.touches (hh : Still w.sink m) :
    Touches plan w.sink m.sink w.history (w.history ++ m.entries) none where
  records p _ := by rw [hh.records]
  digests p _ := by rw [hh.digests]
  received p _ := hh.receives w.history p
  bytes p _ place _ := by rw [hh.bytes]
  earlier := prefix_append _ _
  committed p h := by cases h

/-- A section that changes no record keeps what is known of every terminal. -/
theorem Still.advances (so : Sound plan sha w) (hh : Still w.sink m)
    (ha : InHand plan sha m.sink (w.history ++ m.entries) m.phase)
    (ho : Phase.holds m.phase = none ∨ Phase.holds m.phase = Phase.holds (w.threads t))
    (hcm : ∀ b, m.complete = some b →
      Passed plan w.sink w.history b ∧ Visited plan plan.terminalCount) :
    Advances plan sha w t m none where
  bound k h := by cases h
  touches := hh.touches
  rest k h := by cases h
  hand := ha
  own k s held := by
    rcases ho with none | same
    · rw [none] at held
      cases held
    rw [same] at held
    constructor
    · rw [hh.records]
      exact so.own t k s held
    · exact so.alone held
  others k h := by cases h
  blank := by
    obtain ⟨hsl, zero, size⟩ := so.blank
    refine ⟨?_, ?_, ?_⟩
    · rw [hh.bytes]
      exact hsl
    · rw [hh.bytes]
      exact zero
    · rw [hh.size]
      exact size
  logged fine := by
    obtain ⟨b, e⟩ := hh.failed fine
    rcases hh.entries with none | ⟨hf, -⟩
    · obtain ⟨hc, hl, es, sum⟩ := so.logged b
      rw [none, append_nil]
      refine ⟨hc, ?_, ?_, ?_⟩
      · rw [hh.records]
        exact hl
      · rw [hh.records]
        exact es
      · rw [e]
        exact sum
    · rw [hf] at fine
      cases fine
  counted := by
    rw [hh.committed, so.counted]
    exact (committedCount_congr fun k => by rw [hh.records]).symm
  confined write hm := by
    rw [hh.writes] at hm
    cases hm
  complete b found := by
    obtain ⟨hp, hv⟩ := hcm b found
    exact ⟨hp.stays hh.touches, hv⟩

theorem still_failed (sn : FileSink) (ph : Phase) {es : List Entry}
    (hno : ∀ k, chunksOf k es = []) : Still sn ⟨sn.poison, ph, es, [], none⟩ where
  records := rfl
  digests := rfl
  bytes := rfl
  size := rfl
  committed := rfl
  entries := Or.inr ⟨rfl, hno⟩
  failed h := by cases h
  writes := rfl

theorem still_physical (sn : FileSink) (tt : ℕ) (ph : Phase) : Still sn (.to
    { sn with summary := { sn.summary with physicalWriteBytes := tt } } ph) where
  records := rfl
  digests := rfl
  bytes := rfl
  size := rfl
  committed := rfl
  entries := Or.inl rfl
  failed fine := ⟨fine, rfl⟩
  writes := rfl

structure Works (plan : SinkPlan) (world : World Thread) (thread : Thread) (move : Move)
    (ordinal : ℕ) : Prop where
  bound : ordinal < plan.terminalCount
  records : ∀ position, position ≠ ordinal →
    move.sink.records position = world.sink.records position
  digests : ∀ position, position ≠ ordinal →
    move.sink.digest.records position = world.sink.digest.records position
  bytes : ∀ place, ¬ Inside plan ordinal place → move.sink.bytes place = world.sink.bytes place
  size : move.sink.size = world.sink.size
  entries : ∀ entry ∈ move.entries, ∀ position, position ≠ ordinal →
    Entry.ordinal entry ≠ some position
  open_ : (world.sink.records ordinal).state ≠ .committed
  alone : ∀ other, other ≠ thread → ∀ state,
    Phase.holds (world.threads other) ≠ some (ordinal, state)
  holds : ∀ position state, Phase.holds move.phase = some (position, state) → position = ordinal ∧
    ((move.sink.records ordinal).state = state ∨ (move.sink.records ordinal).state = .aborted)
  confined : ∀ write ∈ move.writes, Confined plan write
  complete : move.complete = none

structure Logs (world : World Thread) (move : Move) (ordinal : ℕ) : Prop where
  fine : world.sink.failed = false
  clean : Entry.refused ∉ move.entries
  live : (move.sink.records ordinal).state ≠ .aborted
  entries : entriesOf ordinal world.history =
      shape ordinal (chunksOf ordinal world.history) (world.sink.records ordinal).state →
    entriesOf ordinal (world.history ++ move.entries) =
      shape ordinal (chunksOf ordinal (world.history ++ move.entries))
        (move.sink.records ordinal).state
  encoded : move.sink.summary.encodedBytesWritten + (received ordinal world.history).length =
    world.sink.summary.encodedBytesWritten +
      (received ordinal (world.history ++ move.entries)).length

variable {ph : Phase}

section Working

variable {m : Move} {k : ℕ}

variable {es : List Entry} {p : ℕ}

theorem chunksOf_append_other (ha : ∀ e ∈ es, Entry.ordinal e ≠ some p) :
    chunksOf p (history ++ es) = chunksOf p history := by
  have hno : chunksOf p es = [] := by
    apply filterMap_eq_nil_iff.mpr
    intro e hm
    exact chunk_other (ha e hm)
  rw [chunksOf_append, hno, append_nil]

theorem entriesOf_append_other (ha : ∀ e ∈ es, Entry.ordinal e ≠ some p) :
    entriesOf p (history ++ es) = entriesOf p history := by
  have hno : entriesOf p es = [] := by
    apply filter_eq_nil_iff.mpr
    intro e hm
    simp [ha e hm]
  rw [entriesOf, filter_append, ← entriesOf, ← entriesOf, hno, append_nil]

theorem Works.chunks (hw : Works plan w t m k) (ha : p ≠ k) :
    chunksOf p (w.history ++ m.entries) = chunksOf p w.history :=
  chunksOf_append_other w.history fun e hm => hw.entries e hm p ha

theorem Works.touches (hw : Works plan w t m k) :
    Touches plan w.sink m.sink w.history (w.history ++ m.entries) (some k) where
  records p ha := hw.records p fun hsa => ha (congrArg some hsa.symm)
  digests p ha := hw.digests p fun hsa => ha (congrArg some hsa.symm)
  received p ha := by rw [received, received, hw.chunks fun hsa => ha (congrArg some hsa.symm)]
  bytes p ha place hi := by
    apply hw.bytes place
    intro hh
    exact ha (congrArg some (inside_single hh hi))
  earlier := prefix_append _ _
  committed p hsa s := by
    cases hsa
    exact absurd s hw.open_

theorem Works.blank (hw : Works plan w t m k) (so : Sound plan sha w) :
    Blank plan m.sink := by
  obtain ⟨hstr, zero, size⟩ := so.blank
  refine ⟨?_, ?_, hw.size.trans size⟩
  · refine Eq.trans (contents_congr ?_) hstr
    intro plan _ hb
    apply hw.bytes plan
    intro hi
    have hbh := inside_behind hi
    omega
  · intro plan hbh ho
    rw [hw.bytes plan (ho k)]
    exact zero plan hbh ho

theorem Works.logged (hw : Works plan w t m k) (so : Sound plan sha w) (hlg : Logs w m k) :
    Logged plan m.sink (w.history ++ m.entries) := by
  obtain ⟨hc, hl, es, en⟩ := so.logged hlg.fine
  refine ⟨?_, ?_, ?_, ?_⟩
  · intro hm
    rcases mem_append.mp hm with old | new
    · exact hc old
    · exact hlg.clean new
  · intro p
    by_cases hh : p = k
    · rw [hh]
      exact hlg.live
    · rw [hw.records p hh]
      exact hl p
  · intro p
    by_cases hh : p = k
    · rw [hh]
      exact hlg.entries (es k)
    · rw [hw.records p hh, hw.chunks hh, ← es p]
      exact entriesOf_append_other w.history fun e hm => hw.entries e hm p hh
  · have hm : k ∈ Finset.range plan.terminalCount := Finset.mem_range.mpr hw.bound
    have hos : ∑ p ∈ (Finset.range plan.terminalCount).erase k,
        (received p (w.history ++ m.entries)).length =
        ∑ p ∈ (Finset.range plan.terminalCount).erase k, (received p w.history).length := by
      apply Finset.sum_congr rfl
      intro p hi
      rw [received, received, hw.chunks (Finset.ne_of_mem_erase hi)]
    have now := Finset.add_sum_erase _ (fun p => (received p (w.history ++ m.entries)).length) hm
    have b := Finset.add_sum_erase _ (fun p => (received p w.history).length) hm
    have hch := hlg.encoded
    omega

theorem works_quiet (hb : k < plan.terminalCount)
    (hr : ∀ p, p ≠ k → sink.records p = w.sink.records p)
    (d : ∀ p, p ≠ k → sink.digest.records p = w.sink.digest.records p)
    (bs : sink.bytes = w.sink.bytes) (sz : sink.size = w.sink.size)
    (own : ∀ e ∈ es, ∀ p, p ≠ k → Entry.ordinal e ≠ some p)
    (ho : (w.sink.records k).state ≠ .committed)
    (hal : ∀ o, o ≠ t → ∀ s, Phase.holds (w.threads o) ≠ some (k, s))
    (hh : ∀ p s, Phase.holds ph = some (p, s) →
      p = k ∧ ((sink.records k).state = s ∨ (sink.records k).state = .aborted)) :
    Works plan w t ⟨sink, ph, es, [], none⟩ k where
  bound := hb
  records := hr
  digests := d
  bytes place _ := by rw [bs]
  size := sz
  entries := own
  open_ := ho
  alone := hal
  holds := hh
  confined write h := by cases h
  complete := rfl

theorem own_nil (k : ℕ) : ∀ e ∈ ([] : List Entry), ∀ p, p ≠ k → Entry.ordinal e ≠ some p := by
  nofun

theorem own_entry {e : Entry} (own : Entry.ordinal e = some k ∨ e = .refused) :
    ∀ o ∈ [e], ∀ p, p ≠ k → Entry.ordinal o ≠ some p := by
  intro o hm p ha hsa
  rw [mem_singleton.mp hm] at hsa
  rcases own with hh | hr
  · rw [hh] at hsa
    exact ha (Option.some.inj hsa).symm
  · rw [hr] at hsa
    cases hsa

theorem holds_idle (none : Phase.holds ph = none) : ∀ p s, Phase.holds ph = some (p, s) → p = k ∧
      ((sink.records k).state = s ∨ (sink.records k).state = .aborted) := by
  intro p s hh
  rw [none] at hh
  cases hh

end Working

variable {k : ℕ}

theorem counted_state {o : FileSink} (hr : ∀ p, p ≠ k → o.records p = sink.records p)
    (b : (sink.records k).state ≠ .committed) (ha : (o.records k).state ≠ .committed) :
    committedCount plan o = committedCount plan sink := by
  apply committedCount_congr
  intro p
  by_cases hh : p = k
  · rw [hh]
    exact iff_of_false ha b
  · rw [hr p hh]

theorem logs_same (so : Sound plan sha w) (none : m.entries = [])
    (hf : m.sink.failed = w.sink.failed)
    (s : (m.sink.records k).state = (w.sink.records k).state)
    (hen : m.sink.summary.encodedBytesWritten = w.sink.summary.encodedBytesWritten)
    (fine : m.sink.failed = false) : Logs w m k := by
  have b : w.sink.failed = false := hf ▸ fine
  constructor
  · exact b
  · simp [none]
  · rw [s]
    exact (so.logged b).live k
  · rw [none, append_nil, s]
    exact fun es => es
  · rw [none, append_nil, hen]

theorem stored_nil (plan : SinkPlan) (sink : FileSink) (k : ℕ) : Stored plan sink k [] :=
  ⟨Nat.zero_le _, rfl⟩

theorem chunksOf_entries (k : ℕ) (history : List Entry) :
    chunksOf k history = (entriesOf k history).filterMap (Entry.chunk k) := by
  rw [chunksOf, entriesOf, filterMap_filter]
  apply filterMap_congr
  intro e _
  by_cases hh : Entry.ordinal e = some k
  · simp [hh]
  · simp [hh, chunk_other hh]

variable [DecidableEq Thread]

theorem sound_refuse (so : Sound plan sha w) : Sound plan sha (w.apply t w.sink.refuse) :=
  so.apply ((still_failed w.sink .idle fun _ => rfl).advances so trivial (Or.inl rfl) nofun)

theorem sound_poison (so : Sound plan sha w) (hand : InHand plan sha w.sink.poison w.history ph)
    (hh : Phase.holds ph = none) : Sound plan sha (w.apply t (.to w.sink.poison ph)) := by
  apply so.apply ((still_failed w.sink ph fun _ => rfl).advances so _ (Or.inl hh) nofun)
  simpa [Move.to] using hand

theorem sound_to (so : Sound plan sha w) (hand : InHand plan sha w.sink w.history ph)
    (hh : Phase.holds ph = none) : Sound plan sha (w.apply t (.to w.sink ph)) := by
  apply so.apply ((still_physical w.sink _ ph).advances so _ (Or.inl hh) nofun)
  simpa [Move.to] using hand

theorem Works.sound (hw : Works plan w t m k) (so : Sound plan sha w)
    (hr : AtRest plan sha m.sink (w.history ++ m.entries) k)
    (hand : InHand plan sha m.sink (w.history ++ m.entries) m.phase)
    (logs : m.sink.failed = false → Logs w m k)
    (hct : m.sink.summary.committedTerminals = committedCount plan m.sink) :
    Sound plan sha (w.apply t m) := by
  have step : Advances plan sha w t m (some k) := by
    constructor
    · intro p hsa
      cases hsa
      exact hw.bound
    · exact hw.touches
    · intro p hsa
      cases hsa
      exact hr
    · exact hand
    · intro p s hh
      obtain ⟨rfl, hk⟩ := hw.holds p s hh
      exact ⟨⟨hw.bound, hk⟩, hw.alone⟩
    · intro p hsa o ha s hh
      cases hsa
      exact absurd hh (hw.alone o ha s)
    · exact hw.blank so
    · exact fun hf => hw.logged so (logs hf)
    · exact hct
    · exact hw.confined
    · intro b h
      rw [hw.complete] at h
      cases h
  exact so.apply step

section Begins

variable (so : Sound plan sha w)
include so

variable {k : ℕ}

theorem sound_enter (hb : k < plan.terminalCount) (hf : w.sink.failed = false)
    (hid : (w.sink.records k).state = .empty ∧ s = .beginning ∨
      (w.sink.records k).state = .active ∧ (s = .chunking ∨ s = .committing))
    (holds : Phase.holds ph = some (k, s))
    (hand : InHand plan sha (w.sink.setState k s) w.history ph) :
    Sound plan sha (w.apply t (.to (w.sink.setState k s) ph)) := by
  have st : (w.sink.records k).state ≠ .committed ∧ s ≠ .committed ∧
      s ≠ .aborted ∧ ∀ c, shape k c s = shape k c (w.sink.records k).state := by
    rcases hid with ⟨was, rfl⟩ | ⟨was, rfl | rfl⟩ <;> simp [was, shape]
  obtain ⟨hop, uncommitted, hl, same⟩ := st
  have ot : ∀ p, p ≠ k → (w.sink.setState k s).records p = w.sink.records p :=
    fun _ ha => setState_other ha
  have hw : Works plan w t (.to (w.sink.setState k s) ph) k := by
    apply works_quiet hb ot (fun _ _ => rfl) rfl rfl (own_nil k) hop
    · refine fun o _ hh => so.free ?_ o hh
      rcases hid with ⟨was, -⟩ | ⟨was, -⟩ <;> simp [was]
    · intro p hh ho
      rw [holds] at ho
      cases ho
      exact ⟨rfl, Or.inl (by simp)⟩
  apply hw.sound so
  · rcases hid with ⟨-, rfl⟩ | ⟨-, rfl | rfl⟩ <;> simp [AtRest, Move.to]
  · simpa [Move.to] using hand
  · intro _
    constructor
    · exact hf
    · simp [Move.to]
    · simpa [Move.to] using hl
    · intro es
      simpa [Move.to, same] using es
    · simp [Move.to, FileSink.setState, FileSink.setRecord]
  · exact so.counted.trans (counted_state ot hop (by simpa using uncommitted)).symm

theorem sound_digest (hh : Phase.holds (w.threads t) = some (k, s)) {d : DigestSink}
    (ha : ∀ p, p ≠ k → d.records p = w.sink.digest.records p)
    (next : Phase.holds ph = none ∨ Phase.holds ph = some (k, s))
    (hand : InHand plan sha { w.sink with digest := d } w.history ph) :
    Sound plan sha (w.apply t (.to { w.sink with digest := d } ph)) := by
  have own := so.own t k s hh
  have hw : Works plan w t (.to { w.sink with digest := d } ph) k :=
    works_quiet own.1 (fun _ _ => rfl) ha rfl rfl (own_nil k) (so.busy hh)
      (so.alone hh) (fun p held ho => by
        rcases next with none | same
        · rw [none] at ho
          cases ho
        · rw [same] at ho
          cases ho
          exact ⟨rfl, own.2⟩)
  apply hw.sound so
  · exact so.at_work hh rfl
  · simpa [Move.to] using hand
  · exact logs_same so rfl rfl rfl rfl
  · exact so.counted

theorem sound_begin (d : DecisionArg) : Sound plan sha (w.apply t (sinkBegin plan w.sink d)) := by
  cases d with
  | null | foreign => exact sound_refuse so
  | planned k =>
    rw [sinkBegin]
    split_ifs with hr
    · exact sound_refuse so
    push Not at hr
    obtain ⟨hb, hf, -, s⟩ := hr
    have r := so.rest k
    rw [AtRest, s] at r
    refine sound_enter so hb (by simpa using hf) (Or.inl ⟨s, rfl⟩) rfl fun _ => ?_
    exact ⟨r.1, by simpa using r.2.1, r.2.2⟩

theorem sound_beginDigest (ph : w.threads t = .beginning k) :
    Sound plan sha (w.apply t (sinkBeginDigest plan w.sink k)) := by
  have hh := so.hand t
  rw [ph] at hh
  refine sound_digest so (by rw [ph]; rfl) (fun _ ha => digestBegin_apart ha)
    (Or.inr rfl) fun s hok => ?_
  obtain ⟨hno, hdl, hut⟩ := hh s
  exact ⟨hno, hdl, digestBegin_accepts hut hok⟩

/-- The holder of a terminal ends its call: it lets go of the terminal. -/
theorem sound_returns {e : Entry} (hh : Phase.holds (w.threads t) = some (k, s))
    (hr : ∀ p, p ≠ k → sink.records p = w.sink.records p) (digest : sink.digest = w.sink.digest)
    (bs : sink.bytes = w.sink.bytes) (size : sink.size = w.sink.size)
    (own : Entry.ordinal e = some k ∨ e = .refused)
    (rest : AtRest plan sha sink (w.history ++ [e]) k)
    (logs : sink.failed = false → Logs w (.returns sink e) k)
    (hct : sink.summary.committedTerminals = committedCount plan sink) :
    Sound plan sha (w.apply t (.returns sink e)) :=
  (works_quiet (so.own t k _ hh).1 hr (fun _ _ => by rw [digest]) bs size (own_entry own)
    (so.busy hh) (so.alone hh) (holds_idle rfl)).sound so rest trivial logs hct

theorem sound_abortTerminal (hh : Phase.holds (w.threads t) = some (k, s)) :
    Sound plan sha (w.apply t (w.sink.abortTerminal k).refuse) := by
  refine sound_returns so hh (fun _ ha => setState_other ha) rfl rfl rfl (Or.inr rfl) ?_ ?_ ?_
  · simp [AtRest, FileSink.poison, FileSink.abortTerminal]
  · rintro ⟨⟩
  · refine so.counted.trans (counted_state (fun _ ha => setState_other ha) (so.busy hh) ?_).symm
    simp

theorem sound_beginFinish {refused : Bool} (ph : w.threads t = .begun k refused) :
    Sound plan sha (w.apply t (sinkBeginFinish w.sink k refused)) := by
  have hh : Phase.holds (w.threads t) = some (k, .beginning) := by
    rw [ph]
    rfl
  unfold sinkBeginFinish
  split_ifs with hf alive
  · exact sound_abortTerminal so hh
  · exact sound_refuse so
  push Not at hf
  obtain ⟨hok, s⟩ := hf
  have hha := so.hand t
  rw [ph] at hha
  obtain ⟨hno, hdl, ht⟩ := hha s (by simpa using hok)
  have hsa : received k (w.history ++ [.begun k]) = [] := by
    rw [← hno]
    simp [received, chunksOf, filterMap_append, Entry.chunk]
  refine sound_returns so hh (fun _ ha => setState_other ha) rfl rfl rfl (Or.inl rfl) ?_ ?_ ?_
  · simp only [AtRest, setState_same, hsa]
    exact ⟨hdl, stored_nil _ _ _, ht⟩
  · intro fine
    constructor
    · exact fine
    · simp [returns]
    · simp [returns]
    · intro es
      rw [s] at es
      have none : chunksOf k w.history = [] := by
        rw [chunksOf_entries, es]
        rfl
      have hst : chunksOf k (w.history ++ [.begun k]) = [] := by
        rw [← none]
        simp [chunksOf, filterMap_append, Entry.chunk]
      simp only [returns, setState_same]
      rw [entriesOf_same _ rfl, es, hst]
      rfl
    · simp only [returns]
      rw [hsa, hno]
      rfl
  · refine so.counted.trans (counted_state (fun _ ha => setState_other ha) (so.busy hh) ?_).symm
    simp

end Begins

end Yvex.ArtifactSections
