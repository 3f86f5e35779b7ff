import Yvex.ArtifactTerminals

/-!
# Runs of the artifact sink

The invariant of all threads and its steps. A section is described by the terminal it
touches; what it owes there is enough for the whole sink.
-/

set_option autoImplicit false

namespace Yvex.ArtifactRuns

open AttentionData ArtifactSink ArtifactTerminals

variable {Thread : Type} {plan : SinkPlan} {sha : Sha256}

def shape (ordinal : ℕ) (chunks : List (List UInt8)) : TerminalState → List Entry
  | .empty | .beginning | .aborted => []
  | .active | .chunking | .committing => .begun ordinal :: chunks.map (.delivered ordinal)
  | .committed => .begun ordinal :: chunks.map (.delivered ordinal) ++ [.committed ordinal]

structure Logged (plan : SinkPlan) (sink : FileSink) (history : List Entry) : Prop where
  clean : Entry.refused ∉ history
  live : ∀ ordinal, (sink.records ordinal).state ≠ .aborted
  entries : ∀ ordinal, entriesOf ordinal history =
    shape ordinal (chunksOf ordinal history) (sink.records ordinal).state
  encoded : sink.summary.encodedBytesWritten =
    ∑ ordinal ∈ Finset.range plan.terminalCount, (received ordinal history).length

def committedCount (plan : SinkPlan) (sink : FileSink) : ℕ :=
  ((Finset.range plan.terminalCount).filter
    fun ordinal => (sink.records ordinal).state = .committed).card

def Confined (plan : SinkPlan) (write : Write) : Prop :=
  ∃ tensor, plan.writer.tensors[write.ordinal]? = some tensor ∧
    if write.padding then tensor.absoluteEnd ≤ write.offset ∧
      write.offset + write.length ≤ tensor.absoluteOffset + tensor.paddedBytes
    else tensor.absoluteOffset ≤ write.offset ∧ write.offset + write.length ≤ tensor.absoluteEnd

structure Sound (plan : SinkPlan) (sha : Sha256) (world : World Thread) : Prop where
  own : ∀ thread ordinal state, Phase.holds (world.threads thread) = some (ordinal, state) →
    ordinal < plan.terminalCount ∧ ((world.sink.records ordinal).state = state ∨
      (world.sink.records ordinal).state = .aborted)
  single : ∀ thread other ordinal state state',
    Phase.holds (world.threads thread) = some (ordinal, state) →
    Phase.holds (world.threads other) = some (ordinal, state') → thread = other
  bounded : ∀ ordinal, plan.terminalCount ≤ ordinal →
    (world.sink.records ordinal).state = .empty
  rest : ∀ ordinal, AtRest plan sha world.sink world.history ordinal
  hand : ∀ thread, InHand plan sha world.sink world.history (world.threads thread)
  blank : Blank plan world.sink
  logged : world.sink.failed = false → Logged plan world.sink world.history
  counted : world.sink.summary.committedTerminals = committedCount plan world.sink
  confined : ∀ write ∈ world.writes, Confined plan write
  complete : ∀ before, world.complete = some before →
    Passed plan world.sink world.history before ∧ Visited plan plan.terminalCount

structure Advances (plan : SinkPlan) (sha : Sha256) (world : World Thread) (thread : Thread)
    (move : Move) (touched : Option ℕ) : Prop where
  bound : ∀ ordinal, touched = some ordinal → ordinal < plan.terminalCount
  touches : Touches plan world.sink move.sink world.history (world.history ++ move.entries) touched
  rest : ∀ ordinal, touched = some ordinal →
    AtRest plan sha move.sink (world.history ++ move.entries) ordinal
  hand : InHand plan sha move.sink (world.history ++ move.entries) move.phase
  own : ∀ ordinal state, Phase.holds move.phase = some (ordinal, state) →
    (ordinal < plan.terminalCount ∧ ((move.sink.records ordinal).state = state ∨
      (move.sink.records ordinal).state = .aborted)) ∧
    ∀ other, other ≠ thread → ∀ state', Phase.holds (world.threads other) ≠ some (ordinal, state')
  others : ∀ ordinal, touched = some ordinal → ∀ other, other ≠ thread → ∀ state,
    Phase.holds (world.threads other) = some (ordinal, state) →
    InHand plan sha move.sink (world.history ++ move.entries) (world.threads other) ∧
    ((move.sink.records ordinal).state = (world.sink.records ordinal).state ∨
      (move.sink.records ordinal).state = .aborted)
  blank : Blank plan move.sink
  logged : move.sink.failed = false → Logged plan move.sink (world.history ++ move.entries)
  counted : move.sink.summary.committedTerminals = committedCount plan move.sink
  confined : ∀ write ∈ move.writes, Confined plan write
  complete : ∀ before, move.complete = some before →
    Passed plan move.sink (world.history ++ move.entries) before ∧
      Visited plan plan.terminalCount

variable {w : World Thread} {t : Thread} {move : Move} {touched : Option ℕ}

/-- A section that advances one thread keeps the invariant of all of them. -/
theorem Sound.apply [DecidableEq Thread] (hso : Sound plan sha w)
    (hst : Advances plan sha w t move touched) :
    Sound plan sha (w.apply t move) := by
  have hm : (w.apply t move).threads t = move.phase := Function.update_self ..
  have ht : ∀ {o}, o ≠ t → (w.apply t move).threads o = w.threads o :=
    fun ha => Function.update_of_ne ha ..
  constructor
  · intro o k s hh
    by_cases hhe : o = t
    · subst hhe
      rw [hm] at hh
      exact (hst.own k s hh).1
    rw [ht hhe] at hh
    obtain ⟨hbo, b⟩ := hso.own o k s hh
    refine ⟨hbo, ?_⟩
    by_cases hi : touched = some k
    · rcases (hst.others k hi o hhe s hh).2 with hs | hab
      · rw [show (w.apply t move).sink = move.sink from rfl, hs]
        exact b
      · exact Or.inr hab
    · rw [show (w.apply t move).sink = move.sink from rfl, hst.touches.records k hi]
      exact b
  · intro f h2 k s s' hht hho
    by_cases hr : f = t
    · by_cases h : h2 = t
      · rw [hr, h]
      · rw [hr, hm] at hht
        rw [ht h] at hho
        exact absurd hho ((hst.own k s hht).2 h2 h s')
    · rw [ht hr] at hht
      by_cases h : h2 = t
      · rw [h, hm] at hho
        exact absurd hht ((hst.own k s' hho).2 f hr s)
      · rw [ht h] at hho
        exact hso.single f h2 k s s' hht hho
  · intro k hb
    have away : touched ≠ some k := by
      intro hi
      have := hst.bound k hi
      omega
    change (move.sink.records k).state = .empty
    rw [hst.touches.records k away]
    exact hso.bounded k hb
  · intro k
    by_cases hi : touched = some k
    · exact hst.rest k hi
    · exact (hso.rest k).apart hst.touches hi
  · intro o
    by_cases hhe : o = t
    · rw [hhe, hm]
      exact hst.hand
    rw [ht hhe]
    by_cases hhd : ∃ k s, touched = some k ∧ Phase.holds (w.threads o) = some (k, s)
    · obtain ⟨k, s, hi, hh⟩ := hhd
      exact (hst.others k hi o hhe s hh).1
    · push Not at hhd
      exact (hso.hand o).apart hst.touches fun p s hh hi => hhd p s hi hh
  · exact hst.blank
  · exact hst.logged
  · exact hst.counted
  · intro wr hme
    rcases List.mem_append.mp hme with old | new
    · exact hso.confined wr old
    · exact hst.confined wr new
  · intro b hf
    change (move.complete <|> w.complete) = some b at hf
    cases d : move.complete with
    | some =>
      rw [d] at hf
      cases hf
      exact hst.complete b d
    | none =>
      rw [d] at hf
      obtain ⟨hp, hv⟩ := hso.complete b hf
      exact ⟨hp.stays hst.touches, hv⟩

variable {k : ℕ} {s : TerminalState}

theorem Sound.alone (hs : Sound plan sha w) (hh : Phase.holds (w.threads t) = some (k, s)) :
    ∀ other, other ≠ t → ∀ s', Phase.holds (w.threads other) ≠ some (k, s') :=
  fun other ha s' held => ha (hs.single other t k s' s held hh)

theorem holds_busy {p : Phase} (hh : Phase.holds p = some (k, s)) :
    s = .beginning ∨ s = .chunking ∨ s = .committing := by
  cases p <;> simp_all [Phase.holds]

theorem Sound.free (hso : Sound plan sha w)
    (hi : (w.sink.records k).state = .empty ∨ (w.sink.records k).state = .active ∨
      (w.sink.records k).state = .committed) (other : Thread) (s : TerminalState) :
    Phase.holds (w.threads other) ≠ some (k, s) := by
  intro hh
  have hb := holds_busy hh
  rcases (hso.own other k s hh).2 with hs | hab
  · rw [hs] at hi
    rcases hb with rfl | rfl | rfl <;> simp at hi
  · rw [hab] at hi
    simp at hi

theorem Sound.busy (hso : Sound plan sha w) (hh : Phase.holds (w.threads t) = some (k, s)) :
    (w.sink.records k).state ≠ .committed := by
  have hb := holds_busy hh
  rcases (hso.own t k s hh).2 with hs | hab
  · rw [hs]
    rcases hb with rfl | rfl | rfl <;> decide
  · rw [hab]
    decide

theorem Sound.at_work (hso : Sound plan sha w) {si : FileSink} {history : List Entry}
    (hh : Phase.holds (w.threads t) = some (k, s))
    (hs : (si.records k).state = (w.sink.records k).state) :
    AtRest plan sha si history k := by
  have hb := holds_busy hh
  rcases (hso.own t k s hh).2 with hk | hab
  · rw [AtRest, hs, hk]
    rcases hb with rfl | rfl | rfl <;> trivial
  · rw [AtRest, hs, hab]
    trivial

end Yvex.ArtifactRuns
