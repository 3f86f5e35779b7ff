import Yvex.ArtifactSink

/-!
# Terminals of the artifact sink

What holds of one terminal: its stored bytes are the chunks it has received, and the
digest sink has hashed them. At rest this is read off the record's state; while a
thread is between two sections of a call, off the thread's phase. A section touches
one terminal and leaves the others as they were.
-/

set_option autoImplicit false

namespace Yvex.ArtifactTerminals

open AttentionData ByteRegions QuantSink WriterLayout ArtifactSink

def Entry.ordinal : Entry → Option ℕ
  | .begun ordinal | .delivered ordinal _ | .committed ordinal | .aborted ordinal => some ordinal
  | .refused => none

def Entry.chunk (ordinal : ℕ) : Entry → Option (List UInt8)
  | .delivered other bytes => if other = ordinal then some bytes else none
  | _ => none

def chunksOf (ordinal : ℕ) (history : List Entry) : List (List UInt8) :=
  history.filterMap (Entry.chunk ordinal)

def received (ordinal : ℕ) (history : List Entry) : List UInt8 := (chunksOf ordinal history).flatten

def entriesOf (ordinal : ℕ) (history : List Entry) : List Entry :=
  history.filter fun entry => Entry.ordinal entry = some ordinal

variable {e : Entry} {k : ℕ}

theorem chunk_other (ha : Entry.ordinal e ≠ some k) : Entry.chunk k e = none := by
  cases e with
  | delivered o =>
    have hdi : o ≠ k := fun same => ha (congrArg some same)
    simp [Entry.chunk, hdi]
  | _ => rfl

theorem chunksOf_append (k : ℕ) (history es : List Entry) :
    chunksOf k (history ++ es) = chunksOf k history ++ chunksOf k es :=
  List.filterMap_append

theorem entriesOf_same (history : List Entry) (same : Entry.ordinal e = some k) :
    entriesOf k (history ++ [e]) = entriesOf k history ++ [e] := by
  simp [entriesOf, List.filter_append, same]

theorem chunksOf_delivered (k : ℕ) (history : List Entry) (bs : List UInt8) :
    chunksOf k (history ++ [.delivered k bs]) = chunksOf k history ++ [bs] := by
  simp [chunksOf, List.filterMap_append, Entry.chunk]

theorem received_delivered (k : ℕ) (history : List Entry) (bs : List UInt8) :
    received k (history ++ [.delivered k bs]) = received k history ++ bs := by
  simp [received, chunksOf_delivered]

def tensorAt (plan : SinkPlan) (ordinal : ℕ) : WriterTensor :=
  plan.writer.tensors[ordinal]?.getD ⟨0, 0, 0, 0, 0, 0⟩

def Inside (plan : SinkPlan) (ordinal position : ℕ) : Prop :=
  (tensorAt plan ordinal).absoluteOffset ≤ position ∧
    position < (tensorAt plan ordinal).absoluteOffset + (tensorAt plan ordinal).rawBytes

variable {plan : SinkPlan} {sha : Sha256}

theorem tensorAt_some {te : WriterTensor} (hf : plan.writer.tensors[k]? = some te) :
    tensorAt plan k = te := by
  rw [tensorAt, hf, Option.getD_some]

variable {p : ℕ}

theorem inside_found (hi : Inside plan k p) : plan.writer.tensors[k]? = some (tensorAt plan k) := by
  cases hf : plan.writer.tensors[k]? with
  | some => rw [tensorAt_some hf]
  | none =>
    rw [Inside, tensorAt, hf, Option.getD_none] at hi
    exact absurd hi.2 (Nat.not_lt_zero _)

theorem inside_behind (hi : Inside plan k p) : plan.writer.prefixBytes.length ≤ p :=
  (laid_bounds plan.writer.laid (inside_found hi)).1.trans hi.1

theorem inside_le {o : ℕ} (h1 : Inside plan k p) (h2 : Inside plan o p) : o ≤ k := by
  by_contra hlt
  have hbn := laid_bounds plan.writer.laid (inside_found h1)
  have ha := laid_apart plan.writer.laid (inside_found h1) (inside_found h2) (not_le.mp hlt)
  have := h1.2
  have := h2.1
  omega

theorem inside_single {o : ℕ} (h1 : Inside plan k p) (h2 : Inside plan o p) : k = o :=
  (inside_le h2 h1).antisymm (inside_le h1 h2)

def Stored (plan : SinkPlan) (sink : FileSink) (ordinal : ℕ) (bytes : List UInt8) : Prop :=
  bytes.length ≤ (tensorAt plan ordinal).rawBytes ∧
    contents sink.bytes (tensorAt plan ordinal).absoluteOffset bytes.length = bytes

theorem Stored.congr {s o : FileSink} {bs : List UInt8} (h : Stored plan s k bs)
    (same : ∀ p, Inside plan k p → o.bytes p = s.bytes p) : Stored plan o k bs := by
  refine ⟨h.1, ?_⟩
  rw [← h.2, contents_length]
  apply contents_congr
  intro p h1 last
  have hb := h.1
  exact same p ⟨h1, by omega⟩

structure Blank (plan : SinkPlan) (sink : FileSink) : Prop where
  structural : contents sink.bytes 0 plan.writer.prefixBytes.length = plan.writer.prefixBytes
  zero : ∀ position, plan.writer.prefixBytes.length ≤ position →
    (∀ ordinal, ¬ Inside plan ordinal position) → sink.bytes position = 0
  size : sink.size = plan.writer.finalFileBytes

def AtRest (plan : SinkPlan) (sha : Sha256) (sink : FileSink) (history : List Entry)
    (ordinal : ℕ) : Prop :=
  match (sink.records ordinal).state with
  | .empty => received ordinal history = [] ∧ (sink.records ordinal).deliveredBytes = 0 ∧
      Untouched sink.digest ordinal
  | .active => (sink.records ordinal).deliveredBytes = (received ordinal history).length ∧
      Stored plan sink ordinal (received ordinal history) ∧
      Tracks plan.quant sink.digest ordinal (received ordinal history)
  | .committed => Stored plan sink ordinal (received ordinal history) ∧
      Digested sha sink.digest ordinal (received ordinal history)
  | .beginning | .chunking | .committing | .aborted => True

def Phase.holds : Phase → Option (ℕ × TerminalState)
  | .beginning ordinal | .begun ordinal _ => some (ordinal, .beginning)
  | .writing ordinal _ _ _ _ | .written ordinal _ _ | .hashed ordinal _ =>
    some (ordinal, .chunking)
  | .committing ordinal _ _ _ | .settling ordinal _ _ => some (ordinal, .committing)
  | _ => none

structure Placed (plan : SinkPlan) (ordinal outputOffset fileOffset : ℕ) (bytes : List UInt8)
    (done : ℕ) : Prop where
  found : plan.writer.tensors[ordinal]? = some (tensorAt plan ordinal)
  offset : fileOffset = (tensorAt plan ordinal).absoluteOffset + outputOffset
  inside : outputOffset + bytes.length ≤ (tensorAt plan ordinal).rawBytes
  progress : done ≤ bytes.length

structure Delivering (plan : SinkPlan) (sink : FileSink) (history : List Entry) (ordinal : ℕ)
    (stored hashed : List UInt8) : Prop where
  delivered : (sink.records ordinal).deliveredBytes = (received ordinal history).length
  stored : Stored plan sink ordinal (received ordinal history ++ stored)
  tracks : Tracks plan.quant sink.digest ordinal (received ordinal history ++ hashed)

structure Passed (plan : SinkPlan) (sink : FileSink) (history before : List Entry) : Prop where
  earlier : before <+: history
  clean : Entry.refused ∉ before ∧ ∀ ordinal, Entry.aborted ordinal ∉ before
  settled : ∀ ordinal < plan.terminalCount, (sink.records ordinal).state = .committed ∧
    received ordinal history = received ordinal before ∧
    entriesOf ordinal before =
      .begun ordinal :: (chunksOf ordinal before).map (.delivered ordinal) ++ [.committed ordinal]
  sizes : ∀ ordinal < plan.terminalCount,
    (received ordinal before).length = (tensorAt plan ordinal).rawBytes
  others : ∀ ordinal, plan.terminalCount ≤ ordinal →
    (tensorAt plan ordinal).rawBytes = 0 ∧ received ordinal before = []

def Visited (plan : SinkPlan) (count : ℕ) : Prop :=
  ∀ ordinal < count, plan.writer.tensors[ordinal]? = some (tensorAt plan ordinal)

def InHand (plan : SinkPlan) (sha : Sha256) (sink : FileSink) (history : List Entry) :
    Phase → Prop
  | .beginning ordinal => (sink.records ordinal).state = .beginning →
      received ordinal history = [] ∧ (sink.records ordinal).deliveredBytes = 0 ∧
      Untouched sink.digest ordinal
  | .begun ordinal refused => (sink.records ordinal).state = .beginning → refused = false →
      received ordinal history = [] ∧ (sink.records ordinal).deliveredBytes = 0 ∧
      Tracks plan.quant sink.digest ordinal []
  | .writing ordinal outputOffset fileOffset bytes done =>
      Placed plan ordinal outputOffset fileOffset bytes done ∧
      ((sink.records ordinal).state = .chunking →
        outputOffset = (received ordinal history).length ∧
        Delivering plan sink history ordinal (bytes.take done) [])
  | .written ordinal _ bytes => (sink.records ordinal).state = .chunking →
      Delivering plan sink history ordinal bytes []
  | .hashed ordinal bytes => (sink.records ordinal).state = .chunking →
      Delivering plan sink history ordinal bytes bytes
  | .committing ordinal _ _ _ => (sink.records ordinal).state = .committing →
      Stored plan sink ordinal (received ordinal history) ∧
      Tracks plan.quant sink.digest ordinal (received ordinal history)
  | .settling ordinal _ _ => (sink.records ordinal).state = .committing →
      Stored plan sink ordinal (received ordinal history) ∧
      Digested sha sink.digest ordinal (received ordinal history)
  | .padding before ordinal => Passed plan sink history before ∧
      Visited plan (min ordinal plan.terminalCount)
  | .filling before ordinal _ => Passed plan sink history before ∧
      Visited plan (min (ordinal + 1) plan.terminalCount)
  | .digesting before | .flushing before | .stating before => Passed plan sink history before ∧
      Visited plan plan.terminalCount
  | .aborting ordinal => ordinal < plan.terminalCount
  | .idle | .refusing => True

structure Touches (plan : SinkPlan) (sink other : FileSink) (history later : List Entry)
    (touched : Option ℕ) : Prop where
  records : ∀ position, touched ≠ some position → other.records position = sink.records position
  digests : ∀ position, touched ≠ some position →
    other.digest.records position = sink.digest.records position
  received : ∀ position, touched ≠ some position →
    received position later = received position history
  bytes : ∀ position, touched ≠ some position → ∀ place, Inside plan position place →
    other.bytes place = sink.bytes place
  earlier : history <+: later
  committed : ∀ position, touched = some position → (sink.records position).state = .committed →
    (other.records position).state = .committed ∧
    ArtifactTerminals.received position later = ArtifactTerminals.received position history

section Frame

variable {sink o : FileSink} {history later : List Entry} {t : Option ℕ}

theorem Delivering.apart {stored hashed : List UInt8}
    (h : Delivering plan sink history p stored hashed)
    (ht : Touches plan sink o history later t) (ha : t ≠ some p) :
    Delivering plan o later p stored hashed := by
  obtain ⟨hdl, hk, htr⟩ := h
  constructor
  · rw [ht.records p ha, ht.received p ha]
    exact hdl
  · rw [ht.received p ha]
    exact hk.congr (ht.bytes p ha)
  · rw [ht.received p ha]
    exact htr.congr (ht.digests p ha)

theorem AtRest.apart (h : AtRest plan sha sink history p)
    (ht : Touches plan sink o history later t) (ha : t ≠ some p) :
    AtRest plan sha o later p := by
  unfold AtRest at h ⊢
  rw [ht.records p ha, ht.received p ha]
  have d := ht.digests p ha
  have bs := ht.bytes p ha
  cases s : (sink.records p).state with
  | empty =>
    rw [s] at h
    exact ⟨h.1, h.2.1, h.2.2.congr d⟩
  | active =>
    rw [s] at h
    exact ⟨h.1, h.2.1.congr bs, h.2.2.congr d⟩
  | committed =>
    rw [s] at h
    exact ⟨h.1.congr bs, h.2.congr d⟩
  | beginning | chunking | committing | aborted => trivial

theorem Passed.stays {b : List Entry} (h : Passed plan sink history b)
    (ht : Touches plan sink o history later t) :
    Passed plan o later b := by
  refine ⟨h.earlier.trans ht.earlier, h.clean, ?_, h.sizes, h.others⟩
  intro p hb
  obtain ⟨s, hsa, es⟩ := h.settled p hb
  by_cases hh : t = some p
  · obtain ⟨hk, hun⟩ := ht.committed p hh s
    exact ⟨hk, hun.trans hsa, es⟩
  · rw [ht.records p hh, ht.received p hh]
    exact ⟨s, hsa, es⟩

variable {ph : Phase}

/-- What a thread knows of its terminal survives the work on another one. -/
theorem InHand.apart (h : InHand plan sha sink history ph)
    (ht : Touches plan sink o history later t)
    (ha : ∀ p s, Phase.holds ph = some (p, s) → t ≠ some p) : InHand plan sha o later ph := by
  cases ph with
  | idle | refusing => trivial
  | aborting => exact h
  | beginning p =>
    have haw := ha _ _ rfl
    simp only [InHand] at h ⊢
    rw [ht.records p haw, ht.received p haw]
    intro s
    obtain ⟨hno, hdl, hut⟩ := h s
    exact ⟨hno, hdl, hut.congr (ht.digests p haw)⟩
  | begun p =>
    have haw := ha _ _ rfl
    simp only [InHand] at h ⊢
    rw [ht.records p haw, ht.received p haw]
    intro s hac
    obtain ⟨hno, hdl, htr⟩ := h s hac
    exact ⟨hno, hdl, htr.congr (ht.digests p haw)⟩
  | writing p =>
    have haw := ha _ _ rfl
    simp only [InHand] at h ⊢
    rw [ht.records p haw, ht.received p haw]
    exact ⟨h.1, fun s => ⟨(h.2 s).1, (h.2 s).2.apart ht haw⟩⟩
  | written p ou bs | hashed p bs =>
    have haw := ha _ _ rfl
    simp only [InHand] at h ⊢
    rw [ht.records p haw]
    exact fun s => (h s).apart ht haw
  | committing p db r so | settling p r so =>
    have haw := ha _ _ rfl
    simp only [InHand] at h ⊢
    rw [ht.records p haw, ht.received p haw]
    intro s
    obtain ⟨hst, hd⟩ := h s
    exact ⟨hst.congr (ht.bytes p haw), hd.congr (ht.digests p haw)⟩
  | padding | filling | digesting | flushing | stating => exact ⟨h.1.stays ht, h.2⟩

theorem InHand.gone {s : TerminalState} (h : InHand plan sha sink history ph)
    (hh : Phase.holds ph = some (k, s)) (hab : (o.records k).state = .aborted) :
    InHand plan sha o later ph := by
  have hn : ∀ {c : TerminalState}, c ≠ .aborted → (o.records k).state ≠ c := by
    intro c hl hsa
    exact hl (hsa.symm.trans hab)
  cases ph with
  | beginning p | begun p refused | written p ou bs
  | hashed p bs | committing p deliveredBytes r so
  | settling =>
    cases hh
    intro hsa
    exact absurd hsa (hn (by decide))
  | writing =>
    cases hh
    exact ⟨h.1, fun hsa => absurd hsa (hn (by decide))⟩
  | _ => cases hh

end Frame

end Yvex.ArtifactTerminals
