import Yvex.ArtifactChunks

/-!
# The artifact file is one transaction per terminal

Finalization is admitted when every terminal is committed and the chunks sum up to the
planned payload. The file then consists of the structural bytes and, for each tensor,
the bytes its terminal has received and zeros.
-/

set_option autoImplicit false

namespace Yvex.ArtifactTransaction

open AttentionData ByteRegions CheckedArithmetic QuantSink WriterLayout ArtifactSink List Nat
  ArtifactTerminals ArtifactRuns ArtifactSections ArtifactChunks Runs

variable {Thread : Type} {plan : SinkPlan} {sha : Sha256} {w : World Thread}
  {th : Thread}

theorem payload_sum (p : SinkPlan) (n : ℕ) (he : p.writer.tensors.length ≤ n) :
    p.writer.tensorPayloadBytes = ∑ k ∈ Finset.range n, (tensorAt p k).rawBytes := by
  have sum : ∀ (ts : List WriterTensor) (n : ℕ), ts.length ≤ n →
      (ts.map WriterTensor.rawBytes).sum = ∑ k ∈ Finset.range n,
        (ts[k]?.getD ⟨0, 0, 0, 0, 0, 0⟩).rawBytes := by
    intro ts
    induction ts with
    | nil => simp
    | cons t r ih =>
      intro n he
      cases n with
      | zero => simp at he
      | succ n =>
        rw [Finset.sum_range_succ']
        simp only [getElem?_cons_succ, getElem?_cons_zero, Option.getD_some, map_cons, sum_cons]
        rw [← ih n (by simpa using he), add_comm]
  rw [p.writer.payload]
  exact sum p.writer.tensors n he

variable {k : ℕ}

theorem committed_all (hct : committedCount plan w.sink = plan.terminalCount)
    (hb : k < plan.terminalCount) :
    (w.sink.records k).state = .committed := by
  have all := Finset.card_filter_eq_iff.mp (hct.trans (Finset.card_range _).symm)
  exact all k (Finset.mem_range.mpr hb)

theorem sizes_exact (hs : Sound plan sha w) (hct : committedCount plan w.sink = plan.terminalCount)
    (hen : ∑ k ∈ Finset.range plan.terminalCount,
      (received k w.history).length = plan.writer.tensorPayloadBytes) (k : ℕ) :
    (if k < plan.terminalCount then (received k w.history).length else 0) =
      (tensorAt plan k).rawBytes := by
  by_cases hbe : max plan.terminalCount plan.writer.tensors.length ≤ k
  · have out : ¬ k < plan.terminalCount := by omega
    have none : plan.writer.tensors[k]? = none := by
      apply getElem?_eq_none
      exact (le_max_right _ _).trans hbe
    rw [if_neg out, tensorAt, none]
    rfl
  · have hbw : ∀ p ∈ Finset.range (max plan.terminalCount plan.writer.tensors.length),
        (if p < plan.terminalCount then (received p w.history).length else 0) ≤
          (tensorAt plan p).rawBytes := by
      intro p _
      split_ifs with hb
      · have r := hs.rest p
        rw [AtRest, committed_all hct hb] at r
        exact r.1.1
      · exact zero_le _
    have t : ∑ p ∈ Finset.range (max plan.terminalCount plan.writer.tensors.length),
        (if p < plan.terminalCount then (received p w.history).length else 0) =
        ∑ p ∈ Finset.range (max plan.terminalCount plan.writer.tensors.length),
          (tensorAt plan p).rawBytes := by
      rw [← payload_sum plan _ (le_max_right _ _), ← hen, ← Finset.sum_filter]
      congr 1
      ext p
      simp only [Finset.mem_filter, Finset.mem_range]
      omega
    exact (Finset.sum_eq_sum_iff_of_le hbw).mp t k (Finset.mem_range.mpr (by omega))

theorem aborted_absent {history : List Entry} {s : TerminalState}
    (es : entriesOf k history = shape k (chunksOf k history) s) :
    Entry.aborted k ∉ history := by
  intro hm
  have hl : Entry.aborted k ∈ entriesOf k history := mem_filter.mpr ⟨hm, by simp [Entry.ordinal]⟩
  rw [es] at hl
  cases s <;> simp [shape] at hl

theorem passed_admitted (hs : Sound plan sha w) (hf : w.sink.failed = false)
    (hct : w.sink.summary.committedTerminals = plan.terminalCount)
    (hen : w.sink.summary.encodedBytesWritten = plan.writer.tensorPayloadBytes) :
    Passed plan w.sink w.history w.history := by
  have hl := hs.logged hf
  have all := hs.counted.symm.trans hct
  have s := sizes_exact hs all (hl.encoded.symm.trans hen)
  refine ⟨prefix_refl _, ⟨hl.clean, ?_⟩, ?_, ?_, ?_⟩
  · exact fun k => aborted_absent (hl.entries k)
  · intro k hb
    refine ⟨committed_all all hb, rfl, ?_⟩
    rw [hl.entries k, committed_all all hb]
    rfl
  · intro k hb
    have sz := s k
    rw [if_pos hb] at sz
    exact sz
  · intro k hbe
    have sz := s k
    rw [if_neg (not_lt.mpr hbe)] at sz
    have r := hs.rest k
    rw [AtRest, hs.bounded k hbe] at r
    exact ⟨sz.symm, r.1⟩

variable [DecidableEq Thread]

theorem sound_finalize (hs : Sound plan sha w) :
    Sound plan sha (w.apply th (sinkFinalize plan w.sink w.history)) := by
  unfold sinkFinalize
  split_ifs with d hi
  · exact sound_to hs trivial rfl
  · exact sound_poison hs trivial rfl
  push Not at hi
  obtain ⟨hf, hct, -, e⟩ := hi
  apply sound_to hs _ rfl
  refine ⟨passed_admitted hs (by simpa using hf) hct e, ?_⟩
  intro k h
  omega

variable {b : List Entry}

section Ends

variable (sound : Sound plan sha w)
include sound

theorem sound_padding (hph : w.threads th = .padding b k) :
    Sound plan sha (w.apply th (sinkPadding plan w.sink b k)) := by
  have hha := sound.hand th
  rw [hph] at hha
  obtain ⟨hp, hv⟩ := hha
  unfold sinkPadding
  split_ifs with hfn
  · apply sound_to sound _ rfl
    refine ⟨hp, ?_⟩
    rwa [min_eq_right hfn] at hv
  cases hf : plan.writer.tensors[k]? with
  | none => exact sound_to sound trivial rfl
  | some t =>
    have next : Visited plan (min (k + 1) plan.terminalCount) := by
      intro p hb
      by_cases hh : p = k
      · rw [hh, hf, tensorAt_some hf]
      · exact hv p (by omega)
    dsimp only
    split_ifs
    · exact sound_to sound trivial rfl
    · exact sound_to sound ⟨hp, next⟩ rfl
    · exact sound_to sound trivial rfl
    · exact sound_to sound ⟨hp, next⟩ rfl

theorem sound_zeros {d taken : ℕ} {t : WriterTensor} (hp : w.threads th = .filling b k d)
    (hf : plan.writer.tensors[k]? = some t)
    (fits : d + taken ≤ t.paddedBytes - t.rawBytes) :
    Sound plan sha (w.apply th
      { sink := w.sink.pwrite (t.absoluteEnd + d) (List.replicate taken 0)
        phase := .filling b k (d + taken)
        entries := []
        writes := [⟨k, true, t.absoluteEnd + d, taken⟩]
        complete := none }) := by
  have hha := sound.hand th
  rw [hp] at hha
  obtain ⟨hpa, hv⟩ := hha
  have bounds := laid_bounds plan.writer.laid hf
  have hap : ∀ {p q : ℕ}, Inside plan p q →
      q < t.absoluteEnd + d ∨ t.absoluteEnd + d + taken ≤ q := by
    intro p q hi
    have hos := laid_bounds plan.writer.laid (inside_found hi)
    have h1 := hi.1
    have last := hi.2
    rcases lt_trichotomy p k with hl | hs | m
    · have gap := laid_apart plan.writer.laid (inside_found hi) hf hl
      omega
    · have hh : tensorAt plan p = t := by rw [hs, tensorAt_some hf]
      rw [hh] at h1 last
      omega
    · have gap := laid_apart plan.writer.laid hf (inside_found hi) m
      omega
  have ht : Touches plan w.sink (w.sink.pwrite (t.absoluteEnd + d) (replicate taken 0)) w.history
      (w.history ++ []) none := by
    constructor
    · exact fun _ _ => rfl
    · exact fun _ _ => rfl
    · intro p _
      rw [append_nil]
    · intro p _ q hi
      apply writeAt_apart
      rw [length_replicate]
      exact hap hi
    · exact prefix_append _ _
    · rintro _ ⟨⟩
  refine sound.apply (?_ : Advances plan sha w th _ none)
  · constructor
    · rintro _ ⟨⟩
    · exact ht
    · rintro _ ⟨⟩
    · exact ⟨hpa.stays ht, hv⟩
    · rintro _ _ ⟨⟩
    · rintro _ ⟨⟩
    · obtain ⟨hstr, zero, size⟩ := sound.blank
      refine ⟨?_, ?_, ?_⟩
      · refine Eq.trans (contents_writeAt_apart ?_) hstr
        omega
      · intro q hbh ho
        simp only [FileSink.pwrite]
        by_cases hw : t.absoluteEnd + d ≤ q ∧ q < t.absoluteEnd + d + taken
        · obtain ⟨i, rfl⟩ := Nat.exists_eq_add_of_le hw.1
          have hi : i < (replicate taken (0 : UInt8)).length := by
            rw [length_replicate]
            omega
          rw [writeAt_inside hi, getElem_replicate]
        · rw [writeAt_apart (by rw [length_replicate]; omega)]
          exact zero q hbh ho
      · simp only [FileSink.pwrite, length_replicate]
        omega
    · intro hfi
      rw [append_nil]
      exact ⟨(sound.logged hfi).clean, (sound.logged hfi).live, (sound.logged hfi).entries,
        (sound.logged hfi).encoded⟩
    · exact sound.counted
    · intro write hm
      rw [mem_singleton.mp hm]
      refine ⟨t, hf, ?_⟩
      simp only [if_true]
      omega
    · rintro _ ⟨⟩

theorem sound_fill {d : ℕ} (hp : w.threads th = .filling b k d) (a : Answer) :
    Sound plan sha (w.apply th (sinkFill plan w.sink b k d a)) := by
  have hh := sound.hand th
  rw [hp] at hh
  unfold sinkFill
  cases hf : plan.writer.tensors[k]? with
  | none => exact sound_to sound trivial rfl
  | some t =>
    dsimp only
    split_ifs with m
    · cases ht : pwriteTake t.absoluteEnd (t.paddedBytes - t.rawBytes) d a with
      | none => exact sound_to sound trivial rfl
      | some take =>
        have fits := pwriteTake_le ht
        exact sound_zeros sound hp hf (by omega)
    · cases total : u64Add w.sink.summary.physicalWriteBytes (t.paddedBytes - t.rawBytes) with
      | none => exact sound_poison sound trivial rfl
      | some sum =>
        have hs := still_physical w.sink sum (.padding b (k + 1))
        exact sound.apply (hs.advances sound ⟨hh.1.stays hs.touches, hh.2⟩ (Or.inl rfl) nofun)

theorem sound_digest (hp : w.threads th = .digesting b) :
    Sound plan sha (w.apply th (sinkDigest plan sha w.sink b)) := by
  have hh := sound.hand th
  rw [hp] at hh
  unfold sinkDigest
  cases made : digestSinkFinalize plan.quant sha w.sink.digest with
  | none => exact sound_to sound trivial rfl
  | some dg =>
    have hst : ∀ next, Still w.sink (.to { w.sink with digest := dg } next) := by
      intro next
      constructor
      · rfl
      · exact finalize_records made
      · rfl
      · rfl
      · rfl
      · exact Or.inl rfl
      · exact fun hf => ⟨hf, rfl⟩
      · rfl
    dsimp only
    split_ifs
    · exact sound.apply ((hst .idle).advances sound trivial (Or.inl rfl) nofun)
    · exact sound.apply ((hst (.flushing b)).advances sound
        ⟨hh.1.stays (hst (.flushing b)).touches, hh.2⟩ (Or.inl rfl)
        nofun)

theorem sound_flush (hp : w.threads th = .flushing b) (a : Answer) :
    Sound plan sha (w.apply th (sinkFlush w.sink b a)) := by
  have hh := sound.hand th
  rw [hp] at hh
  cases a with
  | done => exact sound_to sound hh rfl
  | interrupted | wrote | refused => exact sound_to sound trivial rfl

theorem sound_stat (hp : w.threads th = .stating b) (a : Answer) :
    Sound plan sha (w.apply th (sinkStat plan w.sink b a)) := by
  have hh := sound.hand th
  rw [hp] at hh
  cases a with
  | done =>
    rw [sinkStat]
    split_ifs with hd
    · exact sound_to sound trivial rfl
    have hst : Still w.sink
        { sink := { w.sink with
            finalized := true
            summary := { w.sink.summary with
              executionIdentity := w.sink.digest.executionIdentity
              payloadByteIdentity := w.sink.digest.payloadByteIdentity } }
          phase := .idle
          entries := []
          writes := []
          complete := some b } := by
      constructor
      · rfl
      · rfl
      · rfl
      · rfl
      · rfl
      · exact Or.inl rfl
      · exact fun hf => ⟨hf, rfl⟩
      · rfl
    apply sound.apply (hst.advances sound trivial (Or.inl rfl) _)
    intro f hs
    cases hs
    exact hh
  | interrupted | wrote | refused => exact sound_to sound trivial rfl

end Ends

omit [DecidableEq Thread] in
theorem sound_start (plan : SinkPlan) (sha : Sha256) :
    Sound plan sha (World.start plan : World Thread) := by
  constructor
  · rintro _ _ _ ⟨⟩
  · rintro _ _ _ _ _ ⟨⟩
  · intro k _
    rfl
  · intro k
    exact ⟨rfl, rfl, Or.inr ⟨rfl, rfl⟩⟩
  · intro th
    trivial
  · refine ⟨?_, ?_, rfl⟩
    · exact contents_writeAt 0 plan.writer.prefixBytes
    · intro p hbh _
      have ho : 0 + plan.writer.prefixBytes.length ≤ p := by omega
      change writeAt (fun _ => 0) 0 plan.writer.prefixBytes p = 0
      rw [writeAt_apart (Or.inr ho)]
  · intro _
    refine ⟨?_, ?_, ?_, ?_⟩
    · rintro ⟨⟩
    · rintro _ ⟨⟩
    · intro k
      rfl
    · simp [World.start, fileSinkCreate, received, chunksOf]
  · simp [World.start, fileSinkCreate, committedCount]
  · rintro _ ⟨⟩
  · rintro _ ⟨⟩

theorem sound_step (hs : Sound plan sha w) (e : Event Thread) :
    Sound plan sha (step plan sha w e) := by
  cases e with
  | call th c =>
    cases ph : w.threads th with
    | idle =>
      simp only [step, ph]
      cases c with
      | begin de => exact sound_begin hs de
      | chunk de o bs => exact sound_chunk hs de o bs
      | commit de db => exact sound_commit hs de db
      | abort de => exact sound_abort hs de
      | finalize => exact sound_finalize hs
    | _ =>
      simp only [step, ph]
      exact hs
  | resume th a =>
    cases ph : w.threads th with simp only [step, ph]
    | idle => exact sound_to hs trivial rfl
    | beginning => exact sound_beginDigest hs ph
    | begun => exact sound_beginFinish hs ph
    | writing => exact sound_chunkWrite hs ph a
    | written => exact sound_chunkDigest hs ph
    | hashed => exact sound_chunkFinish hs ph
    | refusing => exact sound_refuse hs
    | committing => exact sound_commitDigest hs ph
    | settling => exact sound_commitFinish hs ph
    | aborting => exact sound_abortFinish hs ph
    | padding => exact sound_padding hs ph
    | filling => exact sound_fill hs ph a
    | digesting => exact sound_digest hs ph
    | flushing => exact sound_flush hs ph a
    | stating => exact sound_stat hs ph a

theorem sound_run (p : SinkPlan) (sha : Sha256) (es : List (Event Thread)) :
    Sound p sha (run (step p sha) (World.start p) es) :=
  run_invariant (P := Sound p sha) (fun _ e hs => sound_step hs e) (sound_start p sha) es

def artifactBytes (plan : SinkPlan) (history : List Entry) : List UInt8 :=
  plan.writer.prefixBytes ++ plan.writer.tensors.zipIdx.flatMap fun row =>
    received row.2 history ++ List.replicate (row.1.paddedBytes - row.1.rawBytes) 0

structure Complete (plan : SinkPlan) (sha : Sha256) (sink : FileSink)
    (history before : List Entry) : Prop where
  earlier : before <+: history
  clean : Entry.refused ∉ before ∧ ∀ ordinal, Entry.aborted ordinal ∉ before
  terminals : ∀ ordinal < plan.terminalCount, ∃ chunks : List (List UInt8), ∃ tensor,
    entriesOf ordinal before =
      .begun ordinal :: chunks.map (.delivered ordinal) ++ [.committed ordinal] ∧
    plan.writer.tensors[ordinal]? = some tensor ∧
    chunks.flatten.length = tensor.rawBytes ∧
    received ordinal before = chunks.flatten ∧
    Digested sha sink.digest ordinal chunks.flatten
  file : contents sink.bytes 0 sink.size = artifactBytes plan before

/-- The writes of a terminal stay in its interval, its padding behind it, and so away from
the structural bytes and from every other terminal. -/
structure Apart (plan : SinkPlan) (write : Write) : Prop where
  confined : Confined plan write
  structural : plan.writer.prefixBytes.length ≤ write.offset
  others : ∀ ordinal tensor, plan.writer.tensors[ordinal]? = some tensor →
    ordinal ≠ write.ordinal → write.offset + write.length ≤ tensor.absoluteOffset ∨
      tensor.absoluteOffset + tensor.paddedBytes ≤ write.offset

theorem contents_laid {sr : Store} {st final first : ℕ} {ts : List WriterTensor}
    {pc : WriterTensor × ℕ → List UInt8} (hld : Laid st ts final)
    (p : ∀ k t, ts[k]? = some t → contents sr t.absoluteOffset t.paddedBytes = pc (t, first + k)) :
    contents sr st (final - st) = (ts.zipIdx first).flatMap pc := by
  induction ts generalizing st first with
  | nil =>
    cases hld
    simp
  | cons t r ih =>
    obtain ⟨o, -, -, hl⟩ := hld
    have h := p 0 t rfl
    rw [o, add_zero] at h
    have s : final - st = t.paddedBytes + (final - (st + t.paddedBytes)) := by
      have := laid_le hl
      omega
    rw [s, contents_append, h, zipIdx_cons, flatMap_cons]
    congr 1
    apply ih hl
    intro k row hf
    rw [p (k + 1) row hf, add_assoc, add_comm 1]

omit [DecidableEq Thread] in
/-- Once the last check has passed, the file is made of the committed terminals. -/
theorem complete_passed (hsn : Sound plan sha w) (hp : Passed plan w.sink w.history b)
    (hv : Visited plan plan.terminalCount) :
    Complete plan sha w.sink w.history b := by
  have hse : ∀ k < plan.terminalCount, Stored plan w.sink k (received k b) ∧
      Digested sha w.sink.digest k (received k b) := by
    intro k hb
    obtain ⟨s, hs, -⟩ := hp.settled k hb
    have r := hsn.rest k
    rw [AtRest, s] at r
    rw [← hs]
    exact r
  refine ⟨hp.earlier, hp.clean, ?_, ?_⟩
  · intro k hb
    exact ⟨chunksOf k b, tensorAt plan k, (hp.settled k hb).2.2,
      hv k hb, hp.sizes k hb, rfl, (hse k hb).2⟩
  · obtain ⟨hstr, zero, size⟩ := hsn.blank
    have start := laid_le plan.writer.laid
    have hw : plan.writer.finalFileBytes = plan.writer.prefixBytes.length +
        (plan.writer.finalFileBytes - plan.writer.prefixBytes.length) := by
      omega
    rw [size, hw, contents_append, hstr, zero_add, artifactBytes]
    congr 1
    apply contents_laid plan.writer.laid
    intro k t hf
    have bounds := laid_bounds plan.writer.laid hf
    have hh := tensorAt_some hf
    have hsp : t.paddedBytes = t.rawBytes + (t.paddedBytes - t.rawBytes) := by omega
    rw [zero_add, hsp, contents_append]
    congr 1
    · by_cases hb : k < plan.terminalCount
      · have n := hp.sizes k hb
        have hst := (hse k hb).1.2
        rw [n, hh] at hst
        exact hst
      · obtain ⟨raw, hno⟩ := hp.others k (not_lt.mp hb)
        rw [hh] at raw
        rw [raw, hno]
        rfl
    · rw [Nat.add_sub_cancel_left]
      apply contents_const
      intro q h1 last
      apply zero q (by omega)
      intro p hi
      have hos := laid_bounds plan.writer.laid (inside_found hi)
      have low := hi.1
      have high := hi.2
      rcases lt_trichotomy p k with hl | hs | m
      · have gap := laid_apart plan.writer.laid (inside_found hi) hf hl
        omega
      · rw [hs, hh] at low high
        omega
      · have gap := laid_apart plan.writer.laid hf (inside_found hi) m
        omega

theorem apart_confined {wr : Write} (hc : Confined plan wr) : Apart plan wr := by
  obtain ⟨t, hf, hi⟩ := hc
  have bounds := laid_bounds plan.writer.laid hf
  have s : t.absoluteOffset ≤ wr.offset ∧
      wr.offset + wr.length ≤ t.absoluteOffset + t.paddedBytes := by
    split_ifs at hi <;> omega
  refine ⟨⟨t, hf, hi⟩, by omega, ?_⟩
  intro k ho hfn hdi
  rcases lt_or_gt_of_ne hdi with hl | m
  · have gap := laid_apart plan.writer.laid hfn hf hl
    omega
  · have gap := laid_apart plan.writer.laid hf hfn m
    omega

/-- In every interleaving the writes stay apart, and a session that finalizes has made the
artifact out of complete terminals. -/
theorem artifact_transaction (plan : SinkPlan) (sha : Sha256) (events : List (Event Thread)) :
    (∀ write ∈ (run (step plan sha) (World.start plan) events).writes, Apart plan write) ∧
    ∀ before, (run (step plan sha) (World.start plan) events).complete = some before →
      Complete plan sha (run (step plan sha) (World.start plan) events).sink
        (run (step plan sha) (World.start plan) events).history before := by
  have sound : Sound plan sha (run (step plan sha) (World.start plan) events) :=
    sound_run plan sha events
  constructor
  · intro write member
    exact apart_confined (sound.confined write member)
  · intro before found
    obtain ⟨passed, visited⟩ := sound.complete before found
    exact complete_passed sound passed visited

def pairPlan : SinkPlan where
  writer := ⟨⟨71 :: List.replicate 31 0, [⟨0, 32, 3, 32, 35, 64⟩, ⟨32, 64, 1, 32, 65, 96⟩], 4, 96⟩,
    ⟨rfl, rfl, by decide, rfl, rfl, by decide, rfl⟩, rfl⟩
  quant := ⟨[⟨0, 3, [], [some 3]⟩, ⟨0, 1, [], [some 1]⟩], [], []⟩
  requiredExecutionIdentity := []

-- two threads deliver a terminal each, the first one in two chunks and several writes
def pairEvents : List (Event Bool) :=
  [.call true (.begin (.planned 0)), .resume true .done, .call false (.begin (.planned 1)),
    .resume true .done, .resume false .done, .resume false .done,
    .call true (.chunk (.planned 0) 0 [7, 8]), .resume true .interrupted,
    .call false (.chunk (.planned 1) 0 [5]), .resume true (.wrote 1), .resume false (.wrote 1),
    .resume true (.wrote 1), .resume false .done, .resume true .done, .resume true .done,
    .resume false .done, .resume true .done, .resume false .done,
    .call true (.chunk (.planned 0) 2 [9]), .resume true (.wrote 1), .resume true .done,
    .resume true .done, .resume true .done, .call false (.commit (.planned 1) 1),
    .call true (.commit (.planned 0) 3), .resume false .done, .resume true .done,
    .resume false .done, .resume true .done, .call true .finalize, .resume true .done,
    .resume true (.wrote 28), .resume true (.wrote 1), .resume true .done, .resume true .done,
    .resume true (.wrote 31), .resume true .done, .resume true .done, .resume true .done,
    .resume true .done, .resume true .done]

theorem artifact_transaction_pair :
    ∃ before, (run (step pairPlan fixedDigest) (World.start pairPlan) pairEvents).complete =
        some before ∧
      before = [.begun 0, .begun 1, .delivered 0 [7, 8], .delivered 1 [5], .delivered 0 [9],
        .committed 1, .committed 0] ∧
      Complete pairPlan fixedDigest
        (run (step pairPlan fixedDigest) (World.start pairPlan) pairEvents).sink
        (run (step pairPlan fixedDigest) (World.start pairPlan) pairEvents).history before := by
  have reached : (run (step pairPlan fixedDigest) (World.start pairPlan) pairEvents).complete =
      some [.begun 0, .begun 1, .delivered 0 [7, 8], .delivered 1 [5], .delivered 0 [9],
        .committed 1, .committed 0] := by
    decide +kernel
  exact ⟨_, reached, rfl, (artifact_transaction pairPlan fixedDigest pairEvents).2 _ reached⟩

end Yvex.ArtifactTransaction
