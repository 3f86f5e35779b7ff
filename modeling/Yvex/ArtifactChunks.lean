import Yvex.ArtifactSections

/-!
# Chunks, commits and aborts of the artifact sink

A chunk is written behind the bytes received so far and then hashed; a commit settles
the terminal in both sinks; an abort ends it unless it is settled.
-/

set_option autoImplicit false

namespace Yvex.ArtifactChunks

open AttentionData ByteRegions CheckedArithmetic QuantSink WriterLayout ArtifactSink List Move
  ArtifactTerminals ArtifactRuns ArtifactSections FileSink

variable {Thread : Type} [DecidableEq Thread] {plan : SinkPlan} {sha : Sha256}
  {w : World Thread} {t : Thread}

theorem sound_chunk (hs : Sound plan sha w) (dec : DecisionArg) (off : ℕ) (bs : List UInt8) :
    Sound plan sha (w.apply t (sinkChunk plan w.sink dec off bs)) := by
  cases dec with
  | null | foreign => exact sound_refuse hs
  | planned k =>
    rw [sinkChunk]
    split_ifs with hm
    · exact sound_refuse hs
    push Not at hm
    obtain ⟨-, hb⟩ := hm
    cases hf : plan.writer.tensors[k]? with
    | none => exact sound_refuse hs
    | some =>
      dsimp only
      split_ifs with hr
      · exact sound_refuse hs
      push Not at hr
      obtain ⟨-, hi, -, fine, -, s, o, -⟩ := hr
      have r := hs.rest k
      rw [AtRest, s] at r
      refine sound_enter hs hb (by simpa using fine) (.inr ⟨s, .inl rfl⟩) rfl ?_
      refine ⟨⟨?_, ?_, ?_, Nat.zero_le _⟩, fun _ => ⟨?_, ?_, ?_, ?_⟩⟩
      · rw [tensorAt_some hf, hf]
      · rw [tensorAt_some hf]
      · rw [tensorAt_some hf]
        exact hi
      · rw [o]
        exact r.1
      · simpa using r.1
      · rw [take_zero, append_nil]
        exact r.2.1
      · rw [append_nil]
        exact r.2.2

theorem pwriteTake_le {o n d taken : ℕ} {a : Answer}
    (hh : pwriteTake o n d a = some taken) : taken ≤ n - d := by
  unfold pwriteTake at hh
  split_ifs at hh
  cases a with
  | interrupted =>
    cases hh
    exact Nat.zero_le _
  | wrote =>
    dsimp only at hh
    split_ifs at hh
    cases hh
    exact (min_le_right _ _).trans (min_le_left _ _)
  | done => cases hh
  | refused => cases hh

variable {bs : List UInt8} {off : ℕ}

/-- A positioned write stays inside the chunk that its thread delivers. -/
theorem sound_store (hs : Sound plan sha w) {k fo d taken : ℕ}
    (ph : w.threads t = .writing k off fo bs d) (fits : taken ≤ bs.length - d) :
    Sound plan sha (w.apply t
      { sink := w.sink.pwrite (fo + d) ((bs.drop d).take taken)
        phase := .writing k off fo bs (d + taken)
        entries := []
        writes := [⟨k, false, fo + d, taken⟩]
        complete := none }) := by
  have hh : Phase.holds (w.threads t) = some (k, .chunking) := by
    rw [ph]
    rfl
  have hha := hs.hand t
  rw [ph] at hha
  obtain ⟨⟨hf, o, hi, pr⟩, hfc⟩ := hha
  have bounds := laid_bounds plan.writer.laid hf
  have n : ((bs.drop d).take taken).length = taken := by
    rw [length_take, length_drop]
    omega
  refine Works.sound (?_ : Works plan w t _ k) hs ?_ ?_ ?_ ?_
  · constructor
    · exact (hs.own t k _ hh).1
    · exact fun _ _ => rfl
    · exact fun _ _ => rfl
    · intro plan ho
      apply writeAt_apart
      unfold Inside at ho
      omega
    · have size := hs.blank.size
      simp only [pwrite, n]
      omega
    · exact own_nil k
    · exact hs.busy hh
    · exact hs.alone hh
    · intro p s hhe
      cases hhe
      exact ⟨rfl, (hs.own t k _ hh).2⟩
    · intro write hm
      rw [mem_singleton.mp hm]
      refine ⟨tensorAt plan k, hf, ?_⟩
      simp only [Bool.false_eq_true, if_false]
      omega
    · rfl
  · exact hs.at_work hh rfl
  · simp only [InHand, append_nil]
    refine ⟨⟨hf, o, hi, by omega⟩, ?_⟩
    intro s
    obtain ⟨st, hdl, hst, ht⟩ := hfc s
    refine ⟨st, hdl, ?_, ht⟩
    have join : received k w.history ++ bs.take (d + taken) =
        (received k w.history ++ bs.take d) ++ (bs.drop d).take taken := by
      rw [append_assoc, ← take_add]
    have hhe : (received k w.history ++ bs.take d).length = off + d := by
      rw [length_append, length_take, st]
      omega
    have plan : fo + d = (tensorAt plan k).absoluteOffset +
        (received k w.history ++ bs.take d).length := by
      omega
    rw [join]
    constructor
    · rw [length_append, hhe, n]
      omega
    · rw [length_append]
      simp only [pwrite]
      rw [plan, contents_extend, hst.2]
  · exact logs_same hs rfl rfl rfl rfl
  · exact hs.counted

theorem sound_chunkWrite (snd : Sound plan sha w) {k fo d : ℕ}
    (ph : w.threads t = .writing k off fo bs d) (a : Answer) :
    Sound plan sha (w.apply t (sinkChunkWrite w.sink k off fo bs d a)) := by
  unfold sinkChunkWrite
  split_ifs with m
  · cases htk : pwriteTake fo bs.length d a with
    | none => exact sound_to snd trivial rfl
    | some => exact sound_store snd ph (pwriteTake_le htk)
  have hh := snd.hand t
  rw [ph] at hh
  have hw : bs.take d = bs := take_of_length_le (Nat.not_lt.mp m)
  cases total : u64Add w.sink.summary.physicalWriteBytes bs.length with
  | none => exact sound_poison snd trivial rfl
  | some sum =>
    have hs := still_physical w.sink sum (.written k off bs)
    apply snd.apply (hs.advances snd _ (.inr (by rw [ph]; rfl)) nofun)
    simp only [InHand, Move.to, append_nil]
    intro s
    obtain ⟨-, hdl, hst, ht⟩ := hh.2 s
    rw [hw] at hst
    exact ⟨hdl, hst, ht⟩

theorem sound_chunkDigest (snd : Sound plan sha w) {k : ℕ}
    (ph : w.threads t = .written k off bs) : Sound plan sha
      (w.apply t (sinkChunkDigest plan w.sink k off bs)) := by
  have hh := snd.hand t
  rw [ph] at hh
  refine sound_digest snd (by rw [ph]; rfl) (fun _ ha => digestChunk_apart ha) ?_ ?_
  · split_ifs
    · exact .inl rfl
    · exact .inr rfl
  · split_ifs with hr
    · trivial
    intro s
    obtain ⟨hdl, hst, ht⟩ := hh s
    refine ⟨hdl, hst, ?_⟩
    rw [append_nil] at ht
    exact digestChunk_accepts ht (by simpa using hr)

variable {sink : FileSink} {k : ℕ} {s : TerminalState}

section Chunks

variable (snd : Sound plan sha w)
include snd

theorem sound_spoiled (hh : Phase.holds (w.threads t) = some (k, s))
    (hr : ∀ p, p ≠ k → sink.records p = w.sink.records p)
    (hs : (sink.records k).state = (w.sink.records k).state)
    (digest : sink.digest = w.sink.digest) (bs : sink.bytes = w.sink.bytes)
    (size : sink.size = w.sink.size)
    (hcm : sink.summary.committedTerminals = w.sink.summary.committedTerminals) :
    Sound plan sha (w.apply t sink.refuse) := by
  refine sound_returns snd hh hr digest bs size (.inr rfl) ?_ ?_ ?_
  · exact snd.at_work hh hs
  · nofun
  · change sink.summary.committedTerminals = committedCount plan sink
    rw [hcm, snd.counted]
    exact (counted_state hr (snd.busy hh) (by rw [hs]; exact snd.busy hh)).symm

theorem sound_chunkFinish (ph : w.threads t = .hashed k bs) :
    Sound plan sha (w.apply t (sinkChunkFinish w.sink k bs)) := by
  have hh : Phase.holds (w.threads t) = some (k, .chunking) := by
    rw [ph]
    rfl
  have ho : ∀ r p, p ≠ k → (w.sink.setRecord k r).records p = w.sink.records p :=
    fun r _ ha => recordSet_other _ r ha
  dsimp only [sinkChunkFinish]
  split
  · exact sound_refuse snd
  next hmv =>
  have s : (w.sink.records k).state = .chunking := not_not.mp hmv
  cases sum : u64Add (w.sink.records k).deliveredBytes bs.length with
  | none => exact sound_refuse snd
  | some hd =>
    dsimp only
    split
    · exact sound_spoiled snd hh (ho _) (by simp) rfl rfl rfl rfl
    cases tt : u64Add w.sink.summary.encodedBytesWritten bs.length with
    | none => exact sound_spoiled snd hh (ho _) (by simp) rfl rfl rfl rfl
    | some e =>
      dsimp only
      split
      · exact sound_spoiled snd hh (ho _) (by simp) rfl rfl rfl rfl
      obtain ⟨-, rfl⟩ := (u64Add_eq_some _ _ _).mp sum
      obtain ⟨-, rfl⟩ := (u64Add_eq_some _ _ _).mp tt
      have hha := snd.hand t
      rw [ph] at hha
      obtain ⟨b, hst, ht⟩ := hha s
      refine sound_returns snd hh (ho _) rfl rfl rfl (.inl rfl) ?_ ?_ ?_
      · simp only [AtRest, recordSet_same, received_delivered]
        refine ⟨?_, hst, ht⟩
        rw [b, length_append]
      · intro hf
        constructor
        · exact hf
        · simp [returns]
        · simp [returns]
        · intro es
          simp only [returns, recordSet_same]
          rw [entriesOf_same _ rfl, es, s, chunksOf_delivered]
          simp [shape]
        · simp only [returns, received_delivered, length_append]
          omega
      · refine snd.counted.trans (counted_state (ho _) (snd.busy hh) ?_).symm
        simp

theorem sound_commit (decision : DecisionArg) (db : ℕ) :
    Sound plan sha (w.apply t (sinkCommit plan w.sink decision db)) := by
  cases decision with
  | null | foreign => exact sound_refuse snd
  | planned k =>
    rw [sinkCommit]
    cases hp : plan.quant.decisions[k]? with
    | none => exact sound_refuse snd
    | some decision =>
      dsimp only
      cases ha : terminalSourceAccount decision.inputs with
      | none => exact sound_refuse snd
      | some sr =>
        split_ifs with hr
        · exact sound_to snd trivial rfl
        push Not at hr
        obtain ⟨hf, -, s, -, -⟩ := hr
        have hb : k < plan.terminalCount := (List.getElem?_eq_some_iff.mp hp).1
        have r := snd.rest k
        rw [AtRest, s] at r
        exact sound_enter snd hb (by simpa using hf) (.inr ⟨s, .inr rfl⟩) rfl fun _ => r.2

theorem sound_commitDigest {db rgs so : ℕ} (ph : w.threads t = .committing k db rgs so) :
    Sound plan sha (w.apply t (sinkCommitDigest plan sha w.sink k db rgs so)) := by
  have hh := snd.hand t
  rw [ph] at hh
  refine sound_digest snd (by rw [ph]; rfl) (fun _ ha => digestCommit_apart ha) ?_ ?_
  · split_ifs
    · exact .inl rfl
    · exact .inr rfl
  · split_ifs with hr
    · trivial
    · intro s
      obtain ⟨hst, ht⟩ := hh s
      exact ⟨hst, digestCommit_accepts ht (by simpa using hr)⟩

/-- The terminal joins the committed ones. -/
theorem sound_commitFinish {rgs so : ℕ}
    (ph : w.threads t = .settling k rgs so) : Sound plan sha
      (w.apply t (sinkCommitFinish w.sink k rgs so)) := by
  have hh : Phase.holds (w.threads t) = some (k, .committing) := by
    rw [ph]
    rfl
  unfold sinkCommitFinish
  split_ifs with hmv
  · exact sound_refuse snd
  have s : (w.sink.records k).state = .committing := not_not.mp hmv
  cases first : u64Add w.sink.summary.sourceRangesCommitted rgs with
  | none => exact sound_refuse snd
  | some =>
    cases second : u64Add w.sink.summary.sourceBytesCommitted so with
    | none => exact sound_spoiled snd hh (fun _ _ => rfl) rfl rfl rfl rfl rfl
    | some =>
      have hha := snd.hand t
      rw [ph] at hha
      obtain ⟨hst, hd⟩ := hha s
      have hb := (snd.own t k _ hh).1
      have ha : ∀ p, p ≠ k → (w.sink.setState k .committed).records p =
            w.sink.records p := fun _ ha => setState_other ha
      have hs : chunksOf k (w.history ++ [.committed k]) =
          chunksOf k w.history := by
        simp [chunksOf, filterMap_append, Entry.chunk]
      refine sound_returns snd hh ha rfl rfl rfl (.inl rfl) ?_ ?_ ?_
      · simp only [AtRest, setState_same, received, hs]
        exact ⟨hst, hd⟩
      · intro hf
        constructor
        · exact hf
        · simp [returns]
        · simp [returns]
        · intro es
          simp only [returns, setState_same]
          rw [entriesOf_same _ rfl, es, s, hs]
          rfl
        · simp only [returns, received, hs]
      · rw [snd.counted]
        have hj : (Finset.range plan.terminalCount).filter (fun p =>
            ((w.sink.setState k .committed).records p).state = .committed) =
            insert k ((Finset.range plan.terminalCount).filter fun p =>
              (w.sink.records p).state = .committed) := by
          ext p
          by_cases hhe : p = k
          · subst hhe
            simp [hb]
          · simp [ha p hhe, hhe]
        have hfr : k ∉ (Finset.range plan.terminalCount).filter fun p =>
            (w.sink.records p).state = .committed := by
          simp [s]
        change _ = ((Finset.range plan.terminalCount).filter _).card
        rw [hj, Finset.card_insert_of_notMem hfr]
        rfl

end Chunks

variable {history : List Entry}

theorem rest_abort (h : AtRest plan sha sink history k) (p : ℕ) :
    AtRest plan sha { sink with digest := digestAbort plan.quant sink.digest p } history
      k := by
  unfold AtRest at h ⊢
  cases s : (sink.records k).state with
  | empty | active =>
    simp only [s] at h ⊢
    exact ⟨h.1, h.2.1, h.2.2.abort p⟩
  | committed =>
    simp only [s] at h ⊢
    exact ⟨h.1, h.2.abort p⟩
  | beginning | chunking | committing | aborted => simp only

theorem hand_abort {phase : Phase} (h : InHand plan sha sink history phase)
    (hh : Phase.holds phase = some (k, s)) (p : ℕ) :
    InHand plan sha { sink with digest := digestAbort plan.quant sink.digest p } history
      phase := by
  cases phase with
  | beginning =>
    intro s
    obtain ⟨hno, hdl, hut⟩ := h s
    exact ⟨hno, hdl, hut.abort p⟩
  | begun =>
    intro s accepted
    obtain ⟨hno, hdl, ht⟩ := h s accepted
    exact ⟨hno, hdl, ht.abort p⟩
  | writing =>
    refine ⟨h.1, fun s => ?_⟩
    obtain ⟨start, hdl, hst, ht⟩ := h.2 s
    exact ⟨start, hdl, hst, ht.abort p⟩
  | written k off bs | hashed k bs =>
    intro s
    obtain ⟨hdl, hst, ht⟩ := h s
    exact ⟨hdl, hst, ht.abort p⟩
  | committing k db rgs so | settling k rgs so =>
    intro s
    obtain ⟨hst, ht⟩ := h s
    exact ⟨hst, ht.abort p⟩
  | _ => cases hh

theorem sound_abort (snd : Sound plan sha w) (dec : DecisionArg) :
    Sound plan sha (w.apply t (sinkAbort plan w.sink dec)) := by
  cases dec with
  | null | foreign => exact sound_refuse snd
  | planned k =>
    rw [sinkAbort]
    split_ifs with hb
    · exact sound_refuse snd
    refine snd.apply (?_ : Advances plan sha w t _ (some k))
    · constructor
      · intro p hs
        cases hs
        exact Nat.not_le.mp hb
      · constructor
        · exact fun _ _ => rfl
        · exact fun p ha => digestAbort_apart fun hs => ha (congrArg some hs.symm)
        · simp [Move.to]
        · exact fun _ _ _ _ => rfl
        · exact prefix_append _ _
        · intro p _ s
          exact ⟨s, by simp [Move.to]⟩
      · intro p _
        change AtRest plan sha _ (w.history ++ []) p
        rw [append_nil]
        exact rest_abort (snd.rest p) k
      · exact Nat.not_le.mp hb
      · rintro _ _ ⟨⟩
      · intro p _ ho _ s hh
        refine ⟨?_, .inl rfl⟩
        change InHand plan sha _ (w.history ++ []) (w.threads ho)
        rw [append_nil]
        exact hand_abort (snd.hand ho) hh k
      · exact ⟨snd.blank.structural, snd.blank.zero, snd.blank.size⟩
      · intro hf
        change Logged plan _ (w.history ++ [])
        rw [append_nil]
        exact ⟨(snd.logged hf).clean, (snd.logged hf).live, (snd.logged hf).entries,
          (snd.logged hf).encoded⟩
      · exact snd.counted
      · rintro _ ⟨⟩
      · rintro _ ⟨⟩

theorem sound_abortFinish (snd : Sound plan sha w) (ph : w.threads t = .aborting k) :
    Sound plan sha (w.apply t (sinkAbortFinish w.sink k)) := by
  have hb : k < plan.terminalCount := by
    have hha := snd.hand t
    rw [ph] at hha
    exact hha
  have none : ∀ p, chunksOf p (w.history ++ [.aborted k]) = chunksOf p w.history := by
    simp [chunksOf, filterMap_append, Entry.chunk]
  unfold sinkAbortFinish
  dsimp only
  split_ifs with hac
  · have st : ∀ p, p ≠ k → (w.sink.setState k .aborted).records p = w.sink.records p :=
      fun _ ha => setState_other ha
    refine snd.apply (?_ : Advances plan sha w t _ (some k))
    · constructor
      · intro p hs
        cases hs
        exact hb
      · constructor
        · exact fun p ha => st p fun hs => ha (congrArg some hs.symm)
        · exact fun _ _ => rfl
        · intro p _
          exact congrArg flatten (none p)
        · exact fun _ _ _ _ => rfl
        · exact prefix_append _ _
        · intro p hs s
          cases hs
          exact absurd s hac.2
      · intro p hs
        cases hs
        simp [AtRest, returns, poison, abortTerminal]
      · trivial
      · rintro _ _ ⟨⟩
      · intro p hs ho _ s hh
        cases hs
        have hg : (((w.sink.abortTerminal k).poison).records k).state =
            .aborted := by
          simp [poison, abortTerminal]
        exact ⟨(snd.hand ho).gone hh hg, .inr hg⟩
      · exact ⟨snd.blank.structural, snd.blank.zero, snd.blank.size⟩
      · rintro ⟨⟩
      · refine snd.counted.trans (counted_state st ?_ ?_).symm
        · exact hac.2
        · simp
      · rintro _ ⟨⟩
      · rintro _ ⟨⟩
  · refine snd.apply ((still_failed w.sink .idle fun _ => rfl).advances snd trivial (.inl rfl) ?_)
    rintro _ ⟨⟩

end Yvex.ArtifactChunks
