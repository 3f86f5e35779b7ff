import Yvex.GenerationTurn

/-!
# The accounts of a turn

The records, the counters, the text and the position of the persistent state agree in
every state a turn reaches, as long as no call fails between a move of the persistent state
and the mark of its token. How the work is split into budgets does not matter.
-/

set_option autoImplicit false

namespace Yvex.TurnAccounting

open AttentionData ByteRegions GenerationTurn RefusableStep SpeculativeAcceptance Outcome TurnState
  Ensures List

variable {plan : TurnPlan} {a : StepAnswers} {st : ℕ} {s : TurnState}

def publishedText (tokens : List TokenResult) : List UInt8 :=
  (tokens.filter (·.textPublished)).flatMap (·.fragment)

structure Accounted (plan : TurnPlan) (start : ℕ) (s : TurnState) : Prop where
  room : s.tokens.length + s.staged.length ≤ plan.maximumNewTokens
  ordinals : s.tokens.map (·.ordinal) = List.range s.tokens.length
  text : contents s.text 0 s.generatedTextBytes = publishedText s.tokens
  moved : s.position = start + s.modelCommittedTokenCount
  marked : s.modelCommittedTokenCount = s.tokens.countP (·.modelCommitted)

structure Settled (plan : TurnPlan) (start : ℕ) (s : TurnState) : Prop
    extends Accounted plan start s where
  committed : ∀ token ∈ s.tokens, token.modelCommitted = true
  idle : s.staged = []

structure Reports (answers : StepAnswers) : Prop where
  -- No call fails between a move of the persistent state and the mark of its token.
  decode : ∀ status, answers.decode ≠ .lost status
  accounted : answers.decode = .done → answers.accounted = none
  commit : ∀ status, answers.commit ≠ .lost status

variable {b : List TokenResult} {r : TokenResult}

theorem last_tokens (hsp : s.tokens = b ++ [r]) (c : TokenResult → TokenResult) :
    (s.last c).tokens = b ++ [c r] := by
  simp [last, hsp]

theorem Accounted.last (ha : Accounted plan st s)
    (hh : s.tokens = b ++ [r]) {c : TokenResult → TokenResult}
    (k : (c r).ordinal = r.ordinal)
    (mark : (c r).modelCommitted = r.modelCommitted)
    (ht : publishedText [c r] = publishedText [r]) :
    Accounted plan st (s.last c) := by
  have ts := last_tokens hh c
  have hs : publishedText (b ++ [c r]) = publishedText (b ++ [r]) := by
    simp only [publishedText, filter_append, flatMap_append] at ht ⊢
    rw [ht]
  constructor
  · simpa [ts, hh, TurnState.last] using ha.room
  · simpa [ts, hh, k] using ha.ordinals
  · rw [ts, hs, ← hh]
    exact ha.text
  · exact ha.moved
  · rw [ts]
    refine ha.marked.trans ?_
    simp [hh, countP_append, countP_cons, mark]

theorem Settled.count (stl : Settled plan st s) : s.modelCommittedTokenCount = s.tokens.length := by
  rw [stl.marked, countP_eq_length]
  exact stl.committed

structure Working (plan : TurnPlan) (start : ℕ) (before : List TokenResult)
    (record : TokenResult) (s : TurnState) : Prop extends Accounted plan start s where
  split : s.tokens = before ++ [record]
  committed : ∀ token ∈ before, token.modelCommitted = true
  idle : s.staged = []
  unpublished : record.textPublished = false

theorem Settled.sample (hs : Settled plan st s)
    (room : s.tokens.length < plan.maximumNewTokens) (t : ℕ) :
    ∃ r, r.modelCommitted = false ∧ Working plan st s.tokens r (s.sampleToken t) := by
  refine ⟨_, rfl, ⟨?_, ?_, ?_, hs.moved, ?_⟩, rfl, hs.committed, hs.idle, rfl⟩
  · simp only [sampleToken, length_append, length_singleton, hs.idle, length_nil]
    omega
  · simp [sampleToken, hs.ordinals, range_succ]
  · simpa [sampleToken, publishedText] using hs.text
  · simpa [sampleToken, countP_append, countP_cons] using hs.marked

section Work

variable (wk : Working plan st b r s)
include wk

theorem Working.commit (mark : r.modelCommitted = false) :
    ∃ r', r'.modelCommitted = true ∧ Working plan st b r' s.commitToken := by
  have ts := last_tokens wk.split fun t =>
    { t with modelCommitted := true, positionAfter := s.position + 1 }
  have hm := wk.marked
  have o := wk.ordinals
  have te := wk.text
  have hr := wk.room
  rw [wk.split] at hm o te hr
  refine ⟨_, rfl, ⟨?_, ?_, ?_, ?_, ?_⟩, ts, wk.committed, wk.idle, wk.unpublished⟩
  · rw [show s.commitToken.tokens = _ from ts]
    simpa [commitToken, last] using hr
  · rw [show s.commitToken.tokens = _ from ts]
    simpa using o
  · rw [show s.commitToken.tokens = _ from ts]
    refine Eq.trans te ?_
    simp [publishedText, wk.unpublished]
  · have hmv := wk.moved
    simp only [commitToken]
    omega
  · rw [show s.commitToken.tokens = _ from ts]
    simp only [commitToken]
    rw [hm]
    simp [countP_append, mark]

theorem Working.detokenize (f : List UInt8) (sup : Bool) :
    ∃ r', r'.modelCommitted = r.modelCommitted ∧ r'.fragment = f ∧
      Working plan st b r' (s.detokenize f sup) := by
  refine ⟨{ r with
      detokenized := true
      suppressed := sup
      textByteOffset := s.generatedTextBytes
      fragment := f }, rfl, rfl, wk.toAccounted.last wk.split rfl rfl ?_,
    last_tokens wk.split _, wk.committed, wk.idle, wk.unpublished⟩
  simp [publishedText, wk.unpublished]

theorem Working.copyText (f : List UInt8) : Working plan st b r (s.copyText f) := by
  refine ⟨⟨wk.room, wk.ordinals, ?_, wk.moved, wk.marked⟩, wk.split,
    wk.committed, wk.idle, wk.unpublished⟩
  refine Eq.trans ?_ wk.text
  exact contents_writeAt_apart (Or.inl (by simp [TurnState.copyText]))

theorem Working.publishText (hma : r.modelCommitted = true) {f : List UInt8} (sup : Bool)
    (hk : r.fragment = f)
    (hcp : contents s.text s.generatedTextBytes f.length = f) :
    Settled plan st (s.publishText f sup) := by
  have ts : (s.publishText f sup).tokens =
      b ++ [{ r with textPublished := true }] := last_tokens wk.split _
  have hmr := wk.marked
  have o := wk.ordinals
  have te := wk.text
  have hr := wk.room
  rw [wk.split] at hmr o te hr
  refine ⟨⟨?_, ?_, ?_, wk.moved, ?_⟩, ?_, wk.idle⟩
  · rw [ts]
    simpa [TurnState.publishText, TurnState.last] using hr
  · rw [ts]
    simpa using o
  · have n : (s.publishText f sup).generatedTextBytes = s.generatedTextBytes + f.length := rfl
    rw [ts, n, contents_append]
    refine Eq.trans (congrArg₂ (· ++ ·) te (Eq.trans ?_ hcp)) ?_
    · rw [Nat.zero_add]
      rfl
    · simp [publishedText, wk.unpublished, hk]
  · rw [ts]
    refine hmr.trans ?_
    simp [countP_append, hma]
  · intro t hm
    rw [ts] at hm
    rcases mem_append.mp hm with hm | hm
    · exact wk.committed t hm
    · rw [mem_singleton.mp hm]
      exact hma

end Work

def Rested (plan : TurnPlan) (start : ℕ) (s : TurnState) : Prop :=
  Accounted plan start s ∧ (s.stopReason = none → Settled plan start s)

theorem Settled.rested (stl : Settled plan st s) : Rested plan st s :=
  ⟨stl.toAccounted, fun _ => stl⟩

theorem Accounted.stopped (ha : Accounted plan st s) (rn : StopReason) :
    Rested plan st (s.stopped rn) :=
  ⟨⟨ha.room, ha.ordinals, ha.text, ha.moved, ha.marked⟩, nofun⟩

theorem Working.terminate (wk : Working plan st b r s)
    (k : Classification) : Rested plan st (s.terminate k) := by
  have ha : Accounted plan st (s.last fun r => { r with
      terminal := true
      suppressed := k.suppressedByDefault }) :=
    wk.toAccounted.last wk.split rfl rfl (by simp [publishedText, wk.unpublished])
  exact ⟨⟨ha.room, ha.ordinals, ha.text, ha.moved, ha.marked⟩, nofun⟩

theorem ensures_check {g bad : TurnState → Prop} (an : Option Status) (hh : g s)
    (hw : bad s) : (check an s).Ensures g bad := by
  cases an with
  | none => exact hh
  | some => exact hw

theorem terminal_ensures (wk : Working plan st b r s) (t : ℕ) :
    (terminalToken plan a t s).Ensures (Rested plan st) (Accounted plan st) := by
  have hr := wk.terminate (plan.classify t)
  unfold terminalToken
  split_ifs
  · exact hr.1
  · exact ensures_check _ hr hr.1

theorem publishOrdinary_ensures (wk : Working plan st b r s)
    (mark : r.modelCommitted = true) (t : ℕ) :
    (publishOrdinary plan a t s).Ensures (Settled plan st) (Accounted plan st) := by
  unfold publishOrdinary
  cases a.push t with
  | error => exact wk.toAccounted
  | ok p =>
    obtain ⟨f, sup⟩ := p
    obtain ⟨r', hm', hk, next⟩ := wk.detokenize f sup
    rw [mark] at hm'
    dsimp only
    split_ifs
    · exact next.toAccounted
    apply check next.toAccounted
    have hcp := next.copyText f
    apply check hcp.toAccounted
    have stl := hcp.publishText hm' sup hk (contents_writeAt ..)
    exact ensures_check _ stl stl.toAccounted

theorem commitOrdinary_ensures (wk : Working plan st b r s)
    (mark : r.modelCommitted = false) (hr : Reports a) (t : ℕ) :
    (commitOrdinary plan a t s).Ensures (Settled plan st) (Accounted plan st) := by
  apply check wk.toAccounted
  cases hd : a.decode with
  | refused => exact wk.toAccounted
  | lost sta => exact absurd hd (hr.decode sta)
  | done =>
    rw [hr.accounted hd]
    obtain ⟨r', hm', next⟩ := wk.commit mark
    exact check next.toAccounted (publishOrdinary_ensures next hm' t)

theorem deliver_ensures (stl : Settled plan st s) (i : ℕ) :
    (deliver a i s).Ensures (Settled plan st) (Accounted plan st) := by
  unfold deliver
  cases a.sink i with
  | none => exact stl
  | some => exact (stl.toAccounted.stopped .outputFailure).1

theorem forEach_ensures {ι : Type} {g bad : TurnState → Prop}
    {f : ι → TurnState → Outcome Status TurnState}
    (each : ∀ it s, g s → (f it s).Ensures g bad) (i : List ι) (hh : g s) :
    (forEach f i s).Ensures g bad := by
  induction i generalizing s with
  | nil => exact hh
  | cons it rest ih => exact andThen (each it s hh) fun s hh => ih hh

theorem targetStep_ensures (hs : Settled plan st s) (hr : Reports a) :
    (targetStep plan a s).Ensures (Rested plan st) (Accounted plan st) := by
  unfold targetStep
  split
  · exact hs.toAccounted.stopped _
  next hf =>
  apply check hs.toAccounted
  split_ifs
  · exact hs.toAccounted.stopped _
  apply check hs.toAccounted
  cases a.sample with
  | error => exact hs.toAccounted
  | ok t =>
    have room : s.tokens.length < plan.maximumNewTokens := by
      have hb := hs.room
      rw [hs.count] at hf
      omega
    obtain ⟨r, mark, wk⟩ := hs.sample room t
    apply check wk.toAccounted
    split_ifs
    · exact terminal_ensures wk t
    apply andThen (commitOrdinary_ensures wk mark hr t)
    intro s hs
    have hdl : (deliver a 0 s).Ensures (Settled plan st) (Accounted plan st) :=
      deliver_ensures hs 0
    exact hdl.imp (fun _ => Settled.rested) fun _ ha => ha

def StagedFrom (s : TurnState) (count : ℕ) (after : TurnState) : Prop :=
  ∃ rows : List StagedToken, after = { s with staged := s.staged ++ rows } ∧ rows.length ≤ count

theorem stageToken_ensures (t : ℕ) :
    (stageToken plan a t s).Ensures (StagedFrom s 1) (StagedFrom s 1) := by
  unfold stageToken
  cases a.stage (s.staged.map (·.tokenId)) t with
  | error => exact ⟨[⟨t, [], false⟩], rfl, le_refl 1⟩
  | ok p =>
    obtain ⟨f, sup⟩ := p
    dsimp only
    split_ifs <;> exact ⟨[⟨t, f, sup⟩], rfl, le_refl 1⟩

theorem stage_ensures (ts : List ℕ) :
    (forEach (stageToken plan a) ts s).Ensures (StagedFrom s ts.length)
      (StagedFrom s ts.length) := by
  induction ts generalizing s with
  | nil => exact ⟨[], by simp, le_refl 0⟩
  | cons t rt ih =>
    have hst : (stageToken plan a t s).Ensures (StagedFrom s 1) (StagedFrom s 1) :=
      stageToken_ensures t
    apply andThen (hst.imp (fun _ hh => hh) fun af hh => ?_)
    swap
    · obtain ⟨rs, hs, hb⟩ := hh
      exact ⟨rs, hs, hb.trans (by simp)⟩
    rintro mid ⟨rs, rfl, hb⟩
    have hl : ∀ af, StagedFrom { s with staged := s.staged ++ rs } rt.length af →
        StagedFrom s (t :: rt).length af := by
      rintro af ⟨m, rfl, n⟩
      refine ⟨rs ++ m, by simp, ?_⟩
      simp only [length_append, length_cons]
      omega
    exact ih.imp hl hl

section Turns

variable (stl : Settled plan st s)
include stl

theorem Settled.publishToken (hr : s.tokens.length < plan.maximumNewTokens) (t : ℕ) (f : List UInt8)
    (sup : Bool) :
    Settled plan st (s.publishToken t f sup) ∧
      (s.publishToken t f sup).tokens.length = s.tokens.length + 1 := by
  obtain ⟨r, mark, hsm⟩ := stl.sample hr t
  obtain ⟨marked, hm', hcm⟩ := hsm.commit mark
  obtain ⟨hd, hs, hk, next⟩ := hcm.detokenize f sup
  rw [hm'] at hs
  have hcp := next.copyText f
  refine ⟨hcp.publishText hs sup hk (contents_writeAt ..), ?_⟩
  refine (congrArg length (last_tokens hcp.split _)).trans ?_
  simp

theorem Settled.publishStaged (hr : s.tokens.length < plan.maximumNewTokens) (ro : StagedToken) :
    Settled plan st (publishStaged plan s ro) ∧
      (publishStaged plan s ro).tokens.length = s.tokens.length + 1 := by
  obtain ⟨hp, n⟩ := stl.publishToken hr ro.tokenId ro.fragment ro.suppressed
  unfold GenerationTurn.publishStaged
  dsimp only
  split_ifs
  · exact ⟨⟨⟨hp.room, hp.ordinals, hp.text, hp.moved, hp.marked⟩, hp.committed, hp.idle⟩, n⟩
  · exact ⟨hp, n⟩

theorem Settled.publishAll (rs : List StagedToken)
    (hr : s.tokens.length + rs.length ≤ plan.maximumNewTokens) :
    Settled plan st (rs.foldl (GenerationTurn.publishStaged plan) s) ∧
      (rs.foldl (GenerationTurn.publishStaged plan) s).tokens.length =
        s.tokens.length + rs.length := by
  induction rs generalizing s with
  | nil => exact ⟨stl, rfl⟩
  | cons row rest ih =>
    simp only [length_cons] at hr
    obtain ⟨next, n⟩ := stl.publishStaged (by omega) row
    obtain ⟨hfi, t⟩ := ih next (by omega)
    refine ⟨hfi, ?_⟩
    rw [foldl_cons, t, n, length_cons]
    omega

/-- A block that has room is published whole or not at all. -/
theorem speculativePublish_ensures (hr : Reports a)
    (ts : List ℕ) (room : s.tokens.length + ts.length ≤ plan.maximumNewTokens) :
    (speculativePublish plan a ts s).Ensures
      (fun af => Settled plan st af ∧
        af.tokens.length ≤ s.tokens.length + ts.length) (Accounted plan st) := by
  have hac : ∀ af, StagedFrom s ts.length af → Accounted plan st af := by
    rintro af ⟨rs, rfl, hb⟩
    refine ⟨?_, stl.ordinals, stl.text, stl.moved, stl.marked⟩
    simp only [stl.idle, nil_append]
    omega
  have hst : (forEach (stageToken plan a) ts s).Ensures
      (StagedFrom s ts.length) (StagedFrom s ts.length) := stage_ensures ts
  apply andThen (hst.imp (fun _ hh => hh) hac)
  rintro af ⟨rs, rfl, hb⟩
  cases hc : a.commit with
  | refused => exact hac _ ⟨rs, rfl, hb⟩
  | lost sta => exact absurd hc (hr.commit sta)
  | done =>
    have hs : ({ s with staged := [] } : TurnState) = s := by rw [← stl.idle]
    rw [hs, stl.idle, nil_append]
    obtain ⟨hpb, n⟩ := stl.publishAll rs (by omega)
    apply check hpb.toAccounted
    have hdl : ∀ i af, Settled plan st af ∧ af.tokens.length ≤ s.tokens.length + ts.length →
        (deliver a i af).Ensures (fun af => Settled plan st af ∧
          af.tokens.length ≤ s.tokens.length + ts.length) (Accounted plan st) := by
      intro i af hh
      unfold deliver
      cases a.sink i with
      | none => exact hh
      | some => exact (hh.1.toAccounted.stopped .outputFailure).1
    exact forEach_ensures hdl (range ts.length) ⟨hpb, by omega⟩

theorem candidateBlock_ensures (hr : Reports a) (anchor : ℕ) {committed : List ℕ}
    (room : s.tokens.length + (committed.length + 1) ≤ plan.maximumNewTokens) :
    (candidateBlock plan a anchor committed s).Ensures (Rested plan st) (Accounted plan st) := by
  unfold candidateBlock
  dsimp only
  cases hf : (anchor :: committed).findIdx? plan.terminal with
  | none =>
    have hpb := speculativePublish_ensures stl hr (anchor :: committed) (by simpa using room)
    apply andThen hpb
    rintro af ⟨next, -⟩
    exact ensures_check _ next.rested next.toAccounted
  | some i =>
    cases i with
    | zero => exact stl.toAccounted
    | succ i =>
      have hin : i + 1 < committed.length + 1 := by
        simpa using (findIdx?_eq_some_iff_getElem.mp hf).1
      have n : ((anchor :: committed).take (i + 1)).length = i + 1 := by
        simp
        omega
      have hpb := speculativePublish_ensures stl hr ((anchor :: committed).take (i + 1)) (by omega)
      apply andThen hpb
      rintro af ⟨next, hb⟩
      apply check next.toAccounted
      cases (anchor :: committed)[i + 1]? with
      | none => exact next.rested
      | some t =>
        obtain ⟨r, -, wk⟩ := next.sample (by omega) t
        exact terminal_ensures wk t

/-- A cycle publishes what fits the turn, or ends with its accounts in order. -/
theorem candidateCycle_ensures (hr : Reports a) (anchor : ℕ) :
    (candidateCycle plan a anchor s).Ensures (Rested plan st) (Accounted plan st) := by
  unfold candidateCycle
  have count := stl.count
  cases e : candidateExtent plan.blockSize (plan.maximumNewTokens - s.modelCommittedTokenCount)
      (plan.contextCapacity - s.position) with
  | error sta => exact stl.toAccounted
  | ok w =>
    obtain ⟨o, -, wide⟩ := candidateExtent_bounds e
    cases w with
    | zero =>
      have hpb := speculativePublish_ensures stl hr [anchor] (by simp; omega)
      exact hpb.imp (fun af hh => hh.1.rested) fun _ ha => ha
    | succ w =>
      apply check stl.toAccounted
      cases a.cycle with
      | error => exact stl.toAccounted
      | ok p =>
        obtain ⟨bl, vs⟩ := p
        dsimp only
        cases hac : accept vs (bl.take (w + 1)) with
        | none => exact stl.toAccounted
        | some hc =>
          have n := acceptFrom_length hac
          rw [length_take] at n
          apply check stl.toAccounted
          apply andThen (candidateBlock_ensures stl hr anchor (by omega))
          intro af hre
          exact ensures_check _ hre hre.1

theorem speculativeStep_ensures (hr : Reports a) :
    (speculativeStep plan a s).Ensures (Rested plan st) (Accounted plan st) := by
  unfold speculativeStep
  split
  · exact stl.toAccounted.stopped _
  next hf =>
  apply check stl.toAccounted
  split_ifs
  · exact stl.toAccounted.stopped _
  apply check stl.toAccounted
  cases a.sample with
  | error => exact stl.toAccounted
  | ok t =>
    apply check stl.toAccounted
    split_ifs
    · have hro : s.tokens.length < plan.maximumNewTokens := by
        have hb := stl.room
        rw [stl.count] at hf
        omega
      have hst : Accounted plan st { s with staged := [⟨t, [], false⟩] } :=
        ⟨hro, stl.ordinals, stl.text, stl.moved, stl.marked⟩
      apply check hst
      have hs : ({ s with staged := [] } : TurnState) = s := by rw [← stl.idle]
      obtain ⟨r, -, wk⟩ := stl.sample hro t
      rw [hs]
      exact terminal_ensures wk t
    · exact candidateCycle_ensures stl hr t

end Turns

def Kept (plan : TurnPlan) (start : ℕ) (s : TurnState) : Prop :=
  Accounted plan start s ∧ (s.complete = false → Settled plan start s)

theorem kept_settle {o : Outcome Status TurnState}
    (he : o.Ensures (Rested plan st) (Accounted plan st)) :
    Kept plan st (settle plan o) := by
  cases o with
  | refused =>
    exact ⟨⟨he.room, he.ordinals, he.text, he.moved, he.marked⟩,
      fun h => by simp [settle, complete] at h⟩
  | done s =>
    have hr : Rested plan st s := he
    rw [settle]
    split_ifs
    · exact ⟨(hr.1.stopped _).1, fun h => by simp [complete, stopped] at h⟩
    · refine ⟨hr.1, fun hg => hr.2 ?_⟩
      simp only [complete, Bool.or_eq_false_iff] at hg
      simpa using hg.2

theorem kept_iteration (stl : Settled plan st s) (hr : Reports a) :
    Kept plan st (settle plan (iteration plan a s)) := by
  apply kept_settle
  apply Ensures.andThen
  · apply check stl.toAccounted
    split_ifs
    · exact speculativeStep_ensures stl hr
    · exact targetStep_ensures stl hr
  · intro af hre
    exact ensures_check _ hre hre.1

variable {re : ℕ → TurnState → StepAnswers}

theorem kept_advance (hr : ∀ i s, Reports (re i s)) (bu : ℕ)
    {pr : Progress} (hk : Kept plan st pr.turn) :
    Kept plan st (turnAdvance plan re bu pr).turn := by
  induction bu generalizing pr with
  | zero => exact hk
  | succ bu ih =>
    rw [turnAdvance]
    split_ifs with hcm
    · exact hk
    · exact ih (kept_iteration (hk.2 (by simpa using hcm)) (hr _ _))

theorem kept_start (p : TurnPlan) (st : ℕ) : Kept p st (TurnState.start st) := by
  have stl : Settled p st (start st) := ⟨⟨Nat.zero_le _, rfl, rfl, rfl, rfl⟩, by simp [start], rfl⟩
  exact ⟨stl.toAccounted, fun _ => stl⟩

theorem advance_complete {pr : Progress} (hcm : pr.turn.complete = true)
    (bu : ℕ) : turnAdvance plan re bu pr = pr := by
  cases bu with
  | zero => rfl
  | succ => rw [turnAdvance, if_pos hcm]

theorem advance_add (f more : ℕ) (pr : Progress) : turnAdvance plan re (f + more) pr =
      turnAdvance plan re more (turnAdvance plan re f pr) := by
  induction f generalizing pr with
  | zero => rw [Nat.zero_add, turnAdvance]
  | succ f ih =>
    rw [Nat.succ_add, turnAdvance, turnAdvance]
    split_ifs with hcm
    · exact (advance_complete hcm more).symm
    · exact ih _

/-- The calls of a turn are one call with the whole budget. -/
theorem turnRun_total (p : ℕ) (bd : List ℕ) : turnRun plan re p bd =
      turnAdvance plan re bd.sum ⟨TurnState.start p, 0⟩ := by
  unfold turnRun
  generalize (⟨start p, 0⟩ : Progress) = pr
  induction bd generalizing pr with
  | nil => rfl
  | cons bu rest ih => rw [foldl_cons, ih, sum_cons, advance_add]

/-- The accounts of a turn agree in every state it reaches, when no call fails between a move
of the persistent state and the mark of its token; and where two runs of the calls complete
the turn, they complete it alike. -/
theorem turn_accounting (plan : TurnPlan) (replies : ℕ → TurnState → StepAnswers) (position : ℕ)
    (reports : ∀ index s, Reports (replies index s)) :
    (∀ budgets, Accounted plan position (turnRun plan replies position budgets).turn) ∧
    ∀ first second, (turnRun plan replies position first).turn.complete = true →
      (turnRun plan replies position second).turn.complete = true →
      (turnRun plan replies position first).turn = (turnRun plan replies position second).turn := by
  constructor
  · intro budgets
    rw [turnRun_total]
    exact (kept_advance reports budgets.sum (kept_start plan position)).1
  · intro first second complete complete'
    rw [turnRun_total] at complete complete' ⊢
    rw [turnRun_total]
    rcases Nat.le_total first.sum second.sum with less | less
    · obtain ⟨rest, same⟩ := Nat.exists_eq_add_of_le less
      rw [same, advance_add, advance_complete complete]
    · obtain ⟨rest, same⟩ := Nat.exists_eq_add_of_le less
      rw [same, advance_add, advance_complete complete']

def wordPlan : TurnPlan where
  speculative := false
  maximumNewTokens := 1
  contextCapacity := 8
  maximumOutputBytes := 8
  textCapacity := 8
  blockSize := 1
  classify _ := ⟨false, false, false⟩
  additionalStops := []
  reasoningEndTokenId := none

def wordAnswers (accounted : Option Status) : StepAnswers where
  enter := none
  summary := none
  projected := none
  sample := .ok 5
  admitted := none
  submitted := none
  decode := .done
  accounted := accounted
  marked := none
  push _ := .ok ([104, 105], false)
  copied := none
  published := none
  identified := none
  sink _ := none
  cancelled := none
  cycle := .error .state
  observed := none
  stage _ _ := .error .state
  commit := .done
  reported := none
  measured := none
  leave := none

def wordTurn (accounted : Option Status) : TurnState :=
  (turnRun wordPlan (fun _ _ => wordAnswers accounted) 3 [2]).turn

def blockPlan : TurnPlan :=
  { wordPlan with
    speculative := true
    maximumNewTokens := 8
    contextCapacity := 16
    blockSize := 3
    classify token := ⟨token = 2, false, token = 2⟩ }

-- The first sweep accepts two of three candidates, the second has none; then the turn ends.
def blockAnswers (index : ℕ) : StepAnswers :=
  { wordAnswers none with
    sample := .ok ([10, 20].getD index 2)
    cycle := .ok (if index = 0 then [11, 12, 13] else [], greedy fun row => [11, 12, 40].getD row 0)
    stage _ token := .ok ([UInt8.ofNat token], false) }

def blockTurn (budgets : List ℕ) : TurnState :=
  (turnRun blockPlan (fun index _ => blockAnswers index) 3 budgets).turn

theorem turn_accounting_block :
    (blockTurn [1, 4]).tokens.map (·.sampledTokenId) = [10, 11, 12, 40, 20, 11, 2] ∧
      contents (blockTurn [1, 4]).text 0 (blockTurn [1, 4]).generatedTextBytes =
        [10, 11, 12, 40, 20, 11] ∧
      (blockTurn [1, 4]).position = 9 ∧ (blockTurn [1, 4]).stopReason = some .eos ∧
      Accounted blockPlan 3 (blockTurn [1, 4]) ∧ blockTurn [1, 4] = blockTurn [7] := by
  have reports (index : ℕ) : Reports (blockAnswers index) := by
    constructor
    · simp [blockAnswers, wordAnswers]
    · intro _
      rfl
    · simp [blockAnswers, wordAnswers]
  obtain ⟨accounted, alike⟩ := turn_accounting blockPlan (fun index _ => blockAnswers index) 3
    fun index _ => reports index
  exact ⟨by decide +kernel, by decide +kernel, by decide +kernel, by decide +kernel,
    accounted [1, 4], alike [1, 4] [7] (by decide +kernel) (by decide +kernel)⟩

/-- The profile of a decode that has succeeded cannot be kept: the persistent state has moved,
and the turn counts no token. -/
theorem turn_accounting_lost :
    (wordTurn (some .bounds)).status = some .bounds ∧ (wordTurn (some .bounds)).position = 4 ∧
      (wordTurn (some .bounds)).modelCommittedTokenCount = 0 ∧
      ¬ Accounted wordPlan 3 (wordTurn (some .bounds)) := by
  have position : (wordTurn (some .bounds)).position = 4 := by decide +kernel
  have count : (wordTurn (some .bounds)).modelCommittedTokenCount = 0 := by decide +kernel
  refine ⟨by decide +kernel, position, count, fun accounted => ?_⟩
  have moved := accounted.moved
  rw [position, count] at moved
  cases moved

end Yvex.TurnAccounting
