import Yvex.DrawLedger
import Yvex.Sampling

/-!
# What each sampling call publishes

A call that fails leaves the published generator alone. A call that succeeds
leaves it alone too, or publishes a state that its own draws lead to, together
with the identity of that state.
-/

set_option autoImplicit false

namespace Yvex.Sampling

open AttentionData CheckedArithmetic WordCounter DrawLedger Except

structure Kept (c c' : Context) : Prop where
  policy : c'.policy = c.policy
  rngIncrement : c'.rngIncrement = c.rngIncrement
  rngState : c'.rngState = c.rngState
  successfulDraws : c'.successfulDraws = c.successfulDraws
  identity : c'.summary.rngStateIdentity = c.summary.rngStateIdentity
  active : c'.active = c.active

theorem Kept.refl (c : Context) : Kept c c := ⟨rfl, rfl, rfl, rfl, rfl, rfl⟩

structure Publishes (host : Host) (c c' : Context) (state : UInt64) (draws : ℕ) : Prop where
  policy : c'.policy = c.policy
  rngIncrement : c'.rngIncrement = c.rngIncrement
  rngState : c'.rngState = state
  successfulDraws : c'.successfulDraws = draws
  identity : samplingRngIdentity host c state draws = some c'.summary.rngStateIdentity

section Calls

variable {host : Host} {c c' : Context} {refusal : Refusal}

theorem samplingRngIdentity_congr (p : c'.policy = c.policy)
    (hin : c'.rngIncrement = c.rngIncrement) (s : UInt64) (ds : ℕ) :
    samplingRngIdentity host c' s ds = samplingRngIdentity host c s ds := by
  simp only [samplingRngIdentity, p, hin]

theorem Kept.entered (idle : c.active = false) (sta : Option Status) (co : ℕ) :
    Kept c (samplingLeave { c with active := true } sta co) :=
  ⟨rfl, rfl, rfl, rfl, rfl, idle.symm⟩

theorem samplingEnter_ensures (c : Context) :
    (samplingEnter c).Ensures (fun c' => c.active = false ∧ c' = { c with active := true })
      (Kept c) := by
  unfold samplingEnter
  split_ifs with hf
  · simp only [Bool.and_eq_true, Bool.not_eq_true'] at hf
    exact ⟨hf.1, rfl⟩
  all_goals exact ⟨rfl, rfl, rfl, rfl, rfl, rfl⟩

theorem samplingTransactionEnter_ensures (c : Context) : (samplingTransactionEnter c).Ensures
      (fun c' => c.active = false ∧ c' = { c with active := true }) (Kept c) := by
  unfold samplingTransactionEnter
  split_ifs with hf
  · exact ⟨by simpa using hf, rfl⟩
  · exact ⟨rfl, rfl, rfl, rfl, rfl, rfl⟩

variable {s : UInt64} {ds : ℕ}

theorem Publishes.left_context {n : Identity}
    (identity : samplingRngIdentity host c s ds = some n) (sta : Option Status)
    (co : ℕ) :
    Publishes host c
      (samplingLeave (({ c with active := true } : Context).publish s ds n) sta co) s ds :=
  ⟨rfl, rfl, rfl, rfl, identity⟩

/-- A call inside the context: a refusal keeps what is published. -/
theorem samplingInside_ensures {α : Type} {co : ℕ}
    {body : Context → Except Refusal (Context × Option α)} {g : Context × Option α → Prop}
    (hin : c.active = false → ∀ i r, body { c with active := true } =
      .ok (i, r) → g (samplingLeave i none co, r)) :
    (samplingInside co body c).Ensures g (fun a => Kept c a.1) := by
  unfold samplingInside
  cases he : samplingEnter c with
  | refused => exact (samplingEnter_ensures c).of_refused he
  | done =>
    obtain ⟨hid, rfl⟩ := (samplingEnter_ensures c).of_done he
    dsimp only
    cases ran : body { c with active := true } with
    | error => exact Kept.entered hid _ 0
    | ok => exact hin hid _ _ ran

def StagedFrom (host : Host) (c : Context) (state : UInt64) (draws : ℕ) (staged : Staged) : Prop :=
  draws + 1 < wordLimit ∧
    staged.draw = some (pcgAdvance c.rngIncrement state, pcgOutput state) ∧
    samplingRngIdentity host c (pcgAdvance c.rngIncrement state) (draws + 1) = some staged.after

variable {st : Staged}

theorem StagedFrom.congr (hm : StagedFrom host c' s ds st)
    (p : c'.policy = c.policy) (hin : c'.rngIncrement = c.rngIncrement) :
    StagedFrom host c s ds st := by
  unfold StagedFrom at hm ⊢
  rw [samplingRngIdentity_congr p hin, hin] at hm
  exact hm

variable {src : Source} {ca : Cancel}

theorem samplingSelectDeviceStochastic_ok
    (hd : samplingSelectDeviceStochastic host c src ca s ds = .ok st) :
    StagedFrom host c s ds st := by
  unfold samplingSelectDeviceStochastic at hd
  simp only at hd
  split at hd
  · simp at hd
  split at hd
  · rename_i a hi
    obtain ⟨hsm, rfl⟩ := (u64Add_eq_some _ _ _).mp a
    split at hd
    · simp at hd
    split at hd
    · simp at hd
    split at hd
    · simp at hd
    split at hd
    · rename_i hfi
      obtain rfl := ok.inj hd
      exact ⟨hsm, rfl, hfi⟩
    · simp at hd
  · simp at hd

theorem samplingSelectStochastic_ok (hd : samplingSelectStochastic host c src ca s ds = .ok st) :
    StagedFrom host c s ds st := by
  unfold samplingSelectStochastic at hd
  simp only at hd
  split at hd
  · simp at hd
  split at hd
  · rename_i a hi
    obtain ⟨hsm, rfl⟩ := (u64Add_eq_some _ _ _).mp a
    split at hd
    · simp at hd
    split at hd
    · simp at hd
    split at hd
    · rename_i hfi
      obtain rfl := ok.inj hd
      exact ⟨hsm, rfl, hfi⟩
    · simp at hd
  · simp at hd

theorem samplingDraw_ok (hd : samplingDraw host c src ca s ds = .ok st) :
    StagedFrom host c s ds st := by
  unfold samplingDraw at hd
  split_ifs at hd
  · exact samplingSelectDeviceStochastic_ok hd
  · exact samplingSelectStochastic_ok hd

theorem samplingSelectGreedy_ok (hs : samplingSelectGreedy host c src = .ok st) :
    st.draw = none := by
  unfold samplingSelectGreedy at hs
  split_ifs at hs
  split at hs
  · simp at hs
  · rw [← ok.inj hs]

theorem samplingStage_ok (hr : samplingStage host c src ca = .ok st) :
    st.draw = none ∨ StagedFrom host c c.rngState c.successfulDraws st := by
  unfold samplingStage at hr
  split at hr
  · simp at hr
  split at hr
  · simp at hr
  split at hr
  · simp at hr
  simp only at hr
  split at hr
  · simp at hr
  · simp at hr
  rename_i se finish
  obtain rfl := ok.inj hr
  split at se
  · exact .inl (samplingSelectGreedy_ok se)
  · exact .inr (samplingDraw_ok se)

variable {vs : List UInt32}

theorem drawUniforms_ok {i : UInt64} {a : UInt64} {n : ℕ}
    (hd : drawUniforms i ca s n = .ok (a, vs)) :
    a = (pcgAdvance i)^[n] s ∧ vs = drawn (pcgAdvance i) pcgOutput s n := by
  induction n generalizing ca s a vs with
  | zero =>
    obtain ⟨rfl, rfl⟩ := Prod.mk.inj (ok.inj hd)
    exact ⟨rfl, rfl⟩
  | succ n ih =>
    rw [drawUniforms] at hd
    split_ifs at hd
    simp only at hd
    split at hd
    · simp at hd
    rename_i ir
    obtain ⟨rfl, rfl⟩ := Prod.mk.inj (ok.inj hd)
    obtain ⟨rfl, rfl⟩ := ih ir
    exact ⟨(Function.iterate_succ_apply _ n s).symm, rfl⟩

variable {hasResult : Bool}

theorem samplingSelectOwned_ok {st : Option Staged}
    (hr : samplingSelectOwned host src hasResult ca c = .ok (c', st)) :
    (c' = c ∧ st.bind Staged.draw = none) ∨
      ∃ staged, st = some staged ∧ StagedFrom host c c.rngState c.successfulDraws staged ∧
        c' = c.publish (pcgAdvance c.rngIncrement c.rngState) (c.successfulDraws + 1)
          staged.after := by
  unfold samplingSelectOwned at hr
  split at hr
  · simp at hr
  split at hr
  · split at hr
    · simp at hr
    · obtain ⟨rfl, rfl⟩ := Prod.mk.inj (ok.inj hr)
      exact .inl ⟨rfl, rfl⟩
  split at hr
  · simp at hr
  rename_i staged se
  have hd := samplingStage_ok se
  split at hr
  · rename_i none
    obtain ⟨rfl, rfl⟩ := Prod.mk.inj (ok.inj hr)
    exact .inl ⟨rfl, none⟩
  rename_i hdr
  obtain ⟨rfl, rfl⟩ := Prod.mk.inj (ok.inj hr)
  rcases hd with none | hfr
  · rw [hdr] at none
    simp at none
  have next := hfr.2.1
  rw [hdr] at next
  obtain ⟨rfl, rfl⟩ := Prod.mk.inj (Option.some.inj next)
  exact .inr ⟨staged, rfl, hfr, by rw [wordAdd_eq hfr.1]⟩

/-- A direct selection publishes nothing, or the next draw. -/
theorem samplingSelect_ensures : (samplingSelect host src hasResult ca c).Ensures (fun a =>
      (Kept c a.1 ∧ a.2.bind Staged.draw = none) ∨
      (c.active = false ∧
        Publishes host c a.1 (pcgAdvance c.rngIncrement c.rngState) (c.successfulDraws + 1) ∧
        a.2.bind Staged.draw = some (pcgAdvance c.rngIncrement c.rngState, pcgOutput c.rngState)))
      (fun a => Kept c a.1) := by
  apply samplingInside_ensures
  intro hid i st ran
  rcases samplingSelectOwned_ok ran with ⟨rfl, hu⟩ | ⟨hm, rfl, hd, rfl⟩
  · exact .inl ⟨.entered hid none 1, hu⟩
  · have own : StagedFrom host c c.rngState c.successfulDraws hm := hd.congr rfl rfl
    exact .inr ⟨hid, .left_context own.2.2 none 1, own.2.1⟩

theorem transactionBegin_ensures {allocated : Bool} :
    (transactionBegin allocated c).Ensures (fun a => Kept c a.1 ∧
      a.2 = some ⟨c.rngState, c.rngState, c.successfulDraws, 0, 0, [], false⟩)
      (fun a => Kept c a.1) := by
  apply samplingInside_ensures
  intro idle i t ran
  split_ifs at ran
  cases ran
  exact ⟨⟨rfl, rfl, rfl, rfl, rfl, idle.symm⟩, rfl⟩

structure Advanced (increment : UInt64) (t t' : Transaction) (count : ℕ) (values : List UInt32) :
    Prop where
  initialState : t'.initialState = t.initialState
  initialDraws : t'.initialDraws = t.initialDraws
  commitPrepared : t'.commitPrepared = t.commitPrepared
  nextState : t'.nextState = (pcgAdvance increment)^[count] t.nextState
  drawCount : t'.drawCount = t.drawCount + count
  values : values = drawn (pcgAdvance increment) pcgOutput t.nextState count

variable {t t' : Transaction}

theorem transactionUniforms_ok {v : ℕ} (hd : transactionUniforms host c t v ca = .ok (t', vs)) :
    Advanced c.rngIncrement t t' v vs := by
  unfold transactionUniforms at hd
  split at hd
  · simp at hd
  rename_i a
  obtain ⟨-, rfl⟩ := (u64Add_eq_some _ _ _).mp a
  split at hd
  · simp at hd
  split at hd
  · simp at hd
  split at hd
  · simp at hd
  rename_i hm
  split at hd
  · simp at hd
  split at hd
  · simp at hd
  · obtain ⟨rfl, rfl⟩ := Prod.mk.inj (ok.inj hd)
    obtain ⟨rfl, rfl⟩ := drawUniforms_ok hm
    exact ⟨rfl, rfl, rfl, rfl, rfl, rfl⟩

theorem transactionStage_ok (hr : transactionStage host c t src ca ds = .ok st) :
    StagedFrom host c t.nextState ds st := by
  unfold transactionStage at hr
  split at hr
  · simp at hr
  split at hr
  · simp at hr
  split at hr
  · simp at hr
  · simp at hr
  · rename_i hm finish
    obtain rfl := ok.inj hr
    exact samplingDraw_ok hm

/-- A selection in a transaction draws once from its provisional state and publishes nothing. -/
theorem transactionSelect_ensures (t : Transaction) :
    (transactionSelect host c t src hasResult ca).Ensures (fun a =>
      Kept c a.1 ∧ t.commitPrepared = false ∧ ∃ t' st v, a.2 = some (t', st) ∧
        st.draw.map Prod.snd = some v ∧ Advanced c.rngIncrement t t' 1 [v])
      (fun a => Kept c a.1) := by
  unfold transactionSelect
  split
  · rename_i ad hct based
    obtain ⟨-, rfl⟩ := (u64Add_eq_some _ _ _).mp ad
    split
    · exact Kept.refl c
    rename_i ha
    simp only [Bool.or_eq_true, not_or, Bool.not_eq_true] at ha
    apply samplingInside_ensures
    intro idle i r ran
    split at ran
    · cases ran
    rename_i st hr
    cases ran
    obtain ⟨-, next, -⟩ := transactionStage_ok hr
    refine ⟨.entered idle none 0, ha.1.1, _, st, pcgOutput t.nextState, rfl, ?_,
      ⟨rfl, rfl, rfl, ?_, rfl, rfl⟩⟩
    · rw [next]
      rfl
    · simp only [next]
      rfl
  · exact Kept.refl c

theorem baseChanged_iff :
    baseChanged c t = false ↔ c.rngState = t.initialState ∧ c.successfulDraws = t.initialDraws := by
  simp [baseChanged]

/-- A prepared commit holds the context, on the base it began with. -/
theorem transactionPrepareCommit_ensures : (transactionPrepareCommit host c t).Ensures (fun a =>
      c.active = false ∧ a.1 = { c with active := true } ∧ c.rngState = t.initialState ∧
      c.successfulDraws = t.initialDraws ∧ t.initialDraws + t.drawCount < wordLimit ∧
      ∃ identity, samplingRngIdentity host c t.nextState (t.initialDraws + t.drawCount) =
        some identity ∧ a.2 = { t with preparedIdentity := identity, commitPrepared := true })
      (fun a => Kept c a.1) := by
  unfold transactionPrepareCommit
  split
  · exact Kept.refl c
  cases he : samplingTransactionEnter c with
  | refused => exact (samplingTransactionEnter_ensures c).of_refused he
  | done c' =>
    obtain ⟨hid, rfl⟩ := (samplingTransactionEnter_ensures c).of_done he
    dsimp only
    split
    · exact Kept.entered hid _ 0
    rename_i b
    split
    · exact Kept.entered hid _ 0
    rename_i identity hm
    obtain ⟨total, ad, hn⟩ := Option.bind_eq_some_iff.mp hm
    obtain ⟨hsm, rfl⟩ := (u64Add_eq_some _ _ _).mp ad
    obtain ⟨s, ds⟩ := baseChanged_iff.mp (by simpa using b)
    exact ⟨hid, rfl, s, ds, hsm, identity, hn, rfl⟩

/-- An ended transaction publishes nothing, or all its draws. -/
theorem transactionFinish_ensures {commit : Bool} :
    (transactionFinish host c t commit).Ensures (fun a =>
      c.active = false ∧ ((commit = false ∧ Kept c a.1) ∨
      (commit = true ∧ c.rngState = t.initialState ∧ (t.initialDraws + t.drawCount < wordLimit →
        Publishes host c a.1 t.nextState (c.successfulDraws + t.drawCount)))))
      (fun a => Kept c a.1) := by
  unfold transactionFinish
  cases he : samplingTransactionEnter c with
  | refused => exact (samplingTransactionEnter_ensures c).of_refused he
  | done c' =>
    obtain ⟨hi, rfl⟩ := (samplingTransactionEnter_ensures c).of_done he
    dsimp only
    split
    · rename_i ha
      exact ⟨hi, .inl ⟨by simpa using ha, rfl, rfl, rfl, rfl, rfl, hi.symm⟩⟩
    rename_i hc
    split
    · exact ⟨rfl, rfl, rfl, rfl, rfl, hi.symm⟩
    rename_i b
    split
    · exact ⟨rfl, rfl, rfl, rfl, rfl, hi.symm⟩
    rename_i hn
    obtain ⟨s, ds⟩ := baseChanged_iff.mp (by simpa using b)
    refine ⟨hi, .inr ⟨by simpa using hc, s, fun hr => ?_⟩⟩
    rw [wordAdd_eq hr, ← ds] at hn
    exact ⟨rfl, rfl, rfl, wordAdd_eq (by rw [ds]; exact hr), hn⟩

theorem contextCheckpoint_ensures :
    (contextCheckpoint host c).Ensures (fun a => Kept c a.1 ∧ ∃ taken,
      a.2 = some taken ∧ taken.rngState = c.rngState ∧
      taken.successfulDraws = c.successfulDraws) (fun a => Kept c a.1) := by
  apply samplingInside_ensures
  intro idle i ch hr
  split at hr
  · cases hr
  dsimp only at hr
  split at hr
  · cases hr
  split at hr
  · cases hr
  · cases hr
    exact ⟨.entered idle none 0, _, rfl, rfl, rfl⟩

theorem contextRestore_ensures {ch : Checkpoint} :
    (contextRestore host ch c).Ensures (fun a => c.active = false ∧
      Publishes host c a.1 ch.rngState ch.successfulDraws)
      (fun a => Kept c a.1) := by
  apply samplingInside_ensures
  intro idle i r hr
  split at hr
  · cases hr
  split at hr
  · cases hr
  rename_i hv
  cases hr
  simp only [checkpointValid, Bool.and_eq_true, beq_iff_eq, Bool.not_eq_true',
    Bool.not_eq_false] at hv
  exact ⟨idle, rfl, rfl, rfl, rfl, hv.1.2⟩

end Calls

end Yvex.Sampling
