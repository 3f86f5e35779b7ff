import Yvex.TurnAccounting

/-!
# Speculative turns lose nothing

Where the target chooses each token by the tokens before it, a turn that verifies drafted
blocks takes, in each of its iterations, some steps of the turn that decodes token by token.
-/

set_option autoImplicit false

namespace Yvex.SpeculativeTurns

open AttentionData ByteRegions GenerationTurn RefusableStep SpeculativeAcceptance TurnAccounting Nat
  Outcome Function TurnState

structure Language where
  prompt : List ℕ
  choose : List ℕ → ℕ
  fragment : List ℕ → ℕ → List UInt8 × Bool

def sampledIds (s : TurnState) : List ℕ := s.tokens.map (·.sampledTokenId)

section Language

variable (language : Language) (draft : ℕ → List ℕ)

def chosen (s : TurnState) : ℕ := language.choose (language.prompt ++ sampledIds s)

def greedyAnswers (iteration : ℕ) (s : TurnState) : StepAnswers where
  -- No call fails, the target chooses greedily, and the draft proposes what it likes.
  enter := none
  summary := none
  projected := none
  sample := .ok (chosen language s)
  admitted := none
  submitted := none
  decode := .done
  accounted := none
  marked := none
  push token := .ok (language.fragment (sampledIds s) token)
  copied := none
  published := none
  identified := none
  sink _ := none
  cancelled := none
  cycle := .ok (draft iteration, greedy fun row => language.choose
    (language.prompt ++ sampledIds s ++ chosen language s :: (draft iteration).take row))
  observed := none
  stage earlier token := .ok (language.fragment (sampledIds s ++ earlier) token)
  commit := .done
  reported := none
  measured := none
  leave := none

def grow (s : TurnState) : TurnState :=
  let fragment := language.fragment (sampledIds s) (chosen language s)
  s.publishToken (chosen language s) fragment.1 fragment.2

end Language

variable {L : Language} {d : ℕ → List ℕ} {plan : TurnPlan} {s : TurnState}

abbrev piece (L : Language) (s : TurnState) : List UInt8 × Bool :=
  L.fragment (sampledIds s) (chosen L s)

abbrev Room (plan : TurnPlan) (s : TurnState) (n : ℕ) : Prop :=
  s.modelCommittedTokenCount + n ≤ plan.maximumNewTokens ∧ s.position + n ≤ plan.contextCapacity

theorem publishToken_eq (tk : ℕ) (f : List UInt8) (sup : Bool) : s.publishToken tk f sup = { s with
      tokens := s.tokens ++ [⟨s.tokens.length, tk, s.position, s.position + 1, false, true,
        true, true, sup, s.generatedTextBytes, f⟩]
      text := writeAt s.text s.generatedTextBytes f
      modelCommittedTokenCount := s.modelCommittedTokenCount + 1
      textPublishedTokenCount := s.textPublishedTokenCount + 1
      suppressedTokenCount := s.suppressedTokenCount + sup.toNat
      decodeStepCount := s.decodeStepCount + 1
      generatedTextBytes := s.generatedTextBytes + f.length
      position := s.position + 1 } := by
  simp [publishToken, sampleToken, commitToken, detokenize, copyText, publishText, last]

@[simp] theorem sampledIds_publishToken (tk : ℕ) (f : List UInt8) (sup : Bool) :
    sampledIds (s.publishToken tk f sup) = sampledIds s ++ [tk] := by
  simp [publishToken_eq, sampledIds]

@[simp] theorem sampledIds_grow : sampledIds (grow L s) =
    sampledIds s ++ [chosen L s] := sampledIds_publishToken ..

@[simp] theorem grow_committed : (grow L s).modelCommittedTokenCount =
    s.modelCommittedTokenCount + 1 := by
  simp [grow, publishToken_eq]

@[simp] theorem grow_position : (grow L s).position = s.position + 1 := by
  simp [grow, publishToken_eq]

theorem grow_bytes :
    (grow L s).generatedTextBytes = s.generatedTextBytes + (piece L s).1.length := by
  simp [grow, publishToken_eq]

structure Running (plan : TurnPlan) (s : TurnState) : Prop where
  going : s.status = none ∧ s.stopReason = none
  idle : s.staged = []
  output : s.modelCommittedTokenCount ≤ plan.maximumNewTokens
  context : s.position ≤ plan.contextCapacity

theorem Running.incomplete (hr : Running plan s) : s.complete = false := by
  simp [complete, hr.going]

theorem Running.grow (hr : Running plan s) (hc : Room plan s 1) : Running plan (grow L s) := by
  refine ⟨?_, ?_, by simpa using hc.1, by simpa using hc.2⟩
  · simpa [SpeculativeTurns.grow, publishToken_eq] using hr.going
  · simpa [SpeculativeTurns.grow, publishToken_eq] using hr.idle

theorem Running.grows (hr : Running plan s) (L : Language) {n : ℕ} (hc : Room plan s n) :
    Running plan ((SpeculativeTurns.grow L)^[n] s) ∧
      ((SpeculativeTurns.grow L)^[n] s).modelCommittedTokenCount = s.modelCommittedTokenCount + n ∧
      ((SpeculativeTurns.grow L)^[n] s).position = s.position + n := by
  induction n with
  | zero => exact ⟨hr, rfl, rfl⟩
  | succ n ih =>
    obtain ⟨hr, hcm, q⟩ := ih (by omega)
    rw [iterate_succ_apply', grow_committed, grow_position, hcm, q]
    exact ⟨hr.grow (by omega), rfl, rfl⟩

def terminalOutcome (plan : TurnPlan) (token : ℕ) (s : TurnState) : Outcome Status TurnState :=
  let ended := (s.sampleToken token).terminate (plan.classify token)
  if (plan.classify token).eos = false ∧ token ∉ plan.additionalStops then .refused .state ended
  else .done ended

def targetOutcome (language : Language) (plan : TurnPlan) (s : TurnState) :
    Outcome Status TurnState :=
  let token := chosen language s
  let fragment := language.fragment (sampledIds s) token
  if s.modelCommittedTokenCount = plan.maximumNewTokens then .done (s.stopped .maxNewTokens)
  else if s.position = plan.contextCapacity then .done (s.stopped .contextCapacity)
  else if plan.terminal token then terminalOutcome plan token s
  else if overBudget plan (s.generatedTextBytes + fragment.1.length) then
    .refused .nomem ((s.sampleToken token).commitToken.detokenize fragment.1 fragment.2)
  else .done (grow language s)

theorem targetStep_greedy (it : ℕ) : targetStep plan (greedyAnswers L d it s) s =
      targetOutcome L plan s := by
  let f := L.fragment (sampledIds s) (chosen L s)
  let hcm := (s.sampleToken (chosen L s)).commitToken
  have hu : targetStep plan (greedyAnswers L d it s) s =
      if s.modelCommittedTokenCount = plan.maximumNewTokens then .done (s.stopped .maxNewTokens)
      else if s.position = plan.contextCapacity then .done (s.stopped .contextCapacity)
      else if plan.terminal (chosen L s) then
        terminalOutcome plan (chosen L s) s
      else (if overBudget plan (s.generatedTextBytes + f.1.length) then
          refused Status.nomem (hcm.detokenize f.1 f.2)
        else done (grow L s)).andThen .done := rfl
  rw [hu, andThen_self]
  rfl

def advanceTarget (language : Language) (plan : TurnPlan) (s : TurnState) : TurnState :=
  if s.complete then s else settle plan (targetOutcome language plan s)

theorem advanceTarget_complete (hcm : s.complete = true) (ss : ℕ) :
    (advanceTarget L plan)^[ss] s = s := by
  have hf : advanceTarget L plan s = s := if_pos hcm
  exact iterate_fixed hf ss

theorem target_iteration (it : ℕ) : GenerationTurn.iteration { plan with speculative := false }
      (greedyAnswers L d it s) s = targetOutcome L plan s := by
  have hu : GenerationTurn.iteration { plan with speculative := false } (greedyAnswers L d it s) s =
      (targetStep plan (greedyAnswers L d it s) s).andThen .done := rfl
  rw [hu, andThen_self, targetStep_greedy]

theorem target_advance (b : ℕ) (pr : Progress) :
    (turnAdvance { plan with speculative := false } (greedyAnswers L d) b
      pr).turn = (advanceTarget L plan)^[b] pr.turn := by
  induction b generalizing pr with
  | zero => rfl
  | succ b ih =>
    rw [turnAdvance, iterate_succ_apply]
    by_cases hc : pr.turn.complete = true
    · rw [if_pos hc, advanceTarget, if_pos hc, advanceTarget_complete hc]
    · rw [if_neg hc, ih, advanceTarget, if_neg hc, target_iteration]
      rfl

theorem advanceTarget_running (L : Language) (hr : Running plan s) :
    advanceTarget L plan s = settle plan (targetOutcome L plan s) := by
  rw [advanceTarget, hr.incomplete]
  rfl

def Sound (language : Language) (plan : TurnPlan) (s : TurnState) : Prop :=
  ∀ steps, ((advanceTarget language plan)^[steps] s).status = none

theorem Sound.advance (hs : Sound L plan s) (ss : ℕ) :
    Sound L plan ((advanceTarget L plan)^[ss] s) := by
  intro m
  rw [← iterate_add_apply]
  exact hs _

/-- The tokens the target chooses from a turn on, none of them a stop token and each of
them within the text budget. -/
def Path (language : Language) (plan : TurnPlan) : TurnState → List ℕ → Prop
  | _, [] => True
  | s, token :: rest =>
    token = chosen language s ∧ plan.terminal token = false ∧
      ¬ overBudget plan (s.generatedTextBytes +
        (language.fragment (sampledIds s) token).1.length) ∧
      Path language plan (grow language s) rest

def Greedy (choose : List ℕ → ℕ) : List ℕ → List ℕ → Prop
  | _, [] => True
  | earlier, token :: rest => token = choose earlier ∧ Greedy choose (earlier ++ [token]) rest

variable {choose : List ℕ → ℕ}

theorem acceptFrom_greedy (tg : ℕ → ℕ) (ro : ℕ) (earlier cs : List ℕ)
    (hag : ∀ i ≤ cs.length, tg (ro + i) = choose (earlier ++ cs.take i)) :
    ∃ c, acceptFrom (greedy tg) ro cs = some c ∧
      Greedy choose earlier c := by
  have tgt : tg ro = choose earlier := by simpa using hag 0 (by simp)
  induction cs generalizing ro earlier with
  | nil => exact ⟨[tg ro], rfl, tgt, trivial⟩
  | cons ca r ih =>
    rw [acceptFrom]
    by_cases ha : ca = tg ro
    · have hl : ∀ i ≤ r.length, tg (ro + 1 + i) = choose (earlier ++ [ca] ++ r.take i) := by
        intro i hkn
        have := hag (i + 1) (by simpa using hkn)
        simpa [add_assoc, add_comm 1 i] using this
      obtain ⟨c, hf, hfo⟩ := ih _ _ hl (by simpa using hl 0 (by simp))
      refine ⟨ca :: c, ?_, ha.trans tgt, hfo⟩
      rw [if_pos (by simpa [greedy] using ha), hf]
      rfl
    · refine ⟨[tg ro], ?_, tgt, trivial⟩
      rw [if_neg (by simpa [greedy] using ha)]
      rfl

theorem advanceTarget_grow (hr : Running plan s) (hso : Sound L plan s) (hc : Room plan s 1)
    (ho : plan.terminal (chosen L s) = false) :
    ¬ overBudget plan (s.generatedTextBytes + (piece L s).1.length) ∧
    advanceTarget L plan s = settle plan (.done (grow L s)) := by
  have hs := advanceTarget_running L hr
  rw [targetOutcome, if_neg (by omega), if_neg (by omega), ho] at hs
  by_cases hxs : overBudget plan (s.generatedTextBytes + (piece L s).1.length)
  · have hf := hso 1
    rw [iterate_one, hs, if_neg (by simp), if_pos hxs] at hf
    cases hf
  · rw [if_neg (by simp), if_neg hxs] at hs
    exact ⟨hxs, hs⟩

theorem settle_short (hsh : s.modelCommittedTokenCount ≠ plan.maximumNewTokens) :
    settle plan (.done s) = s := if_neg hsh

variable {ts : List ℕ}

theorem block_path (hr : Running plan s) (hso : Sound L plan s)
    (hf : Greedy L.choose (L.prompt ++ sampledIds s) ts)
    (ho : ∀ tk ∈ ts, plan.terminal tk = false) (some_token : ts ≠ [])
    (hc : Room plan s ts.length) :
    Path L plan s ts ∧ (advanceTarget L plan)^[ts.length] s =
      settle plan (.done ((grow L)^[ts.length] s)) := by
  induction ts generalizing s with
  | nil => exact absurd rfl some_token
  | cons tk r ih =>
    obtain ⟨choice, hf⟩ := hf
    obtain rfl : tk = chosen L s := choice
    simp only [List.length_cons] at hc
    obtain ⟨hfi, hs⟩ := advanceTarget_grow hr hso (by omega) (ho _ (by simp))
    have next : Greedy L.choose (L.prompt ++ sampledIds (grow L s)) r := by
      rw [sampledIds_grow, ← List.append_assoc]
      exact hf
    cases r with
    | nil => exact ⟨⟨rfl, ho _ (by simp), hfi, trivial⟩, hs⟩
    | cons tk r =>
      simp only [List.length_cons] at hc
      rw [settle_short (by rw [grow_committed]; omega)] at hs
      have l : Sound L plan (grow L s) := by
        have := hso.advance 1
        rwa [iterate_one, hs] at this
      obtain ⟨p, ss⟩ := ih (hr.grow (by omega)) l next
        (fun tk known => ho tk (by simp [known])) (by simp)
        (by simp only [Room, grow_committed, grow_position, List.length_cons]; omega)
      refine ⟨⟨rfl, ho _ (by simp), hfi, p⟩, ?_⟩
      rw [List.length_cons, iterate_succ_apply, hs, ss, iterate_succ_apply]

theorem Path.ids (p : Path L plan s ts) :
    sampledIds ((grow L)^[ts.length] s) = sampledIds s ++ ts := by
  induction ts generalizing s with
  | nil => exact (List.append_nil _).symm
  | cons tk r ih =>
    obtain ⟨rfl, -, -, p⟩ := p
    rw [List.length_cons, iterate_succ_apply, ih p, sampledIds_grow,
      List.append_assoc, List.singleton_append]

-- What the turns of both modes share: all but the mark of the reasoning boundary.
def plain (s : TurnState) : TurnState := { s with boundaryTokenCount := 0 }

theorem plain_publishStaged (r : StagedToken) : plain (publishStaged plan s r) =
    plain (s.publishToken r.tokenId r.fragment r.suppressed) := by
  unfold publishStaged
  split_ifs <;> rfl

def rows (language : Language) : List ℕ → List ℕ → List StagedToken
  | _, [] => []
  | earlier, token :: rest =>
    ⟨token, (language.fragment earlier token).1, (language.fragment earlier token).2⟩ ::
      rows language (earlier ++ [token]) rest

variable {t : TurnState}

theorem plain_publish (p : Path L plan s ts) (hs : plain t = plain s) :
    plain ((rows L (sampledIds s) ts).foldl (publishStaged plan) t) =
      plain ((grow L)^[ts.length] s) := by
  induction ts generalizing s t with
  | nil => exact hs
  | cons tk r ih =>
    obtain ⟨rfl, -, -, p⟩ := p
    have next := ih (t := publishStaged plan t ⟨chosen L s, (piece L s).1, (piece L s).2⟩) p
      (by
        rw [plain_publishStaged]
        exact congrArg (fun u : TurnState =>
          u.publishToken (chosen L s) (piece L s).1 (piece L s).2) hs)
    rw [sampledIds_grow] at next
    exact next

/-- A block the target would choose is staged. The turn `t` is where the target would
be behind the rows staged so far. -/
theorem stage_path {st : List StagedToken} (d : ℕ → List ℕ) (it : ℕ)
    (p : Path L plan t ts) (ids : sampledIds t = sampledIds s ++ st.map (·.tokenId))
    (bs : t.generatedTextBytes = s.generatedTextBytes + stagedBytes st) :
    forEach (stageToken plan (greedyAnswers L d it s)) ts { s with staged := st } =
      .done { s with staged := st ++ rows L (sampledIds t) ts } := by
  induction ts generalizing t st with
  | nil => simp [rows]
  | cons tk r ih =>
    obtain ⟨rfl, ho, hf, p⟩ := p
    let f := piece L t
    let row : StagedToken := ⟨chosen L t, f.1, f.2⟩
    have hl : stagedBytes (st ++ [row]) = stagedBytes st + f.1.length := by simp [stagedBytes, row]
    have hs : stageToken plan (greedyAnswers L d it s) (chosen L t)
        { s with staged := st } = .done { s with staged := st ++ [row] } := by
      unfold stageToken
      simp only [greedyAnswers, ← ids]
      rw [if_neg (by simp [ho]), if_neg]
      rw [hl, ← add_assoc, ← bs]
      exact hf
    rw [forEach, hs, andThen, ih p]
    · simp [rows, row, f]
    · simp [ids, row]
    · rw [grow_bytes, hl, bs, add_assoc]

theorem deliver_greedy (it : ℕ) (i : List ℕ) (t : TurnState) :
    forEach (deliver (greedyAnswers L d it s)) i t = .done t := by
  induction i with
  | nil => rfl
  | cons j r ih => exact ih

theorem publish_block (d : ℕ → List ℕ) (it : ℕ) (p : Path L plan s ts) (idle : s.staged = []) :
    ∃ t, speculativePublish plan (greedyAnswers L d it s) ts s = .done t ∧
      plain t = plain ((grow L)^[ts.length] s) := by
  have hb : { s with staged := [] } = s := by rw [← idle]
  have st := stage_path (s := s) d it p
    (show sampledIds s = sampledIds s ++ [].map StagedToken.tokenId by simp)
    (by simp [stagedBytes])
  rw [hb, List.nil_append] at st
  refine ⟨(rows L (sampledIds s) ts).foldl (publishStaged plan) s, ?_, plain_publish p rfl⟩
  rw [speculativePublish, st, andThen]
  rw [← hb]
  exact deliver_greedy ..

theorem plain_settle (o : Outcome Status TurnState) :
    plain (settle plan o) = settle plan (o.map plain) := by
  cases o with
  | done s =>
    by_cases hf : s.modelCommittedTokenCount = plan.maximumNewTokens
    · exact (congrArg plain (if_pos hf)).trans (if_pos hf).symm
    · exact (congrArg plain (if_neg hf)).trans (if_neg hf).symm
  | refused => rfl

theorem plain_terminalOutcome (tk : ℕ) :
    (terminalOutcome plan tk s).map plain = terminalOutcome plan tk (plain s) := by
  unfold terminalOutcome
  split_ifs <;> rfl

theorem Greedy.split {e b a : List ℕ} {tk : ℕ} (hf : Greedy choose e (b ++ tk :: a)) :
    Greedy choose e b ∧ tk = choose (e ++ b) := by
  induction b generalizing e with
  | nil => exact ⟨trivial, by simpa using hf.1⟩
  | cons f b ih =>
    obtain ⟨r, last⟩ := ih hf.2
    exact ⟨⟨hf.1, r⟩, by simpa using last⟩

def Reaches (L : Language) (plan : TurnPlan) (s : TurnState) (o : Outcome Status TurnState) :
    Prop :=
  ∃ ss > 0, plain (settle plan o) = plain ((advanceTarget L plan)^[ss] s)

/-- A block of greedy tokens takes the turn to a state that the target alone reaches. -/
theorem block_iteration {c : List ℕ} (d : ℕ → List ℕ) (iteration : ℕ)
    (hr : Running plan s) (hso : Sound L plan s)
    (ho : plan.terminal (chosen L s) = false)
    (hfo : Greedy L.choose (L.prompt ++ sampledIds s) (chosen L s :: c))
    (hc : Room plan s (c.length + 1)) : Reaches L plan s
      (candidateBlock plan (greedyAnswers L d iteration s) (chosen L s) c s) := by
  have n : (chosen L s :: c).length = c.length + 1 := rfl
  generalize tokensEq : chosen L s :: c = ts at hfo n
  cases hf : ts.findIdx? plan.terminal with
  | none =>
    have all : ∀ tk ∈ ts, plan.terminal tk = false := by simpa [List.findIdx?_eq_none_iff] using hf
    obtain ⟨p, ss⟩ := block_path hr hso hfo all
      (List.ne_nil_of_length_eq_add_one n) (by omega)
    obtain ⟨t, published, hs⟩ := publish_block d iteration p hr.idle
    have block : candidateBlock plan (greedyAnswers L d iteration s)
        (chosen L s) c s = .done t := by
      simp only [candidateBlock, tokensEq, hf, published, andThen]
      rfl
    refine ⟨ts.length, by omega, ?_⟩
    rw [block, ss, plain_settle, plain_settle, map, map, hs]
  | some j =>
    obtain ⟨hsh, st, b⟩ := List.findIdx?_eq_some_iff_getElem.mp hf
    have shape : ts = ts.take j ++ ts[j] :: ts.drop (j + 1) := by
      rw [← List.drop_eq_getElem_cons hsh, List.take_append_drop]
    have len : (ts.take j).length = j := by rw [List.length_take, min_eq_left hsh.le]
    have hp : 0 < j := by
      refine pos_of_ne_zero ?_
      rintro rfl
      subst tokensEq
      simp [ho] at st
    have all : ∀ tk ∈ ts.take j, plan.terminal tk = false := by
      intro tk hm
      obtain ⟨i, known, rfl⟩ := List.mem_take_iff_getElem.mp hm
      simpa using b i (by omega)
    rw [shape] at hfo
    obtain ⟨hfo, last⟩ := hfo.split
    obtain ⟨p, ss⟩ := block_path hr hso hfo all
      (List.ne_nil_of_length_pos (by omega)) (by omega)
    obtain ⟨t, published, hs⟩ := publish_block d iteration p hr.idle
    have tk : ts[j] = chosen L ((grow L)^[j] s) := by
      have ids := p.ids
      rw [len] at ids
      rw [last, chosen, ids, List.append_assoc]
    rw [len] at ss hs
    obtain ⟨hre, committed', q'⟩ := hr.grows L (show Room plan s j by omega)
    rw [settle_short (by omega)] at ss
    have hen : targetOutcome L plan ((grow L)^[j] s) =
        terminalOutcome plan ts[j] ((grow L)^[j] s) := by
      rw [targetOutcome, if_neg (by omega), if_neg (by omega), ← tk, if_pos st]
    have block : candidateBlock plan (greedyAnswers L d iteration s)
        (chosen L s) c s = terminalOutcome plan ts[j] t := by
      obtain ⟨i, rfl⟩ := Nat.exists_eq_add_of_le' hp
      simp only [candidateBlock, tokensEq, hf, published, andThen, List.getElem?_eq_getElem hsh]
      rfl
    refine ⟨j + 1, by omega, ?_⟩
    rw [iterate_succ_apply', ss, advanceTarget_running L hre, hen, block,
      plain_settle, plain_settle, plain_terminalOutcome, plain_terminalOutcome, hs]

theorem cycle_iteration (d : ℕ → List ℕ) (iteration : ℕ) (hr : Running plan s)
    (hso : Sound L plan s) (ho : plan.terminal (chosen L s) = false)
    (hc : Room plan s 1) (block : 0 < plan.blockSize ∧ plan.blockSize ≤ maxBlock) :
    Reaches L plan s (candidateCycle plan (greedyAnswers L d iteration s) (chosen L s) s) := by
  unfold candidateCycle
  cases extent : candidateExtent plan.blockSize (plan.maximumNewTokens - s.modelCommittedTokenCount)
      (plan.contextCapacity - s.position) with
  | error status =>
    unfold candidateExtent at extent
    rw [if_neg (by omega)] at extent
    split_ifs at extent
  | ok n =>
    obtain ⟨-, -, bounds⟩ := candidateExtent_bounds extent
    cases n with
    | zero =>
      have hf : Greedy L.choose (L.prompt ++ sampledIds s) [chosen L s] := ⟨rfl, trivial⟩
      obtain ⟨p, ss⟩ := block_path hr hso hf (by simpa using ho) (by simp) hc
      obtain ⟨t, published, hs⟩ := publish_block d iteration p hr.idle
      refine ⟨1, by omega, ?_⟩
      simp only [List.length_singleton] at ss hs
      simp only [published]
      rw [ss, plain_settle, plain_settle, map, map, hs]
    | succ n =>
      have hag : ∀ i ≤ ((d iteration).take (n + 1)).length,
          L.choose (L.prompt ++ sampledIds s ++ chosen L s :: (d iteration).take (0 + i)) =
          L.choose (L.prompt ++ sampledIds s ++ [chosen L s] ++
            ((d iteration).take (n + 1)).take i) := by
        intro i known
        have hl : i ≤ n + 1 := known.trans (List.length_take_le ..)
        simp [List.take_take, min_eq_left hl]
      obtain ⟨c, ha, hf⟩ := acceptFrom_greedy (fun row => L.choose
        (L.prompt ++ sampledIds s ++ chosen L s :: (d iteration).take row)) 0
        (L.prompt ++ sampledIds s ++ [chosen L s])
        ((d iteration).take (n + 1)) hag
      have len := acceptFrom_length ha
      have taken := List.length_take_le (n + 1) (d iteration)
      obtain ⟨ss, hp, hs⟩ := block_iteration d iteration hr hso ho ⟨rfl, hf⟩ (by omega)
      refine ⟨ss, hp, ?_⟩
      rw [← hs]
      have cy : (greedyAnswers L d iteration s).cycle = .ok (d iteration, greedy fun row =>
        L.choose (L.prompt ++ sampledIds s ++ chosen L s :: (d iteration).take row)) := rfl
      simp only [cy, accept, ha]
      exact congrArg (fun o => plain (settle plan o)) (andThen_self _)

/-- An iteration of a running turn takes steps of the turn that decodes token by token. -/
theorem iteration_steps (d : ℕ → List ℕ) (it : ℕ) (hr : Running plan s)
    (hs : Sound L plan s) (b : 0 < plan.blockSize ∧ plan.blockSize ≤ maxBlock) :
    Reaches L plan s (GenerationTurn.iteration plan (greedyAnswers L d it s) s) := by
  have hu : GenerationTurn.iteration plan (greedyAnswers L d it s) s =
      (if plan.speculative = true ∧ s.boundaryTokenCount = 0 then
        speculativeStep plan (greedyAnswers L d it s) s
      else targetStep plan (greedyAnswers L d it s) s).andThen .done := rfl
  rw [hu, andThen_self]
  have hh : ∀ o, o = targetOutcome L plan s → Reaches L plan s o := by
    rintro _ rfl
    exact ⟨1, by omega, congrArg plain (advanceTarget_running L hr).symm⟩
  by_cases m : plan.speculative = true ∧ s.boundaryTokenCount = 0
  · rw [if_pos m]
    by_cases hf : s.modelCommittedTokenCount = plan.maximumNewTokens
    · exact hh _ ((if_pos hf).trans (if_pos hf).symm)
    by_cases l : s.position = plan.contextCapacity
    · exact hh _ (((if_neg hf).trans (if_pos l)).trans ((if_neg hf).trans (if_pos l)).symm)
    by_cases ht : plan.terminal (chosen L s) = true
    · have bare : { s with staged := [] } = s := by rw [← hr.idle]
      refine hh _ ?_
      rw [targetOutcome, if_neg hf, if_neg l, if_pos ht, ← bare]
      exact (if_neg hf).trans ((if_neg l).trans (if_pos ht))
    have hst : speculativeStep plan (greedyAnswers L d it s) s = candidateCycle plan
        (greedyAnswers L d it s) (chosen L s) s :=
      (if_neg hf).trans ((if_neg l).trans (if_neg ht))
    rw [hst]
    exact cycle_iteration d it hr hs (by simpa using ht)
      ⟨lt_of_le_of_ne hr.output hf, lt_of_le_of_ne hr.context l⟩ b
  · rw [if_neg m]
    exact hh _ (targetStep_greedy it)

theorem targetOutcome_plain :
    targetOutcome L plan (plain s) = (targetOutcome L plan s).map plain := by
  rw [targetOutcome, targetOutcome]
  simp only [apply_ite (map plain), plain_terminalOutcome]
  rfl

theorem advanceTarget_plain :
    Function.Semiconj plain (advanceTarget L plan) (advanceTarget L plan) := by
  intro s
  have hs : (plain s).complete = s.complete := rfl
  rw [advanceTarget, advanceTarget, targetOutcome_plain, ← plain_settle, hs]
  split_ifs <;> rfl

theorem Sound.of_plain (hs : Sound L plan (plain s)) : Sound L plan s := by
  intro ss
  have := hs ss
  rwa [← (advanceTarget_plain.iterate_right ss).eq s] at this

theorem stopped_complete (r : StopReason) : (s.stopped r).complete = true := Bool.or_true _

theorem settle_ended (hen : s.stopReason.isSome = true) :
    (settle plan (.done s)).complete = true := by
  rw [settle]
  split_ifs
  · exact stopped_complete _
  · simp [complete, hen]

theorem settle_refused (st : Status) : (settle plan (.refused st s)).complete = true := rfl

theorem advanceTarget_cases (L : Language) (hr : Running plan s) :
    (advanceTarget L plan s).complete = true ∨ Running plan (advanceTarget L plan s) ∧
        (advanceTarget L plan s).modelCommittedTokenCount = s.modelCommittedTokenCount + 1 := by
  rw [advanceTarget_running L hr, targetOutcome]
  by_cases hf : s.modelCommittedTokenCount = plan.maximumNewTokens
  · rw [if_pos hf]
    exact .inl (settle_ended rfl)
  by_cases l : s.position = plan.contextCapacity
  · rw [if_neg hf, if_pos l]
    exact .inl (settle_ended rfl)
  split_ifs
  · unfold terminalOutcome
    split_ifs
    · exact .inl (settle_refused _)
    · exact .inl (settle_ended rfl)
  · exact .inl (settle_refused _)
  by_cases hre : (grow L s).modelCommittedTokenCount = plan.maximumNewTokens
  · left
    rw [settle, if_pos hre]
    exact stopped_complete _
  · right
    rw [settle_short hre]
    exact ⟨hr.grow ⟨lt_of_le_of_ne hr.output hf, lt_of_le_of_ne hr.context l⟩, grow_committed⟩

theorem target_runs (hr : Running plan s) (ss : ℕ) :
    ((advanceTarget L plan)^[ss] s).complete = true ∨
      Running plan ((advanceTarget L plan)^[ss] s) ∧
        ((advanceTarget L plan)^[ss] s).modelCommittedTokenCount =
          s.modelCommittedTokenCount + ss := by
  induction ss with
  | zero => exact .inr ⟨hr, rfl⟩
  | succ ss ih =>
    rw [iterate_succ_apply']
    rcases ih with hcm | ⟨hr, n⟩
    · left
      rwa [advanceTarget, if_pos hcm]
    · rcases advanceTarget_cases L hr with hcm | ⟨hr, next⟩
      · exact .inl hcm
      · exact .inr ⟨hr, by rw [next, n, add_assoc]⟩

theorem target_completes (hr : Running plan s) :
    ((advanceTarget L plan)^[plan.maximumNewTokens + 1] s).complete = true := by
  rcases target_runs hr (plan.maximumNewTokens + 1) with hcm | ⟨hre, n⟩
  · exact hcm
  · have := hre.output
    omega

theorem target_settled (hr : Running plan s) {ss : ℕ}
    (late : plan.maximumNewTokens < ss ∨ ((advanceTarget L plan)^[ss] s).complete = true) :
    (advanceTarget L plan)^[ss] s = (advanceTarget L plan)^[plan.maximumNewTokens + 1] s := by
  rcases lt_or_ge plan.maximumNewTokens ss with hl | hl
  · obtain ⟨m, rfl⟩ := Nat.exists_eq_add_of_le' hl
    rw [iterate_add_apply]
    exact advanceTarget_complete (target_completes hr) m
  · obtain ⟨m, hs⟩ : ∃ m, plan.maximumNewTokens + 1 = m + ss :=
      Nat.exists_eq_add_of_le' (Nat.le_succ_of_le hl)
    rw [hs, iterate_add_apply]
    exact (advanceTarget_complete (late.resolve_left (by omega)) m).symm

theorem Running.of_plain (hr : Running plan (plain s)) : Running plan s :=
  ⟨hr.going, hr.idle, hr.output, hr.context⟩

/-- The iterations of a turn are steps of the turn that decodes token by token, at least
one for each iteration until the turn ends. -/
theorem turn_steps (d : ℕ → List ℕ) (plan : TurnPlan)
    (block : 0 < plan.blockSize ∧ plan.blockSize ≤ maxBlock) (b : ℕ) (pr : Progress)
    (hr : Running plan pr.turn)
    (hso : Sound L plan pr.turn) :
    ∃ ss, plain (turnAdvance plan (greedyAnswers L d) b pr).turn =
        plain ((advanceTarget L plan)^[ss] pr.turn) ∧
      (b ≤ ss ∨ (turnAdvance plan (greedyAnswers L d) b pr).turn.complete = true) := by
  induction b generalizing pr with
  | zero => exact ⟨0, rfl, .inl le_rfl⟩
  | succ b ih =>
    rw [turnAdvance, if_neg (by simp [hr.incomplete])]
    obtain ⟨f, hp, hs⟩ := iteration_steps d pr.iterations hr hso block
    generalize next : settle plan (iteration plan (greedyAnswers L d
      pr.iterations pr.turn) pr.turn) = t at hs
    rcases target_runs hr f with complete | ⟨hre, -⟩
    · have hen : t.complete = true := by
        have : (plain t).complete = true := by rw [hs]; exact complete
        exact this
      refine ⟨f, ?_, .inr ?_⟩
      · rw [advance_complete hen, hs]
      · rw [advance_complete hen]
        exact hen
    · have running' : Running plan (plain t) := by
        rw [hs]
        exact ⟨hre.going, hre.idle, hre.output, hre.context⟩
      have sound' : Sound L plan (plain t) := by
        rw [hs]
        intro ss
        rw [← (advanceTarget_plain.iterate_right ss).eq]
        exact hso.advance f ss
      obtain ⟨r, final, heh⟩ := ih ⟨t, pr.iterations + 1⟩ running'.of_plain sound'.of_plain
      refine ⟨r + f, ?_, heh.imp_left (by omega)⟩
      rw [final, (advanceTarget_plain.iterate_right r).eq, hs,
        ← (advanceTarget_plain.iterate_right r).eq, iterate_add_apply]

def greedyTurn (language : Language) (draft : ℕ → List ℕ) (plan : TurnPlan) (speculative : Bool)
    (budgets : List ℕ) : TurnState :=
  (turnRun { plan with speculative := speculative } (greedyAnswers language draft)
    language.prompt.length budgets).turn

/-- Where the target-only turn does not fail, a speculative turn with the same prompt and
the same plan completes and ends with the same records, text, position and stop reason. -/
theorem speculative_lossless (language : Language) (draft : ℕ → List ℕ) (plan : TurnPlan)
    (room : language.prompt.length ≤ plan.contextCapacity)
    (block : 0 < plan.blockSize ∧ plan.blockSize ≤ maxBlock)
    (sound : ∀ budgets, (greedyTurn language draft plan false budgets).status = none)
    (budgets budgets' : List ℕ) (enough : plan.maximumNewTokens < budgets.sum)
    (enough' : plan.maximumNewTokens < budgets'.sum) :
    let speculative := greedyTurn language draft plan true budgets
    let target := greedyTurn language draft plan false budgets'
    speculative.complete = true ∧ target.complete = true ∧ speculative.status = none ∧
      sampledIds speculative = sampledIds target ∧ speculative.tokens = target.tokens ∧
      contents speculative.text 0 speculative.generatedTextBytes =
        contents target.text 0 target.generatedTextBytes ∧
      speculative.position = target.position ∧ speculative.stopReason = target.stopReason := by
  intro speculative target
  let start := start language.prompt.length
  let final := (advanceTarget language plan)^[plan.maximumNewTokens + 1] start
  have running : Running plan start := ⟨⟨rfl, rfl⟩, rfl, zero_le _, room⟩
  have targets : ∀ budgets, greedyTurn language draft plan false budgets =
      (advanceTarget language plan)^[budgets.sum] start := by
    intro budgets
    rw [greedyTurn, turnRun_total, target_advance]
  have unfailing : Sound language plan start := by
    intro steps
    have := sound [steps]
    rwa [targets, List.sum_singleton] at this
  have ended : target = final := (targets budgets').trans (target_settled running (.inl enough'))
  have same : plain speculative = plain final := by
    have begun : Running { plan with speculative := true } start :=
      ⟨⟨rfl, rfl⟩, rfl, zero_le _, room⟩
    obtain ⟨steps, same, reached⟩ := turn_steps draft { plan with speculative := true } block
      budgets.sum ⟨start, 0⟩ begun unfailing
    rw [← turnRun_total] at same reached
    have late : plan.maximumNewTokens < steps ∨
        ((advanceTarget language plan)^[steps] start).complete = true := by
      refine reached.imp enough.trans_le fun complete => ?_
      have : (plain speculative).complete = true := complete
      rwa [show plain speculative = _ from same] at this
    exact same.trans (congrArg plain (target_settled running late))
  have complete : (plain final).complete = true := target_completes running
  have status : (plain final).status = none := unfailing _
  have agree : ∀ {β : Type} (f : TurnState → β), f (plain speculative) = f (plain final) :=
    fun f => congrArg f same
  rw [ended]
  rw [← same] at complete status
  exact ⟨complete, target_completes running, status, agree sampledIds, agree (·.tokens),
    agree fun s => contents s.text 0 s.generatedTextBytes, agree (·.position),
    agree (·.stopReason)⟩

def counting : Language where
  prompt := [0, 1]
  choose := List.length
  fragment _ token := ([token.toUInt8], false)

def countingPlan : TurnPlan where
  speculative := true
  maximumNewTokens := 8
  contextCapacity := 16
  maximumOutputBytes := 16
  textCapacity := 16
  blockSize := 4
  classify token := ⟨token = 7, false, token = 7⟩
  additionalStops := []
  reasoningEndTokenId := some 4

/-- The block of the first iteration is rejected at its third candidate and holds the
reasoning boundary; the tokens behind it are ordinary ones. -/
theorem speculative_lossless_counting :
    sampledIds (greedyTurn counting (fun _ => [3, 4, 9]) countingPlan true [9]) =
        [2, 3, 4, 5, 6, 7] ∧
      (greedyTurn counting (fun _ => [3, 4, 9]) countingPlan true [9]).boundaryTokenCount = 3 ∧
      (greedyTurn counting (fun _ => [3, 4, 9]) countingPlan true [9]).tokens =
        (greedyTurn counting (fun _ => [3, 4, 9]) countingPlan false [9]).tokens := by
  have sound : ∀ budgets,
      (greedyTurn counting (fun _ => [3, 4, 9]) countingPlan false budgets).status = none := by
    intro budgets
    rw [greedyTurn, turnRun_total]
    generalize budgets.sum = total
    rcases lt_or_ge total 6 with less | less
    · interval_cases total <;> decide +kernel
    · obtain ⟨more, rfl⟩ := Nat.exists_eq_add_of_le less
      rw [advance_add, advance_complete (by decide +kernel)]
      decide +kernel
  obtain ⟨-, -, -, -, tokens, -⟩ := speculative_lossless counting (fun _ => [3, 4, 9])
    countingPlan (by decide) (by decide) sound [9] [9] (by decide) (by decide)
  exact ⟨by decide +kernel, by decide +kernel, tokens⟩

end Yvex.SpeculativeTurns
