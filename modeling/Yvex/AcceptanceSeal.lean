import Yvex.SpeculativeTurns
import Yvex.StateRecipe

/-!
# Sealed acceptance results and commit plans

The acceptance loop keeps its counters beside the committed tokens, and the result is
checked once more before it is sealed. A commit plan says how much of the anchor and the
committed tokens reaches the state and the output. The rows of a stochastic sweep are
judged by their verdicts.
-/

set_option autoImplicit false

namespace Yvex.AcceptanceSeal

open AttentionData CheckedArithmetic SpeculativeAcceptance StateRecipe Nat

inductive AcceptanceKind where
  | greedy
  | stochastic
  deriving DecidableEq

structure AcceptanceRequest where
  schemaVersion : ℕ
  kind : AcceptanceKind
  vocabularySize : ℕ
  distributionStride : ℕ
  candidateTokenIds : List ℕ
  targetTokenIds : Option (ℕ → ℕ)
  stochastic : Except Refusal Verdicts

structure AcceptanceResult where
  schemaVersion : ℕ
  kind : AcceptanceKind
  proposedCount : ℕ
  acceptedDraftCount : ℕ
  rejectedDraftCount : ℕ
  committedCount : ℕ
  rejectionIndex : ℕ
  correctionOrBonusTokenId : ℕ
  allCandidatesAccepted : Bool
  correctionPresent : Bool
  bonusPresent : Bool
  policyIdentity : Identity
  acceptanceIdentity : Identity

def acceptanceRefuse (status : Status) (reason : String) : Refusal :=
  errorOnly status "runtime.speculation" reason

def acceptanceValidate (request : AcceptanceRequest) (committedCapacity : ℕ) : Option Refusal :=
  let count := request.candidateTokenIds.length
  if request.schemaVersion ≠ 1 ∨ count = 0 ∨ maxBlock < count ∨ request.vocabularySize = 0 ∨
      uint32Max < request.vocabularySize ∨ request.distributionStride < request.vocabularySize ∨
      sizeMax / 4 < request.distributionStride ∨ sizeMax / request.distributionStride < count + 1 ∨
      committedCapacity < count + 1 then
    some (acceptanceRefuse .invalidArg "speculative acceptance geometry is incomplete")
  else if ∃ token ∈ request.candidateTokenIds, request.vocabularySize ≤ token then
    some (acceptanceRefuse .bounds "candidate token is outside the vocabulary")
  else match request.kind with
    | .greedy =>
      match request.targetTokenIds with
      | none => some (acceptanceRefuse .invalidArg "greedy acceptance requires target token IDs")
      | some targets =>
        if (List.range (count + 1)).any (request.vocabularySize ≤ targets ·) then
          some (acceptanceRefuse .bounds "target token is outside the vocabulary")
        else none
    | .stochastic =>
      match request.stochastic with
      | .error refusal => some refusal
      | .ok _ => none

def AcceptanceRequest.verdicts (request : AcceptanceRequest) : Verdicts :=
  match request.kind with
  | .greedy =>
    let targets := request.targetTokenIds.getD fun _ => uint32Max
    { greedy targets with
      final := fun row => if targets row = uint32Max then none else some (targets row) }
  | .stochastic => request.stochastic.toOption.getD ⟨fun _ _ => false, fun _ => none⟩

abbrev Accepting := List ℕ × AcceptanceResult

def acceptLoop (verdicts : Verdicts) : ℕ → List ℕ → Accepting → Except Refusal Accepting
  | _, [], (committed, result) => .ok (committed, result)
  | index, candidate :: rest, (committed, result) =>
    if verdicts.accepts index candidate then
      acceptLoop verdicts (index + 1) rest (committed ++ [candidate], { result with
        committedCount := result.committedCount + 1
        acceptedDraftCount := result.acceptedDraftCount + 1 })
    else match verdicts.final index with
      | none => .error (acceptanceRefuse .format "residual target distribution is empty")
      | some correction => .ok (committed ++ [correction], { result with
          rejectionIndex := index
          rejectedDraftCount := (candidate :: rest).length
          committedCount := result.committedCount + 1
          correctionPresent := true
          correctionOrBonusTokenId := correction })

def acceptBonus (verdicts : Verdicts) (count : ℕ) : Accepting → Except Refusal Accepting
  | (committed, result) =>
    if result.acceptedDraftCount = count then
      match verdicts.final count with
      | none => .error (acceptanceRefuse .format "target bonus distribution is empty")
      | some bonus => .ok (committed ++ [bonus], { result with
          committedCount := result.committedCount + 1
          allCandidatesAccepted := true
          bonusPresent := true
          correctionOrBonusTokenId := bonus })
    else .ok (committed, result)

def kindCode : AcceptanceKind → ℕ
  | .greedy => 0
  | .stochastic => 1

def policyFields (vocabularySize : ℕ) (result : AcceptanceResult) : List HashField :=
  [textField "yvex.speculation.policy.fixed.v1", .word 1, .word (kindCode result.kind),
    .word result.proposedCount, .word vocabularySize]

def acceptanceFields (committed : List ℕ) (result : AcceptanceResult) : List HashField :=
  [textField "yvex.speculation.acceptance.v1", .text result.policyIdentity,
    .word result.acceptedDraftCount, .word result.rejectedDraftCount,
    .word result.committedCount, .word result.rejectionIndex,
    .word result.correctionPresent.toNat, .word result.bonusPresent.toNat] ++
    (committed.take result.committedCount).map .word

def sealRefusal (vocabularySize : ℕ) (committed : List ℕ) (capacity : ℕ)
    (result : AcceptanceResult) : Option Refusal :=
  if result.schemaVersion ≠ 1 ∨ result.proposedCount = 0 ∨ maxBlock < result.proposedCount ∨
      vocabularySize = 0 ∨ uint32Max < vocabularySize ∨ result.committedCount = 0 ∨
      capacity < result.committedCount ∨ result.proposedCount < result.acceptedDraftCount ∨
      result.rejectedDraftCount ≠ result.proposedCount - result.acceptedDraftCount ∨
      result.committedCount ≠ result.acceptedDraftCount + 1 ∨
      result.correctionPresent.toNat + result.bonusPresent.toNat ≠ 1 ∨
      result.allCandidatesAccepted ≠ result.bonusPresent ∨
      (result.correctionPresent ∧ (result.proposedCount ≤ result.acceptedDraftCount ∨
        result.rejectionIndex ≠ result.acceptedDraftCount)) ∨
      (result.bonusPresent ∧ (result.acceptedDraftCount ≠ result.proposedCount ∨
        result.rejectionIndex ≠ result.proposedCount)) ∨
      some result.correctionOrBonusTokenId ≠ committed[result.committedCount - 1]? then
    some (acceptanceRefuse .format "bounded speculative acceptance facts are inconsistent")
  else if ∃ token ∈ committed.take result.committedCount, vocabularySize ≤ token then
    some (acceptanceRefuse .bounds
      "bounded speculative acceptance token is outside the vocabulary")
  else none

def acceptanceSeal (sha : Sha256) (vocabularySize : ℕ) (committed : List ℕ) (capacity : ℕ)
    (result : AcceptanceResult) : Except Refusal AcceptanceResult :=
  match sealRefusal vocabularySize committed capacity result with
  | some refusal => .error refusal
  | none =>
    match sha.digest (policyFields vocabularySize result) with
    | none => .error (acceptanceRefuse .state "speculative acceptance identity derivation failed")
    | some policyIdentity =>
      let result := { result with policyIdentity := policyIdentity }
      match sha.digest (acceptanceFields committed result) with
      | none => .error (acceptanceRefuse .state "speculative acceptance identity derivation failed")
      | some identity => .ok { result with acceptanceIdentity := identity }

def AcceptanceResult.begin (request : AcceptanceRequest) : AcceptanceResult where
  schemaVersion := 1
  kind := request.kind
  proposedCount := request.candidateTokenIds.length
  acceptedDraftCount := 0
  rejectedDraftCount := 0
  committedCount := 0
  rejectionIndex := request.candidateTokenIds.length
  correctionOrBonusTokenId := 0
  allCandidatesAccepted := false
  correctionPresent := false
  bonusPresent := false
  policyIdentity := []
  acceptanceIdentity := []

def acceptRows (request : AcceptanceRequest) : Except Refusal Accepting := do
  let accepting ← acceptLoop request.verdicts 0 request.candidateTokenIds
    ([], AcceptanceResult.begin request)
  acceptBonus request.verdicts request.candidateTokenIds.length accepting

def accept (sha : Sha256) (request : AcceptanceRequest) (committedCapacity : ℕ) :
    Except Refusal Accepting :=
  match acceptanceValidate request committedCapacity with
  | some refusal => .error refusal
  | none => do
    let (committed, result) ← acceptRows request
    let result ← acceptanceSeal sha request.vocabularySize committed committedCapacity result
    .ok (committed, result)

structure CommitPlan where
  statePrefixCount : ℕ
  publicationTokenCount : ℕ
  terminal : Bool

def commitPlanBuild (acceptance : AcceptanceResult) (terminalIndex : ℕ) :
    Except Refusal CommitPlan :=
  let malformed := acceptanceRefuse .invalidArg "speculative commit plan is malformed"
  if acceptance.schemaVersion ≠ 1 ∨ acceptance.committedCount = 0 ∨
      acceptance.committedCount ≠ acceptance.acceptedDraftCount + 1 then .error malformed
  else match u64Add acceptance.committedCount 1 with
    | none => .error malformed
    | some outputCount =>
      if outputCount < terminalIndex then .error malformed
      else if terminalIndex < outputCount then
        if terminalIndex = 0 then
          .error (acceptanceRefuse .state
            "a terminal conditioning token cannot enter verification")
        else .ok ⟨terminalIndex, terminalIndex + 1, true⟩
      else .ok ⟨outputCount, outputCount, false⟩

def standing (verdicts : Verdicts) : ℕ → List ℕ → ℕ
  | _, [] => 0
  | row, candidate :: rest =>
    if verdicts.accepts row candidate then standing verdicts (row + 1) rest + 1 else 0

variable {vs : Verdicts} {r : AcceptanceRequest} {cs : List ℕ} {row : ℕ}

theorem standing_le : standing vs row cs ≤ cs.length := by
  induction cs generalizing row with
  | nil => exact le_rfl
  | cons ca rest ih =>
    rw [standing]
    split_ifs
    · exact succ_le_succ ih
    · exact zero_le _

theorem standing_spec (i : ℕ) :
    (i < standing vs row cs → ∃ ca, cs[i]? = some ca ∧ vs.accepts (row + i) ca) ∧
    (i = standing vs row cs → ∀ ca, cs[i]? = some ca → vs.accepts (row + i) ca = false) := by
  induction cs generalizing row i with
  | nil => simp [standing]
  | cons ca rest ih =>
    rw [standing]
    split_ifs with ha
    · cases i with
      | zero => simp [ha]
      | succ i =>
        have next := @ih (row + 1) i
        simpa [add_assoc, add_comm 1 i] using next
    · refine ⟨by omega, ?_⟩
      rintro rfl hf hs
      obtain rfl : ca = hf := by simpa using hs
      simpa using ha

theorem acceptLoop_all (b : List ℕ) (result : AcceptanceResult)
    (all : standing vs row cs = cs.length) :
    acceptLoop vs row cs (b, result) = .ok (b ++ cs, { result with
      committedCount := result.committedCount + cs.length
      acceptedDraftCount := result.acceptedDraftCount + cs.length }) := by
  induction cs generalizing row b result with
  | nil => simp [acceptLoop]
  | cons ca re ih =>
    rw [standing] at all
    split_ifs at all with ha
    · rw [acceptLoop, if_pos ha, ih _ _ (succ.inj all)]
      simp [add_assoc, add_comm 1 re.length]

/-- The loop stops at the first candidate that does not stand, with the token of that row. -/
theorem acceptLoop_rejects (b : List ℕ) (res : AcceptanceResult)
    (hsh : standing vs row cs < cs.length) :
    acceptLoop vs row cs (b, res) =
      match vs.final (row + standing vs row cs) with
      | none => .error (acceptanceRefuse .format "residual target distribution is empty")
      | some cr =>
        .ok (b ++ cs.take (standing vs row cs) ++ [cr], { res with
            rejectionIndex := row + standing vs row cs
            rejectedDraftCount := cs.length - standing vs row cs
            committedCount := res.committedCount + standing vs row cs + 1
            acceptedDraftCount := res.acceptedDraftCount + standing vs row cs
            correctionPresent := true
            correctionOrBonusTokenId := cr }) := by
  induction cs generalizing row b res with
  | nil => simp at hsh
  | cons ca re ih =>
    rw [standing] at hsh ⊢
    split_ifs at hsh ⊢ with ha
    · rw [acceptLoop, if_pos ha, ih _ _ (by simpa using hsh)]
      simp only [show row + 1 + standing vs (row + 1) re =
        row + (standing vs (row + 1) re + 1) by omega]
      cases vs.final (row + (standing vs (row + 1) re + 1)) with
      | none => rfl
      | some => simp [add_assoc, add_comm 1 (standing vs (row + 1) re)]
    · rw [acceptLoop, if_neg ha]
      simp

def AcceptanceRequest.accepted (request : AcceptanceRequest) : ℕ :=
  standing request.verdicts 0 request.candidateTokenIds

def acceptedResult (request : AcceptanceRequest) (token : ℕ) : AcceptanceResult :=
  { AcceptanceResult.begin request with
    acceptedDraftCount := request.accepted
    rejectedDraftCount := request.candidateTokenIds.length - request.accepted
    committedCount := request.accepted + 1
    rejectionIndex := request.accepted
    correctionOrBonusTokenId := token
    allCandidatesAccepted := request.accepted = request.candidateTokenIds.length
    correctionPresent := request.accepted ≠ request.candidateTokenIds.length
    bonusPresent := request.accepted = request.candidateTokenIds.length }

variable {t : ℕ}

open AcceptanceResult

theorem acceptRows_ok (hfi : r.verdicts.final r.accepted = some t) :
    acceptRows r = .ok (r.candidateTokenIds.take r.accepted ++ [t], acceptedResult r t) := by
  unfold acceptRows
  by_cases all : r.accepted = r.candidateTokenIds.length
  · have hl := acceptLoop_all [] (begin r) all
    rw [all] at hfi
    rw [hl]
    simp [bind, Except.bind, acceptBonus, begin, hfi, acceptedResult, all]
  · have hsh : r.accepted < r.candidateTokenIds.length := lt_of_le_of_ne standing_le all
    have hl := acceptLoop_rejects [] (begin r) hsh
    rw [zero_add, show standing _ 0 _ = r.accepted from rfl, hfi] at hl
    rw [hl]
    simp [bind, Except.bind, acceptBonus, begin, acceptedResult, all]

variable {accepting : Accepting}

theorem acceptRows_inv (ha : acceptRows r = .ok accepting) :
    ∃ t, r.verdicts.final r.accepted = some t ∧
      accepting = (r.candidateTokenIds.take r.accepted ++ [t], acceptedResult r t) := by
  cases hf : r.verdicts.final r.accepted with
  | some t =>
    rw [acceptRows_ok hf] at ha
    exact ⟨t, rfl, (Except.ok.inj ha).symm⟩
  | none =>
    unfold acceptRows at ha
    by_cases all : r.accepted = r.candidateTokenIds.length
    · rw [acceptLoop_all [] (begin r) all] at ha
      rw [all] at hf
      simp [bind, Except.bind, acceptBonus, begin, hf] at ha
    · have hl := acceptLoop_rejects [] (begin r) (lt_of_le_of_ne standing_le all)
      rw [zero_add, show standing _ 0 _ = r.accepted from rfl, hf] at hl
      rw [hl] at ha
      cases ha

theorem acceptFrom_standing : acceptFrom vs row cs = (vs.final (row + standing vs row cs)).map
        (cs.take (standing vs row cs) ++ [·]) := by
  induction cs generalizing row with
  | nil => rfl
  | cons ca rest ih =>
    rw [acceptFrom, standing]
    split_ifs
    · rw [ih, Option.map_map, add_assoc, add_comm 1]
      rfl
    · rfl

/-- The loop with its counters commits what the rows of the sweep decide, and refuses
when the row that ends the committed tokens has no token. -/
theorem acceptRows_refines (request : AcceptanceRequest) :
    (acceptRows request).toOption.map Prod.fst =
      SpeculativeAcceptance.accept request.verdicts request.candidateTokenIds := by
  rw [SpeculativeAcceptance.accept, acceptFrom_standing, zero_add]
  change _ = (request.verdicts.final request.accepted).map _
  cases rows : acceptRows request with
  | ok accepting =>
    obtain ⟨token, final, rfl⟩ := acceptRows_inv rows
    rw [final]
    rfl
  | error =>
    cases final : request.verdicts.final request.accepted with
    | none => rfl
    | some => simp [acceptRows_ok final] at rows

variable {c : ℕ}

theorem validate_facts (ha : acceptanceValidate r c = none) :
    (0 < r.candidateTokenIds.length ∧ r.candidateTokenIds.length ≤ maxBlock ∧
      r.candidateTokenIds.length + 1 ≤ c) ∧
    (0 < r.vocabularySize ∧ r.vocabularySize ≤ uint32Max) ∧
    ∀ t ∈ r.candidateTokenIds, t < r.vocabularySize := by
  simp only [acceptanceValidate] at ha
  split_ifs at ha with geometry outside
  refine ⟨by omega, by omega, fun t hm => ?_⟩
  by_contra above
  exact outside ⟨t, hm, by omega⟩

variable {tg : ℕ → ℕ}

theorem validate_targets (hk : r.kind = .greedy) (hg : r.targetTokenIds = some tg)
    (ha : acceptanceValidate r c = none) (hkn : row ≤ r.candidateTokenIds.length) :
    tg row < r.vocabularySize := by
  simp only [acceptanceValidate, hk, hg] at ha
  split_ifs at ha with geometry cs tg
  by_contra above
  refine tg (List.any_eq_true.mpr ⟨row, List.mem_range.mpr (by omega), ?_⟩)
  exact decide_eq_true (by omega)

/-- The result the rows decide passes the check in front of the seal. -/
theorem sealRefusal_accepted (ha : acceptanceValidate r c = none) (hi : t < r.vocabularySize) :
    sealRefusal r.vocabularySize (r.candidateTokenIds.take r.accepted ++ [t]) c
      (acceptedResult r t) = none := by
  obtain ⟨⟨some_candidate, few, fits⟩, ⟨some_token, narrow⟩, ts⟩ := validate_facts ha
  have most : r.accepted ≤ r.candidateTokenIds.length := standing_le
  have n : (r.candidateTokenIds.take r.accepted).length = r.accepted := List.length_take_of_le most
  have hne : r.candidateTokenIds ≠ [] := List.ne_nil_of_length_pos some_candidate
  unfold sealRefusal
  rw [if_neg, if_neg]
  · rintro ⟨f, hm, ho⟩
    rcases List.mem_append.mp (List.mem_of_mem_take hm) with hm | hm
    · exact absurd (ts f (List.mem_of_mem_take hm)) (by omega)
    · obtain rfl := List.mem_singleton.mp hm
      omega
  · have l : (r.candidateTokenIds.take r.accepted ++ [t])[r.accepted]? = some t := by
      rw [List.getElem?_append_right n.le, n, Nat.sub_self]
      rfl
    by_cases all : r.accepted = r.candidateTokenIds.length
    · simp [acceptedResult, begin, all, hne] at l ⊢
      omega
    · simp [acceptedResult, begin, all, hne, l]
      omega

variable {sha : Sha256}

theorem accept_ok (ha : acceptanceValidate r c = none)
    (hfi : r.verdicts.final r.accepted = some t) (hi : t < r.vocabularySize)
    (hh : ∀ fields, (sha.digest fields).isSome = true) :
    ∃ p a, accept sha r c =
      .ok (r.candidateTokenIds.take r.accepted ++ [t], { acceptedResult r t with
          policyIdentity := p
          acceptanceIdentity := a }) := by
  obtain ⟨p, hpl⟩ := Option.isSome_iff_exists.mp
    (hh (policyFields r.vocabularySize (acceptedResult r t)))
  obtain ⟨identity, hf⟩ := Option.isSome_iff_exists.mp
    (hh (acceptanceFields (r.candidateTokenIds.take r.accepted ++ [t])
      { acceptedResult r t with policyIdentity := p }))
  have hs := sealRefusal_accepted ha hi
  refine ⟨p, identity, ?_⟩
  simp only [accept, ha, acceptRows_ok hfi, acceptanceSeal, hs, hpl, hf, bind, Except.bind]

theorem acceptanceSeal_inv {v : ℕ} {committed : List ℕ} {res done : AcceptanceResult}
    (hs : acceptanceSeal sha v committed c res = .ok done) :
    ∃ p a, done = { res with
      policyIdentity := p
      acceptanceIdentity := a } := by
  unfold acceptanceSeal at hs
  split at hs
  · cases hs
  split at hs
  · cases hs
  dsimp only at hs
  split at hs
  · cases hs
  · exact ⟨_, _, (Except.ok.inj hs).symm⟩

theorem accept_inv {co : List ℕ} {result : AcceptanceResult}
    (ha : accept sha r c = .ok (co, result)) :
    r.candidateTokenIds.length ≤ maxBlock ∧ co.length = r.accepted + 1 ∧
      result.schemaVersion = 1 ∧ result.acceptedDraftCount = r.accepted ∧
      result.committedCount = r.accepted + 1 := by
  have most : r.accepted ≤ r.candidateTokenIds.length := standing_le
  unfold accept at ha
  cases hh : acceptanceValidate r c with
  | some =>
    rw [hh] at ha
    cases ha
  | none =>
    cases rs : acceptRows r with
    | error => simp [hh, rs, bind, Except.bind] at ha
    | ok hac =>
      obtain ⟨t, -, rfl⟩ := acceptRows_inv rs
      simp only [hh, rs, bind, Except.bind] at ha
      split at ha
      · cases ha
      rename_i hs
      obtain ⟨p, identity, rfl⟩ := acceptanceSeal_inv hs
      cases ha
      refine ⟨(validate_facts hh).1.2.1, ?_, rfl, rfl, rfl⟩
      rw [List.length_append, List.length_take_of_le most]
      rfl

theorem commitPlanBuild_eq {result : AcceptanceResult} {n : ℕ}
    (s : result.schemaVersion = 1) (d : result.acceptedDraftCount = n)
    (hc : result.committedCount = n + 1) (hsm : n ≤ maxBlock)
    (te : ℕ) :
    commitPlanBuild result te =
      if n + 2 < te then
        .error (acceptanceRefuse .invalidArg "speculative commit plan is malformed")
      else if te < n + 2 then
        if te = 0 then
          .error (acceptanceRefuse .state "a terminal conditioning token cannot enter verification")
        else .ok ⟨te, te + 1, true⟩
      else .ok ⟨n + 2, n + 2, false⟩ := by
  have ad : u64Add (n + 1) 1 = some (n + 2) := by
    rw [u64Add_eq_some]
    have : maxBlock + 2 < wordLimit := by decide
    exact ⟨by omega, rfl⟩
  simp only [commitPlanBuild, s, d, hc, ad]
  rw [if_neg (by simp)]

structure AgreesTo (candidates : List ℕ) (targets : ℕ → ℕ) (count : ℕ) : Prop where
  agrees : ∀ i < count, candidates[i]? = some (targets i)
  ends : candidates[count]? ≠ some (targets count)

def targetOnly (choose : List ℕ → ℕ) : List ℕ → ℕ → List ℕ
  | _, 0 => []
  | earlier, count + 1 => choose earlier :: targetOnly choose (earlier ++ [choose earlier]) count

theorem standing_targetOnly {choose : List ℕ → ℕ} {earlier : List ℕ}
    (rows : ∀ row ca, vs.accepts row ca = decide (ca = tg row))
    (hag : ∀ i ≤ cs.length, tg (row + i) = choose (earlier ++ cs.take i)) :
    cs.take (standing vs row cs) ++ [tg (row + standing vs row cs)] =
      targetOnly choose earlier (standing vs row cs + 1) := by
  have h1 : tg row = choose earlier := by simpa using hag 0 (by simp)
  induction cs generalizing row earlier with
  | nil => simp [standing, targetOnly, h1]
  | cons ca re ih =>
    rw [standing]
    split_ifs with ha
    · obtain rfl : ca = tg row := by simpa [rows] using ha
      have hl : ∀ i ≤ re.length, tg (row + 1 + i) = choose (earlier ++ [tg row] ++ re.take i) := by
        intro i hkn
        have := hag (i + 1) (by simpa using hkn)
        simpa [add_assoc, add_comm 1 i] using this
      have next := ih hl (by simpa using hl 0 (by simp))
      rw [targetOnly, ← h1, ← next, List.take_succ_cons, List.cons_append, add_assoc, add_comm 1]
    · simp [targetOnly, h1]

/-- Greedy acceptance commits the common prefix of candidates and targets and the target
behind it, so its tokens are those of the target alone. -/
theorem greedy_acceptance_lossless (sha : Sha256) (request : AcceptanceRequest)
    (targets : ℕ → ℕ) (capacity : ℕ) (kind : request.kind = .greedy)
    (given : request.targetTokenIds = some targets)
    (admitted : acceptanceValidate request capacity = none)
    (hashes : ∀ fields, (sha.digest fields).isSome = true) :
    ∃ count committed result, AgreesTo request.candidateTokenIds targets count ∧
      committed = request.candidateTokenIds.take count ++ [targets count] ∧
      accept sha request capacity = .ok (committed, result) ∧
      result.proposedCount = request.candidateTokenIds.length ∧
      result.acceptedDraftCount = count ∧
      result.acceptedDraftCount + result.rejectedDraftCount = result.proposedCount ∧
      result.committedCount = committed.length ∧
      result.committedCount = result.acceptedDraftCount + 1 ∧
      sealRefusal request.vocabularySize committed capacity result = none ∧
      ∀ choose earlier, (∀ i ≤ request.candidateTokenIds.length,
          targets i = choose (earlier ++ request.candidateTokenIds.take i)) →
        committed = targetOnly choose earlier committed.length := by
  have rows : ∀ row candidate,
      request.verdicts.accepts row candidate = decide (candidate = targets row) := by
    intro row candidate
    simp only [AcceptanceRequest.verdicts, kind, given, greedy, Option.getD_some]
  have most : request.accepted ≤ request.candidateTokenIds.length := standing_le
  have inside := validate_targets kind given admitted most
  have narrow := (validate_facts admitted).2.1.2
  have final : request.verdicts.final request.accepted = some (targets request.accepted) := by
    simp only [AcceptanceRequest.verdicts, kind, given, Option.getD_some]
    rw [if_neg (by omega)]
  obtain ⟨policyIdentity, identity, accepted⟩ := accept_ok admitted final inside hashes
  have length : (request.candidateTokenIds.take request.accepted ++
      [targets request.accepted]).length = request.accepted + 1 := by
    rw [List.length_append, List.length_take_of_le most]
    rfl
  refine ⟨request.accepted, _, _, ⟨fun i known => ?_, fun same => ?_⟩, rfl, accepted, rfl, rfl,
    add_sub_of_le most, length.symm, rfl, sealRefusal_accepted admitted inside, ?_⟩
  · obtain ⟨candidate, found, stands⟩ := (standing_spec i).1 known
    rw [found, zero_add, rows, decide_eq_true_iff] at *
    rw [stands]
  · have stands := (standing_spec request.accepted).2 rfl _ same
    simp [rows] at stands
  · intro choose earlier agrees
    rw [length]
    have first : ∀ i ≤ request.candidateTokenIds.length, targets (0 + i) =
        choose (earlier ++ request.candidateTokenIds.take i) := by simpa using agrees
    have whole := standing_targetOnly rows first
    rw [zero_add] at whole
    exact whole

def pairRequest : AcceptanceRequest where
  schemaVersion := 1
  kind := .greedy
  vocabularySize := 10
  distributionStride := 10
  candidateTokenIds := [5, 6]
  targetTokenIds := some fun row => if row = 0 then 5 else 7
  stochastic := .ok ⟨fun _ _ => false, fun _ => none⟩

/-- The second of two candidates is corrected. -/
theorem greedy_acceptance_lossless_pair :
    ∃ result, accept fixedDigest pairRequest 3 = .ok ([5, 7], result) := by
  obtain ⟨count, committed, result, agrees, rfl, accepted, -⟩ := greedy_acceptance_lossless
    fixedDigest pairRequest (fun row => if row = 0 then 5 else 7) 3 rfl rfl (by decide)
    fun _ => rfl
  obtain rfl : count = 1 := by
    rcases lt_trichotomy count 1 with less | same | more
    · obtain rfl : count = 0 := by omega
      exact absurd rfl agrees.ends
    · exact same
    · exact absurd (agrees.agrees 1 more) (by decide)
  exact ⟨result, accepted⟩

/-- A block of nine agreeing candidates is refused as a whole. -/
theorem long_block_refused :
    accept fixedDigest { pairRequest with
        candidateTokenIds := List.replicate 9 5
        targetTokenIds := some fun _ => 5 } 10 =
      .error (acceptanceRefuse .invalidArg "speculative acceptance geometry is incomplete") := by
  rfl

/-- Where anything is drafted, the anchor, the candidates and the token behind them fit what
remains, and so does every commit plan. -/
theorem extents_never_overrun (blockSize remainingOutput remainingContext count : ℕ)
    (extent : candidateExtent blockSize remainingOutput remainingContext = .ok count)
    (drafted : 0 < count) :
    count + 2 ≤ remainingOutput ∧ count + 2 ≤ remainingContext ∧
    ∀ (sha : Sha256) (request : AcceptanceRequest) (capacity : ℕ) (committed : List ℕ)
      (result : AcceptanceResult), request.candidateTokenIds.length = count →
      accept sha request capacity = .ok (committed, result) →
      1 + committed.length ≤ remainingOutput ∧ 1 + committed.length ≤ remainingContext ∧
      ∀ terminalIndex,
        (0 < terminalIndex → terminalIndex ≤ 1 + committed.length →
          ∃ plan, commitPlanBuild result terminalIndex = .ok plan) ∧
        ∀ plan, commitPlanBuild result terminalIndex = .ok plan →
          plan.statePrefixCount ≤ plan.publicationTokenCount ∧
          plan.publicationTokenCount ≤ 1 + committed.length ∧
          (plan.terminal = true ↔ plan.publicationTokenCount = terminalIndex + 1) ∧
          (plan.terminal = false → plan.publicationTokenCount = 1 + committed.length) := by
  obtain ⟨-, -, room⟩ := candidateExtent_bounds extent
  refine ⟨(room drafted).1, (room drafted).2, ?_⟩
  rintro sha request capacity committed result rfl accepted
  obtain ⟨small, length, schema, drafts, commits⟩ := accept_inv accepted
  have most : request.accepted ≤ request.candidateTokenIds.length := standing_le
  refine ⟨by omega, by omega, fun terminalIndex => ?_⟩
  rw [commitPlanBuild_eq schema drafts commits (most.trans small)]
  constructor
  · intro positive inside
    rw [if_neg (by omega)]
    by_cases terminal : terminalIndex < request.accepted + 2
    · rw [if_pos terminal, if_neg (by omega)]
      exact ⟨_, rfl⟩
    · rw [if_neg terminal]
      exact ⟨_, rfl⟩
  · intro plan built
    split_ifs at built with beyond terminal anchor
    · cases built
      exact ⟨by simp, by simp only; omega, by simp, by simp⟩
    · cases built
      simp only [Bool.false_eq_true, false_iff]
      omega

/-- The pair of candidates fits an output of four tokens, and the plan of its result publishes
all three tokens. -/
theorem extents_never_overrun_pair :
    candidateExtent 2 4 16 = .ok 2 ∧ ∃ committed result plan,
      accept fixedDigest pairRequest 3 = .ok (committed, result) ∧
      commitPlanBuild result 3 = .ok plan ∧ plan.publicationTokenCount ≤ 4 := by
  have ran : ∃ result, accept fixedDigest pairRequest 3 = .ok ([5, 7], result) := ⟨_, rfl⟩
  obtain ⟨result, accepted⟩ := ran
  obtain ⟨fits, -, plans⟩ := (extents_never_overrun 2 4 16 2 rfl (by decide)).2.2 fixedDigest
    pairRequest 3 [5, 7] result rfl accepted
  obtain ⟨plan, built⟩ := (plans 3).1 (by decide) (by decide)
  exact ⟨rfl, [5, 7], result, plan, accepted, built, ((plans 3).2 plan built).2.1.trans fits⟩

/-- With one output token left nothing is drafted, and the anchor and a bonus would not fit. -/
theorem last_token_no_room : ¬ ∀ blockSize remainingOutput remainingContext count,
    candidateExtent blockSize remainingOutput remainingContext = .ok count →
      count + 2 ≤ remainingOutput ∧ count + 2 ≤ remainingContext := by
  intro room
  exact absurd (room 4 1 16 0 rfl).1 (by decide)

end Yvex.AcceptanceSeal
