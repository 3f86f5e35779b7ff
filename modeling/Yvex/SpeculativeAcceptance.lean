import Yvex.AttentionData

/-!
# Acceptance of drafted tokens

A sweep of the target over the drafted candidates decides, row by row, whether a candidate
stands. The first row that rejects ends the committed tokens with its correction; when no
row rejects, the last row adds a bonus token.
-/

set_option autoImplicit false

namespace Yvex.SpeculativeAcceptance

open AttentionData

def maxBlock : ℕ := 8

structure Verdicts where
  accepts : ℕ → ℕ → Bool
  final : ℕ → Option ℕ

def greedy (targets : ℕ → ℕ) : Verdicts where
  accepts row candidate := candidate = targets row
  final row := some (targets row)

def acceptFrom (verdicts : Verdicts) (row : ℕ) : List ℕ → Option (List ℕ)
  | [] => (verdicts.final row).map ([·])
  | candidate :: rest =>
    if verdicts.accepts row candidate then
      (acceptFrom verdicts (row + 1) rest).map (candidate :: ·)
    else (verdicts.final row).map ([·])

def accept (verdicts : Verdicts) (candidates : List ℕ) : Option (List ℕ) :=
  acceptFrom verdicts 0 candidates

def candidateExtent (blockSize remainingOutput remainingContext : ℕ) : Except Status ℕ :=
  if blockSize = 0 ∨ maxBlock < blockSize ∨ remainingOutput = 0 ∨ remainingContext = 0 then
    .error .invalidArg
  else if remainingOutput ≤ 2 ∨ remainingContext ≤ 2 then .ok 0
  else .ok (min (min blockSize (remainingOutput - 2)) (remainingContext - 2))

/-- The drafted candidates leave room for the anchor and a bonus token. -/
theorem candidateExtent_bounds {b re r n : ℕ} (e : candidateExtent b re r = .ok n) :
    0 < re ∧ 0 < r ∧ (0 < n → n + 2 ≤ re ∧ n + 2 ≤ r) := by
  unfold candidateExtent at e
  split_ifs at e with hr hsh
  · cases e
    omega
  · cases e
    omega

theorem acceptFrom_length {vs : Verdicts} {row : ℕ} {cs committed : List ℕ}
    (ha : acceptFrom vs row cs = some committed) :
    committed.length ≤ cs.length + 1 := by
  induction cs generalizing row committed with
  | nil =>
    obtain ⟨t, -, rfl⟩ := Option.map_eq_some_iff.mp ha
    simp
  | cons c r ih =>
    rw [acceptFrom] at ha
    split_ifs at ha
    · obtain ⟨l, f, rfl⟩ := Option.map_eq_some_iff.mp ha
      have := ih f
      simp only [List.length_cons]
      omega
    · obtain ⟨t, -, rfl⟩ := Option.map_eq_some_iff.mp ha
      simp

end Yvex.SpeculativeAcceptance
