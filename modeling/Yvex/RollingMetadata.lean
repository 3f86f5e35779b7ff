import Yvex.CandidateDelta
import Yvex.CheckedSteps
import Yvex.HistoryValidate

/-!
# Rolling compression metadata

A rolling state counts the tokens of the open ratio group. The host takes one token
at a time, a projection and a device commit count a whole batch; all of them keep
the counts that the token position determines.
-/

set_option autoImplicit false

namespace Yvex.Candidate

open AttentionData CheckedArithmetic CheckedSteps HistoryValidate Nat

structure Numerics where
  add : Scalar → Scalar → Scalar
  compress : RollingView → Option (ℕ → Scalar)

structure TokenInput where
  kv : ℕ → Scalar
  score : ℕ → Scalar
  apeRow : ℕ → Scalar
  after : RollingView
  compressedOut : Bool
  compressedOutCount : ℕ

def writeRows (rows width stride : ℕ) (value : ℕ → ℕ → Scalar) (old : ℕ → Scalar) : ℕ → Scalar :=
  fun i => if i / stride < rows ∧ i % stride < width then value (i / stride) (i % stride) else old i

def rollingEmit (numerics : Numerics) (state : RollingView) (input : TokenInput) :
    Option (ℕ → Scalar) :=
  if !input.compressedOut ∨ input.compressedOutCount < state.headDimension then none
  else numerics.compress state

def rollingAppend (numerics : Numerics) (before : RollingView) (input : TokenInput) :
    RollingView :=
  let slot := if before.overlap then before.ratio + before.cursor else before.cursor
  let written (source : Pointer Scalar) (sourceStride : ℕ) (row : ℕ → Scalar)
      (target : Pointer Scalar) (stride : ℕ) : Pointer Scalar :=
    .memory (writeRows before.stateSlots before.stateWidth stride
      (fun s lane => if s = slot then row lane else source.read (s * sourceStride + lane))
      target.read)
  { before with
    nextTokenPosition := before.nextTokenPosition + 1
    cursor := (before.cursor + 1) % before.ratio
    currentFill := max before.currentFill (before.cursor + 1)
    kvStateStride := input.after.kvStateStride
    scoreStateStride := input.after.scoreStateStride
    kvStateExtent := input.after.kvStateExtent
    scoreStateExtent := input.after.scoreStateExtent
    kvState := written before.kvState before.kvStateStride input.kv input.after.kvState
      input.after.kvStateStride
    scoreState := written before.scoreState before.scoreStateStride
      (fun lane => numerics.add (input.score lane) (input.apeRow lane)) input.after.scoreState
      input.after.scoreStateStride }

def rollingTurn (after : RollingView) : RollingView :=
  let turned (state : Pointer Scalar) (stride : ℕ) : Pointer Scalar :=
    if after.overlap then .memory (writeRows after.ratio after.stateWidth stride
      (fun s lane => state.read ((after.ratio + s) * stride + lane)) state.read)
    else state
  { after with
    kvState := turned after.kvState after.kvStateStride
    scoreState := turned after.scoreState after.scoreStateStride
    previousFill := if after.overlap then after.ratio else 0
    currentFill := 0
    cursor := 0 }

def rollingStateStepCpu (numerics : Numerics) (layer : LayerPlan) (before : RollingView)
    (input : TokenInput) : Except Refusal (RollingView × Option (ℕ → Scalar)) := do
  let refuse := historyRefusal layer
  rollingStateValidate layer before before.kind
  check (before.nextTokenPosition != wordLimit - 1)
    (refuse (wordLimit - 1) before.nextTokenPosition .bounds
      "DeepSeek attention rolling token position would overflow")
  let geometry ← demand (refuse 1 0 .unsupported
    "DeepSeek attention rolling transition lacks geometry") (rollingGeometry layer before.kind)
  check (!input.after.kvState.isNull && !input.after.scoreState.isNull &&
      decide (geometry.stateWidth ≤ input.after.kvStateStride) &&
      decide (geometry.stateWidth ≤ input.after.scoreStateStride) &&
      extentCovers geometry.stateSlots input.after.kvStateStride input.after.kvStateExtent &&
      extentCovers geometry.stateSlots input.after.scoreStateStride input.after.scoreStateExtent)
    (refuse geometry.stateWidth input.after.kvStateStride .format
      "DeepSeek attention rolling output storage is incomplete")
  checkRows geometry.stateWidth
    (fun lane => !(isFinite (input.kv lane) && isFinite (input.score lane) &&
      isFinite (input.apeRow lane)))
    fun lane => reject .numeric layer.layerIndex 1 lane .format
      "DeepSeek attention rolling transition input is non-finite"
  let after := rollingAppend numerics before input
  if after.cursor ≠ 0 then pure (after, none)
  else do
    let values ← demand (reject .numeric layer.layerIndex geometry.headDimension
      input.compressedOutCount .format
      "DeepSeek attention rolling compression emitted invalid values")
      (rollingEmit numerics after input)
    pure (rollingTurn after, some values)

def rollingSteps (numerics : Numerics) (layer : LayerPlan) :
    RollingView → List TokenInput → Except Refusal (RollingView × List (ℕ → Scalar))
  | before, [] => pure (before, [])
  | before, input :: inputs => do
    let step ← rollingStateStepCpu numerics layer before input
    let rest ← rollingSteps numerics layer step.1 inputs
    pure (rest.1, step.2.toList ++ rest.2)

def cudaRollingCommit (before : RollingView) (tokenPosition tokenCount : ℕ)
    (after : RollingView) : RollingView :=
  if !before.present ∨ tokenCount = 0 then after
  else
    let fill := (List.range tokenCount).foldl (fillStep before.ratio before.overlap tokenPosition)
      ⟨before.cursor, before.previousFill, before.currentFill⟩
    let extent := (u64Mul before.stateWidth before.stateSlots).getD 0
    { before with
      kvState := after.kvState
      scoreState := after.scoreState
      nextTokenPosition := tokenPosition + tokenCount
      previousFill := fill.previousFill
      currentFill := fill.currentFill
      cursor := fill.cursor
      kvStateStride := before.stateWidth
      scoreStateStride := before.stateWidth
      kvStateExtent := extent
      scoreStateExtent := extent }

def fillAt (ratio : ℕ) (overlap : Bool) (position : ℕ) : RollingFill :=
  ⟨position % ratio, if overlap && decide (ratio ≤ position) then ratio else 0, position % ratio⟩

def fillOf (view : RollingView) : RollingFill := ⟨view.cursor, view.previousFill, view.currentFill⟩

def Placed (view : RollingView) : Prop :=
  0 < view.ratio ∧ fillOf view = fillAt view.ratio view.overlap view.nextTokenPosition

section Counts

variable {r : ℕ} (hp : 0 < r)

include hp

/-- One token moves the counts of a position to those of the next one. -/
theorem fillStep_fillAt (o : Bool) (p t : ℕ) :
    fillStep r o p (fillAt r o (p + t)) t = fillAt r o (p + t + 1) := by
  unfold fillStep
  generalize p + t = hh
  have hb := mod_lt hh hp
  have next : (hh % r + 1) % r = (hh + 1) % r := mod_add_mod hh r 1
  by_cases hf : hh % r + 1 = r
  · have zero : (hh + 1) % r = 0 := by rw [← next, hf, mod_self]
    have hl : r ≤ hh + 1 := by
      have least := mod_le hh r
      omega
    simp [fillAt, zero, hl]
  · have m : (hh + 1) % r = hh % r + 1 := by rw [← next, mod_eq_of_lt (by omega)]
    have hs : r ≤ hh + 1 ↔ r ≤ hh := by
      constructor
      · by_contra short
        have heq : hh + 1 = r := by omega
        rw [heq, mod_self] at m
        omega
      · omega
    simp [fillAt, m, hs]

theorem fill_batch (o : Bool) (p n : ℕ) :
    (List.range n).foldl (fillStep r o p) (fillAt r o p) = fillAt r o (p + n) := by
  induction n with
  | zero => rfl
  | succ n ih =>
    rw [List.range_succ, List.foldl_append, ih, List.foldl_cons, List.foldl_nil, fillStep_fillAt hp]
    rfl

end Counts

section Views

variable {l : LayerPlan} {b a : RollingView} {kind : RollingKind}

theorem check_ok {holds : Bool} {re : Refusal} {done : Unit} :
    HistoryValidate.check holds re = .ok done ↔ holds = true := by
  cases holds <;> simp [HistoryValidate.check]

theorem rollingGeometry_ratio {g : RollingGeometry} (hf : rollingGeometry l kind = some g) :
    g.ratio = l.compressionRatio := by
  unfold rollingGeometry at hf
  cases kind with
  | none => simp at hf
  | main =>
    simp only [Option.bind_eq_bind, Option.bind_eq_some_iff, Option.some.injEq] at hf
    obtain ⟨-, -, -, rfl, -, -, -, -, -, -, rfl⟩ := hf
    rfl
  | indexer =>
    simp only [Option.bind_eq_bind, Option.bind_eq_some_iff] at hf
    obtain ⟨-, -, hf⟩ := hf
    split_ifs at hf
    · simp only [Option.bind_eq_some_iff, Option.some.injEq] at hf
      obtain ⟨-, rfl, -, -, -, -, -, -, rfl⟩ := hf
      rfl
    · cases hf

theorem rollingStateValidate_ok (hv : rollingStateValidate l b kind = .ok ()) :
    Placed b ∧ b.present = true ∧ b.ratio = l.compressionRatio := by
  unfold rollingStateValidate at hv
  split_ifs at hv with hab
  split at hv
  · cases hv
  rename_i hf
  simp only [bind_ok, check_ok, exists_const, Bool.and_eq_true, beq_iff_eq, decide_eq_true_eq] at hv
  obtain ⟨⟨⟨⟨⟨⟨⟨-, r⟩, -⟩, -⟩, -⟩, o⟩, -⟩, ⟨⟨⟨hb, -⟩, -⟩, -⟩, ⟨⟨c, hc⟩, p⟩, -⟩ := hv
  rw [← r] at hb c hc p
  rw [← o] at p
  refine ⟨⟨by omega, ?_⟩, by simpa using hab, ?_⟩
  · simp only [fillOf, fillAt, c, hc, p, Bool.and_eq_true, decide_eq_true_eq]
  · exact r.trans (rollingGeometry_ratio hf)

variable {numerics : Numerics}

theorem rollingStateStepCpu_ok {input : TokenInput} {e : Option (ℕ → Scalar)} (hpl : Placed b)
    (hs : rollingStateStepCpu numerics l b input = .ok (a, e)) :
    Placed a ∧ a.nextTokenPosition = b.nextTokenPosition + 1 ∧
      a.ratio = b.ratio ∧ a.overlap = b.overlap ∧
      (b.nextTokenPosition + 1) / b.ratio = b.nextTokenPosition / b.ratio + e.toList.length := by
  simp only [rollingStateStepCpu, bind_ok, check_ok] at hs
  obtain ⟨-, -, -, -, g, -, -, -, -, -, last⟩ := hs
  obtain ⟨hp, counts⟩ := hpl
  have hmv := fillStep_fillAt hp b.overlap b.nextTokenPosition 0
  rw [Nat.add_zero, ← counts, fillStep, Nat.add_zero] at hmv
  have cursor : b.cursor = b.nextTokenPosition % b.ratio := congrArg RollingFill.cursor counts
  have next : (rollingAppend numerics b input).cursor = (b.nextTokenPosition + 1) % b.ratio := by
    simp only [rollingAppend, cursor, Nat.mod_add_mod]
  rw [next] at last
  rw [Nat.succ_div]
  split_ifs at last with more
  · obtain ⟨rfl, rfl⟩ := Prod.mk.inj (pure_ok.mp last)
    rw [if_neg more] at hmv
    rw [if_neg (mt Nat.mod_eq_zero_of_dvd more)]
    exact ⟨⟨hp, hmv⟩, rfl, rfl, rfl, rfl⟩
  · obtain ⟨v, -, last⟩ := bind_ok.mp last
    obtain ⟨rfl, rfl⟩ := Prod.mk.inj (pure_ok.mp last)
    rw [if_pos (not_not.mp more)] at hmv
    rw [if_pos (Nat.dvd_of_mod_eq_zero (not_not.mp more))]
    exact ⟨⟨hp, hmv⟩, rfl, rfl, rfl, rfl⟩

/-- A view that went through some tokens has the counts of its new position, and has emitted a row
for each completed group. -/
theorem rollingSteps_ok {xs : List TokenInput} {rs : List (ℕ → Scalar)} (hpl : Placed b)
    (hh : rollingSteps numerics l b xs = .ok (a, rs)) :
    fillOf a = fillAt b.ratio b.overlap (b.nextTokenPosition + xs.length) ∧
      a.nextTokenPosition = b.nextTokenPosition + xs.length ∧
      (b.nextTokenPosition + xs.length) / b.ratio = b.nextTokenPosition / b.ratio + rs.length := by
  induction xs generalizing b rs with
  | nil =>
    obtain ⟨rfl, rfl⟩ := Prod.mk.inj (pure_ok.mp hh)
    exact ⟨hpl.2, rfl, rfl⟩
  | cons input xs ih =>
    obtain ⟨⟨mid, row⟩, h1, hh⟩ := bind_ok.mp hh
    obtain ⟨⟨last, hos⟩, re, same⟩ := bind_ok.mp hh
    obtain ⟨rfl, rfl⟩ := Prod.mk.inj (pure_ok.mp same)
    obtain ⟨hpc, hmv, r, o, hct⟩ := rollingStateStepCpu_ok hpl h1
    obtain ⟨hf, hs, e⟩ := ih hpc re
    rw [hmv, r] at e
    rw [hmv, r, o] at hf
    rw [hmv] at hs
    rw [List.length_cons, add_comm xs.length, ← add_assoc, List.length_append]
    exact ⟨hf, hs, by rw [e, hct, add_assoc]⟩

end Views

/-- What every implementation leaves behind `count` tokens. -/
theorem rolling_metadata_agree (layer : LayerPlan) (before : RollingView)
    (valid : rollingStateValidate layer before before.kind = .ok ()) (count : ℕ)
    (bounded : before.nextTokenPosition + count < wordLimit) :
    let position := before.nextTokenPosition
    let fill := fillAt before.ratio before.overlap (position + count)
    let growth := (position + count) / before.ratio - position / before.ratio
    (∀ numerics inputs after rows, inputs.length = count →
      rollingSteps numerics layer before inputs = .ok (after, rows) →
      fillOf after = fill ∧ after.nextTokenPosition = position + count ∧ rows.length = growth) ∧
    (∀ kv score, fillOf (rollingProject before kv score count) = fill) ∧
    (0 < count → ∀ output, fillOf (cudaRollingCommit before position count output) = fill) ∧
    (∀ committed, committed.tokenCount = position → ∀ available, growth ≤ available →
      emissionCount committed before count available = some growth) ∧
    (layer.attentionClass ≠ .swa →
      expectedCompressed layer (position + count) =
        expectedCompressed layer position + growth) := by
  obtain ⟨placed, present, ratio⟩ := rollingStateValidate_ok valid
  obtain ⟨positive, counts⟩ := placed
  have batch := fill_batch positive before.overlap before.nextTokenPosition count
  rw [← counts] at batch
  have grown := Nat.div_le_div_right (c := before.ratio)
    (Nat.le_add_right before.nextTokenPosition count)
  refine ⟨?_, fun kv score => batch, ?_, ?_, ?_⟩
  · rintro numerics inputs after rows rfl stepped
    obtain ⟨fills, stands, emitted⟩ := rollingSteps_ok ⟨positive, counts⟩ stepped
    exact ⟨fills, stands, by omega⟩
  · intro some output
    rw [cudaRollingCommit, if_neg (by simp [present, some.ne'])]
    exact batch
  · intro committed same available enough
    have whole : u64Add before.nextTokenPosition count =
        some (before.nextTokenPosition + count) := if_pos bounded
    simp [emissionCount, present, positive.ne', same, whole, guard]
    omega
  · intro compresses
    simp only [expectedCompressed, if_neg compresses, ← ratio]
    omega

def pairLayer : LayerPlan := ⟨0, .mainLayer, .hca, 2, 1, 1, 1, 0, 0, 0, 0, false, false⟩

def halfView : RollingView :=
  ⟨true, 1, .main, .hca, 0, 1, 2, 1, 1, 2, 0, 1, 1, 1, 1, 2, 2, .memory fun _ => 0,
    .memory fun _ => 0, false, false, []⟩

def plainNumerics : Numerics := ⟨fun a _ => a, fun _ => some fun _ => 0⟩

def zeroInput : TokenInput := ⟨fun _ => 0, fun _ => 0, fun _ => 0, halfView, true, 1⟩

theorem rolling_metadata_agree_half :
    ∃ after rows, rollingSteps plainNumerics pairLayer halfView [zeroInput] = .ok (after, rows) ∧
      fillOf after = fillAt 2 false 2 ∧ rows.length = 1 := by
  have agree := (rolling_metadata_agree pairLayer halfView rfl 1 (by decide)).1 plainNumerics
    [zeroInput] _ _ rfl rfl
  exact ⟨_, _, rfl, agree.1, agree.2.2⟩

/-- A commit of no tokens leaves its output as it was. -/
theorem empty_commit_keeps_output :
    ∃ layer before output, rollingStateValidate layer before before.kind = .ok () ∧
      (fillOf (cudaRollingCommit before before.nextTokenPosition 0 output)).cursor ≠
        (fillAt before.ratio before.overlap before.nextTokenPosition).cursor :=
  ⟨pairLayer, halfView, .zero, rfl, by decide⟩

end Yvex.Candidate
