import Yvex.PowerAlignment

/-!
# Layout of a writer plan

The plan places the tensors one behind the other, each padded to the alignment,
behind the padded structural bytes. A sealed plan carries this layout, so that every
tensor has an interval of its own.
-/

set_option autoImplicit false

namespace Yvex.WriterLayout

open CheckedArithmetic PowerAlignment

structure WriterTensor where
  relativeOffset : ℕ
  absoluteOffset : ℕ
  rawBytes : ℕ
  paddedBytes : ℕ
  absoluteEnd : ℕ
  paddedEnd : ℕ

structure WriterPlan where
  prefixBytes : List UInt8
  tensors : List WriterTensor
  tensorPayloadBytes : ℕ
  finalFileBytes : ℕ

def tensorsBuild (alignment : ℕ) : ℕ → ℕ → List ℕ → Option (List WriterTensor × ℕ × ℕ)
  | relative, payload, [] => some ([], payload, relative)
  | relative, payload, raw :: rest => do
    let rawEnd ← u64Add relative raw
    let paddedEnd ← alignUp rawEnd alignment
    let payload ← u64Add payload raw
    let (tensors, payload, span) ← tensorsBuild alignment paddedEnd payload rest
    return (⟨relative, 0, raw, paddedEnd - relative, 0, paddedEnd⟩ :: tensors, payload, span)

def tensorPlace (dataOffset : ℕ) (tensor : WriterTensor) : Option WriterTensor := do
  let absoluteOffset ← u64Add dataOffset tensor.relativeOffset
  let absoluteEnd ← u64Add absoluteOffset tensor.rawBytes
  let paddedEnd ← u64Add dataOffset tensor.paddedEnd
  return { tensor with
    absoluteOffset := absoluteOffset
    absoluteEnd := absoluteEnd
    paddedEnd := paddedEnd }

def planBuild (structural : List UInt8) (alignment : ℕ) (raws : List ℕ) : Option WriterPlan := do
  let (tensors, payload, span) ← tensorsBuild alignment 0 0 raws
  let dataOffset ← alignUp structural.length alignment
  let final ← u64Add dataOffset span
  let tensors ← tensors.mapM (tensorPlace dataOffset)
  return ⟨structural ++ List.replicate (dataOffset - structural.length) 0, tensors, payload, final⟩

def Laid : ℕ → List WriterTensor → ℕ → Prop
  | start, [], final => final = start
  | start, tensor :: rest, final => tensor.absoluteOffset = start ∧
      tensor.absoluteEnd = start + tensor.rawBytes ∧ tensor.rawBytes ≤ tensor.paddedBytes ∧
      Laid (start + tensor.paddedBytes) rest final

structure SealedPlan extends WriterPlan where
  laid : Laid prefixBytes.length tensors finalFileBytes
  payload : tensorPayloadBytes = (tensors.map WriterTensor.rawBytes).sum

variable {raws : List ℕ} {ts : List WriterTensor}

/-- The built rows lie one behind the other on aligned offsets. -/
theorem tensorsBuild_laid {a relative p t sp offset : ℕ} {placed : List WriterTensor}
    (hb : tensorsBuild a relative p raws = some (ts, t, sp))
    (hp : ts.mapM (tensorPlace offset) = some placed) (hd : a ∣ offset) (hv : a ∣ relative) :
    Laid (offset + relative) placed (offset + sp) ∧ t = p + (placed.map WriterTensor.rawBytes).sum ∧
      placed.map WriterTensor.rawBytes = raws ∧ ∀ t ∈ placed, a ∣ t.absoluteOffset := by
  induction raws generalizing relative p ts placed with
  | nil =>
    cases hb
    cases hp
    exact ⟨rfl, rfl, rfl, by simp⟩
  | cons raw r ih =>
    simp only [tensorsBuild, Option.bind_eq_bind, Option.bind_eq_some_iff, u64Add_eq_some] at hb
    obtain ⟨rawEnd, ⟨-, rfl⟩, pd, ha, sum, ⟨-, rfl⟩, ⟨hos, total', span'⟩, hl, he⟩ := hb
    cases he
    obtain ⟨above, -, aligned, -⟩ := alignUp_least ha
    rw [List.mapM_cons] at hp
    simp only [Option.bind_eq_bind, Option.bind_eq_some_iff, tensorPlace, u64Add_eq_some] at hp
    obtain ⟨h1, ⟨s, ⟨-, rfl⟩, stop, ⟨-, rfl⟩, padded, ⟨-, rfl⟩, he⟩, hbh, rows, he'⟩ := hp
    cases he
    cases he'
    obtain ⟨laid, total, raws, all⟩ := ih hl rows aligned
    refine ⟨⟨rfl, rfl, ?_, ?_⟩, ?_, ?_, List.forall_mem_cons.mpr ⟨hd.add hv, all⟩⟩
    · dsimp only
      omega
    · have next : offset + relative + (pd - relative) = offset + pd := by omega
      rw [next]
      exact laid
    · rw [total, List.map_cons, List.sum_cons, Nat.add_assoc]
    · rw [List.map_cons, raws]

/-- A built plan can be sealed. Its tensors have the sizes asked for, in this order, and
begin at multiples of the alignment. -/
theorem planBuild_sealed {structural : List UInt8} {alignment : ℕ} {plan : WriterPlan}
    (built : planBuild structural alignment raws = some plan) :
    (∃ done : SealedPlan, done.toWriterPlan = plan) ∧
      plan.tensors.map WriterTensor.rawBytes = raws ∧
      ∀ tensor ∈ plan.tensors, alignment ∣ tensor.absoluteOffset := by
  simp only [planBuild, Option.bind_eq_bind, Option.bind_eq_some_iff, u64Add_eq_some] at built
  obtain ⟨⟨ts, payload, span⟩, rows, offset, behind, final, ⟨-, rfl⟩, placed, all, he⟩ := built
  cases he
  obtain ⟨above, -, aligned, -⟩ := alignUp_least behind
  obtain ⟨laid, sum, rest⟩ := tensorsBuild_laid rows all aligned (dvd_zero _)
  have n : (structural ++ List.replicate (offset - structural.length) 0).length = offset := by
    rw [List.length_append, List.length_replicate]
    omega
  refine ⟨⟨⟨⟨_, placed, payload, offset + span⟩, ?_, ?_⟩, rfl⟩, rest⟩
  · rw [n]
    exact laid
  · rw [sum, Nat.zero_add]

theorem planBuild_sealed_pair : ∃ plan, planBuild [1] 4 [3, 5] = some plan ∧
    ∃ done : SealedPlan, done.toWriterPlan = plan :=
  have built : planBuild [1] 4 [3, 5] = some _ := rfl
  ⟨_, built, (planBuild_sealed built).1⟩

theorem laid_le {s final : ℕ} (hl : Laid s ts final) : s ≤ final := by
  induction ts generalizing s with
  | nil => exact hl.ge
  | cons t r ih => exact (Nat.le_add_right _ _).trans (ih hl.2.2.2)

variable {t : WriterTensor}

theorem laid_bounds {s final k : ℕ} (laid : Laid s ts final) (hf : ts[k]? = some t) :
    s ≤ t.absoluteOffset ∧ t.absoluteEnd = t.absoluteOffset + t.rawBytes ∧
      t.rawBytes ≤ t.paddedBytes ∧
      t.absoluteOffset + t.paddedBytes ≤ final := by
  induction ts generalizing s k with
  | nil => simp at hf
  | cons f r ih =>
    obtain ⟨o, stop, hp, hl⟩ := laid
    cases k with
    | zero =>
      cases hf
      refine ⟨o.ge, by omega, hp, ?_⟩
      rw [o]
      exact laid_le hl
    | succ =>
      obtain ⟨ha, hfc⟩ := ih hl hf
      exact ⟨(Nat.le_add_right _ _).trans ha, hfc⟩

/-- An earlier tensor ends, padding included, where no later one has begun. -/
theorem laid_apart {s final f se : ℕ} {right : WriterTensor} (laid : Laid s ts final)
    (hf : ts[f]? = some t) (hfn : ts[se]? = some right)
    (order : f < se) : t.absoluteOffset + t.paddedBytes ≤ right.absoluteOffset := by
  induction ts generalizing s f se with
  | nil => simp at hf
  | cons row r ih =>
    obtain ⟨o, -, -, hl⟩ := laid
    cases se with
    | zero => omega
    | succ se =>
      cases f with
      | zero =>
        cases hf
        rw [o]
        exact (laid_bounds hl hfn).1
      | succ f => exact ih hl hf hfn (by omega)

end Yvex.WriterLayout
