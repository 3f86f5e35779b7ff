import Mathlib.Tactic

/-!
# Two-phase resolution of several participants

Every participant is prepared in order until one refuses. If none does, all are
published, which cannot fail. Otherwise all are aborted in reverse order, those
never prepared included, and a refused abort does not stop the others. The trace
records each call and whether it was refused, so that how often and in which
order a participant was called is a statement about a list.
-/

set_option autoImplicit false

namespace Yvex.TwoPhase

open List

variable {ι ε ω : Type}

structure Participant (ε ω : Type) where
  prepare : ω → Option ε × ω
  publish : ω → ω
  abort : ω → Option ε × ω

inductive Call (ι : Type) where
  | prepare (name : ι) (refused : Bool)
  | publish (name : ι)
  | abort (name : ι) (refused : Bool)
  deriving DecidableEq, Repr

abbrev Named (ι ε ω : Type) := ι × Participant ε ω

structure Result (ι ε ω : Type) where
  error : Option ε
  abortFailed : Bool
  world : ω
  trace : List (Call ι)

def prepareAll : List (Named ι ε ω) → ω → Option ε × ω × List (Call ι)
  | [], world => (none, world, [])
  | (name, participant) :: rest, world =>
    match participant.prepare world with
    | (some e, world) => (some e, world, [.prepare name true])
    | (none, world) =>
      let (error, world, trace) := prepareAll rest world
      (error, world, .prepare name false :: trace)

def publishAll : List (Named ι ε ω) → ω → ω × List (Call ι)
  | [], world => (world, [])
  | (name, participant) :: rest, world =>
    let (world, trace) := publishAll rest (participant.publish world)
    (world, .publish name :: trace)

def abortAll : List (Named ι ε ω) → ω → Option ε × ω × List (Call ι)
  | [], world => (none, world, [])
  | (name, participant) :: rest, world =>
    let (first, world) := participant.abort world
    let (later, world, trace) := abortAll rest world
    (first.or later, world, .abort name first.isSome :: trace)

def rollBack (participants : List (Named ι ε ω)) (error : ε) (world : ω)
    (trace : List (Call ι)) : Result ι ε ω :=
  let (failure, world, aborts) := abortAll participants.reverse world
  ⟨some (failure.getD error), failure.isSome, world, trace ++ aborts⟩

def resolve (participants : List (Named ι ε ω)) (status : Option ε) (world : ω) :
    Result ι ε ω :=
  match status with
  | some error => rollBack participants error world []
  | none =>
    match prepareAll participants world with
    | (some error, world, trace) => rollBack participants error world trace
    | (none, world, trace) =>
      let (world, publishes) := publishAll participants world
      ⟨none, false, world, trace ++ publishes⟩

section Trace

def PreparedOf (p : Named ι ε ω) (call : Call ι) : Prop := ∃ refused, call = .prepare p.1 refused

def AbortedOf (p : Named ι ε ω) (call : Call ι) : Prop := ∃ refused, call = .abort p.1 refused

/-- What a resolution can do: publish everyone once after every preparation was
accepted, or publish no one and abort everyone once, last participant first. -/
inductive Outcome (participants : List (Named ι ε ω)) (error : Option ε)
    (trace : List (Call ι)) : Prop where
  | published (accepted : error = none)
      (calls : trace = (participants.map fun p => Call.prepare p.1 false) ++
        participants.map fun p => Call.publish p.1)
  | aborted (failed : error.isSome = true) (count : ℕ) (prepares aborts : List (Call ι))
      (calls : trace = prepares ++ aborts)
      (started : List.Forall₂ PreparedOf (participants.take count) prepares)
      (undone : List.Forall₂ AbortedOf participants.reverse aborts)

variable {ps : List (Named ι ε ω)} {wd : ω}

theorem prepareAll_trace_of_done (h : (prepareAll ps wd).1 = none) :
    (prepareAll ps wd).2.2 = ps.map fun p => .prepare p.1 false := by
  induction ps generalizing wd with
  | nil => rfl
  | cons head r ih =>
    obtain ⟨name, pt⟩ := head
    simp only [prepareAll] at h ⊢
    cases hp : pt.prepare wd with
    | mk err =>
      cases err with
      | some => simp [hp] at h
      | none =>
        simp only [hp] at h ⊢
        simp [ih h]

theorem prepareAll_trace_take (ps : List (Named ι ε ω)) (wd : ω) :
    ∃ n, List.Forall₂ PreparedOf (ps.take n) (prepareAll ps wd).2.2 := by
  induction ps generalizing wd with
  | nil => exact ⟨0, .nil⟩
  | cons head r ih =>
    obtain ⟨name, pt⟩ := head
    simp only [prepareAll]
    cases hp : pt.prepare wd with
    | mk err next =>
      cases err with
      | some => exact ⟨1, .cons ⟨true, rfl⟩ (by simp)⟩
      | none =>
        obtain ⟨n, h⟩ := ih next
        exact ⟨n + 1, .cons ⟨false, rfl⟩ h⟩

theorem publishAll_trace (ps : List (Named ι ε ω)) (wd : ω) :
    (publishAll ps wd).2 = ps.map fun p => .publish p.1 := by
  induction ps generalizing wd with
  | nil => rfl
  | cons head r ih =>
    simp only [publishAll, map_cons]
    rw [ih]

theorem abortAll_trace (ps : List (Named ι ε ω)) (wd : ω) :
    List.Forall₂ AbortedOf ps (abortAll ps wd).2.2 := by
  induction ps generalizing wd with
  | nil => exact .nil
  | cons head r ih => exact .cons ⟨_, rfl⟩ (ih _)

theorem abortAll_failed_of_refused {name : ι} (h : Call.abort name true ∈ (abortAll ps wd).2.2) :
    (abortAll ps wd).1.isSome = true := by
  induction ps generalizing wd with
  | nil => simp [abortAll] at h
  | cons head r ih =>
    simp only [abortAll, mem_cons, Call.abort.injEq] at h ⊢
    rcases h with ⟨_, h1⟩ | hl
    · simp [Option.isSome_or, ← h1]
    · simp [Option.isSome_or, ih hl]

theorem rollBack_outcome (ps : List (Named ι ε ω)) (e : ε) (wd : ω) {t : List (Call ι)} (n : ℕ)
    (h : List.Forall₂ PreparedOf (ps.take n) t) :
    Outcome ps (rollBack ps e wd t).error (rollBack ps e wd t).trace :=
  .aborted rfl n t _ rfl h (abortAll_trace _ _)

/-- All participants are prepared and published, or all are aborted in reverse order. -/
theorem resolve_outcome (ps : List (Named ι ε ω)) (st : Option ε) (wd : ω) :
    Outcome ps (resolve ps st wd).error (resolve ps st wd).trace := by
  cases st with
  | some e => exact rollBack_outcome ps e wd 0 (by simp)
  | none =>
    obtain ⟨n, hs⟩ := prepareAll_trace_take ps wd
    have hcm := @prepareAll_trace_of_done _ _ _ ps wd
    simp only [resolve]
    cases hp : prepareAll ps wd with
    | mk e r =>
      obtain ⟨next, t⟩ := r
      rw [hp] at hs hcm
      cases e with
      | some e => exact rollBack_outcome ps e next n hs
      | none =>
        have hc : t = ps.map fun p => Call.prepare p.1 false := hcm rfl
        refine .published rfl ?_
        simp only [publishAll_trace, hc]

theorem not_abort_of_prepared {c : List (Call ι)}
    (h : List.Forall₂ PreparedOf ps c) (name : ι) (refused : Bool) :
    Call.abort name refused ∉ c := by
  induction h with
  | nil => simp
  | cons head _ ih =>
    obtain ⟨r, rfl⟩ := head
    simp [ih]

variable {st : Option ε}

/-- A refused abort is always reported. -/
theorem resolve_abortFailed {nm : ι} (h : Call.abort nm true ∈ (resolve ps st wd).trace) :
    (resolve ps st wd).abortFailed = true := by
  cases st with
  | some => exact abortAll_failed_of_refused h
  | none =>
    obtain ⟨n, hs⟩ := prepareAll_trace_take ps wd
    simp only [resolve] at h ⊢
    cases hp : prepareAll ps wd with
    | mk e =>
      rw [hp] at hs
      have hab := not_abort_of_prepared hs nm true
      cases e with
      | some =>
        simp only [hp, rollBack, mem_append, hab, false_or] at h ⊢
        exact abortAll_failed_of_refused h
      | none => simp [hp, publishAll_trace, hab] at h

theorem resolve_error_of_abortFailed (h : (resolve ps st wd).abortFailed = true) :
    (resolve ps st wd).error.isSome = true := by
  cases st with
  | some => rfl
  | none =>
    simp only [resolve] at h ⊢
    split
    · rfl
    · rename_i hpb
      simp [hpb] at h

end Trace

section Settling

structure Keeps (participant : Participant ε ω) (P : ω → Prop) : Prop where
  prepare : ∀ w, P w → P (participant.prepare w).2
  publish : ∀ w, P w → P (participant.publish w)
  abort : ∀ w, P w → P (participant.abort w).2

structure Tracks (participant : Participant ε ω) (Live Ready Settled : ω → Prop) : Prop where
  prepare_live : ∀ w, Live w → Live (participant.prepare w).2
  prepare_ready : ∀ w, Live w → (participant.prepare w).1 = none →
    Ready (participant.prepare w).2
  publish_settled : ∀ w, Ready w → Settled (participant.publish w)
  abort_settled : ∀ w, Live w → (participant.abort w).1 = none →
    Settled (participant.abort w).2

variable {P Live Ready Settled : ω → Prop} {ps : List (Named ι ε ω)} {wd : ω}

theorem prepareAll_keeps (h : ∀ p ∈ ps, ∀ w, P w → P (p.2.prepare w).2) (hw : P wd) :
    P (prepareAll ps wd).2.1 := by
  induction ps generalizing wd with
  | nil => exact hw
  | cons hd r ih =>
    have next := h hd (by simp) wd hw
    obtain ⟨name, pt⟩ := hd
    simp only [prepareAll]
    cases hp : pt.prepare wd with
    | mk err =>
      rw [hp] at next
      cases err with
      | some => exact next
      | none => exact ih (fun p hm => h p (by simp [hm])) next

theorem publishAll_keeps {ps : List (Named ι ε ω)}
    (h : ∀ p ∈ ps, Keeps p.2 P) {wd : ω} (hw : P wd) :
    P (publishAll ps wd).1 := by
  induction ps generalizing wd with
  | nil => exact hw
  | cons head r ih => exact ih (fun p hm => h p (by simp [hm])) ((h head (by simp)).publish wd hw)

theorem abortAll_keeps (h : ∀ p ∈ ps, Keeps p.2 P) (hw : P wd) : P (abortAll ps wd).2.1 := by
  induction ps generalizing wd with
  | nil => exact hw
  | cons head r ih => exact ih (fun p hm => h p (by simp [hm])) ((h head (by simp)).abort wd hw)

variable {b a : List (Named ι ε ω)} {name : ι} {pt : Participant ε ω}

/-- Once all are prepared, each participant with work is ready to publish. -/
theorem prepareAll_ready (ht : Tracks pt Live Ready Settled)
    (hl : ∀ p ∈ b, Keeps p.2 Live) (hr : ∀ p ∈ a, Keeps p.2 Ready) (hw : Live wd)
    (d : (prepareAll (b ++ (name, pt) :: a) wd).1 = none) :
    Ready (prepareAll (b ++ (name, pt) :: a) wd).2.1 := by
  induction b generalizing wd with
  | nil =>
    have own := ht.prepare_ready wd hw
    simp only [nil_append, prepareAll] at d ⊢
    cases hp : pt.prepare wd with
    | mk err =>
      rw [hp] at own
      cases err with
      | some => simp [hp] at d
      | none => exact prepareAll_keeps (fun p hm => (hr p hm).prepare) (own rfl)
  | cons h r ih =>
    have next := (hl h (by simp)).prepare wd hw
    obtain ⟨o, b⟩ := h
    simp only [cons_append, prepareAll] at d ⊢
    cases hp : b.prepare wd with
    | mk err =>
      rw [hp] at next
      cases err with
      | some => simp [hp] at d
      | none =>
        simp only [hp] at d ⊢
        exact ih (fun p hm => hl p (by simp [hm])) next d

theorem publishAll_settled (ht : Tracks pt Live Ready Settled)
    (hr : ∀ p ∈ b, Keeps p.2 Ready) (hs : ∀ p ∈ a, Keeps p.2 Settled)
    {wd : ω} (hw : Ready wd) :
    Settled (publishAll (b ++ (name, pt) :: a) wd).1 := by
  induction b generalizing wd with
  | nil => exact publishAll_keeps hs (ht.publish_settled wd hw)
  | cons head r ih => exact ih (fun p hm => hr p (by simp [hm])) ((hr head (by simp)).publish wd hw)

theorem abortAll_settled (ht : Tracks pt Live Ready Settled)
    (hli : ∀ p ∈ b, Keeps p.2 Live) (hs : ∀ p ∈ a, Keeps p.2 Settled) (hw : Live wd) :
    Settled (abortAll (b ++ (name, pt) :: a) wd).2.1 ∨
      Call.abort name true ∈ (abortAll (b ++ (name, pt) :: a) wd).2.2 := by
  induction b generalizing wd with
  | nil =>
    simp only [nil_append, abortAll, mem_cons, Call.abort.injEq, true_and]
    cases ha : (pt.abort wd).1 with
    | some => exact .inr (.inl rfl)
    | none => exact .inl (abortAll_keeps hs (ht.abort_settled wd hw ha))
  | cons head r ih =>
    have hl := ih (fun p hm => hli p (by simp [hm])) ((hli head (by simp)).abort wd hw)
    exact hl.imp id fun h => mem_cons_of_mem _ h

/-- A participant with work to do ends settled, unless its own abort was refused. -/
theorem resolve_settles (n : ι) (ht : Tracks pt Live Ready Settled)
    (hl : ∀ p ∈ b ++ a, Keeps p.2 Live)
    (hr : ∀ p ∈ b ++ a, Keeps p.2 Ready)
    (hs : ∀ p ∈ b ++ a, Keeps p.2 Settled)
    (st : Option ε) (hw : Live wd) :
    Settled (resolve (b ++ (n, pt) :: a) st wd).world ∨ Call.abort n true ∈
        (resolve (b ++ (n, pt) :: a) st wd).trace := by
  have hu : ∀ w, Live w → Settled (abortAll (b ++ (n, pt) :: a).reverse w).2.1 ∨
        Call.abort n true ∈ (abortAll (b ++ (n, pt) :: a).reverse w).2.2 := by
    intro w live_w
    simp only [reverse_append, reverse_cons, append_assoc, singleton_append]
    exact abortAll_settled ht (fun p hm => hl p (by simp_all))
      (fun p hm => hs p (by simp_all)) live_w
  cases st with
  | some => exact hu wd hw
  | none =>
    have prepared_live : Live (prepareAll (b ++ (n, pt) :: a) wd).2.1 := by
      refine prepareAll_keeps (fun p hm => ?_) hw
      rcases mem_append.mp hm with hb | hc
      · exact (hl p (by simp [hb])).prepare
      · rcases mem_cons.mp hc with rfl | ha
        · exact ht.prepare_live
        · exact (hl p (by simp [ha])).prepare
    have prepared_ready : (prepareAll (b ++ (n, pt) :: a) wd).1 = none →
          Ready (prepareAll (b ++ (n, pt) :: a) wd).2.1 :=
      prepareAll_ready ht (fun p hm => hl p (by simp [hm])) (fun p hm => hr p (by simp [hm])) hw
    simp only [resolve]
    cases hp : prepareAll (b ++ (n, pt) :: a) wd with
    | mk e r =>
      rw [hp] at prepared_live prepared_ready
      cases e with
      | some => exact (hu r.1 prepared_live).imp id fun h => mem_append_right _ h
      | none =>
        exact .inl (publishAll_settled ht (fun p hm => hr p (by simp [hm]))
          (fun p hm => hs p (by simp [hm])) (prepared_ready rfl))

end Settling

end Yvex.TwoPhase
