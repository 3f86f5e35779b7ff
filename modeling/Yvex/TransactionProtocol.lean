import Yvex.ExecutionTransaction

/-!
# The protocol of an execution transaction

What a transaction promises over every sequence of calls and every answer of its
callbacks, read off the word of callbacks it has called: quanta in order, one
publication after all of them, one discard otherwise, one release at the close.
-/

set_option autoImplicit false

namespace Yvex.ExecutionTransaction

open AttentionData Runs List

variable (n : ℕ) (done : Bool)

def executions (effects : List Effect) : List (ℕ × Bool) :=
  effects.filterMap fun
    | .executed ordinal ok => some (ordinal, ok)
    | _ => none

def publications (effects : List Effect) : List Bool :=
  effects.filterMap fun
    | .published ok => some ok
    | _ => none

section Cons

variable (k : ℕ) (ok : Bool) (rs : List Effect)

@[simp] theorem executions_published : executions (.published ok :: rs) = executions rs := rfl

@[simp] theorem executions_discarded : executions (.discarded :: rs) = executions rs := rfl

@[simp] theorem publications_nil : publications [] = [] := rfl

@[simp] theorem publications_executed : publications (.executed k ok :: rs) = publications rs := rfl

@[simp] theorem publications_published :
    publications (.published ok :: rs) = ok :: publications rs := rfl

@[simp] theorem publications_discarded : publications (.discarded :: rs) = publications rs := rfl

end Cons

@[simp] theorem executions_append (a b : List Effect) :
    executions (a ++ b) = executions a ++ executions b := filterMap_append

@[simp] theorem publications_append (a b : List Effect) :
    publications (a ++ b) = publications a ++ publications b := filterMap_append

@[simp] theorem executions_ran : executions (ran n) = (List.range n).map fun k => (k, true) := by
  induction n with
  | zero => rfl
  | succ n ih =>
    rw [ran_succ, executions_append, ih, range_succ, map_append]
    rfl

@[simp] theorem publications_ran : publications (ran n) = [] := by
  induction n with
  | zero => rfl
  | succ n ih =>
    rw [ran_succ, publications_append, ih]
    rfl

@[simp] theorem executions_releases (ats : ℕ) (d : Bool) : executions (releases ats d) = [] := by
  induction ats with
  | zero => cases d <;> rfl
  | succ ats ih => exact ih

@[simp] theorem publications_releases (ats : ℕ) (d : Bool) :
    publications (releases ats d) = [] := by
  induction ats with
  | zero => cases d <;> rfl
  | succ ats ih => exact ih

@[simp] theorem count_discarded_ran : (ran n).count .discarded = 0 := by
  rw [count_eq_zero]
  simp [ran]

@[simp] theorem count_released_ran : (ran n).count (.released true) = 0 := by
  rw [count_eq_zero]
  simp [ran]

@[simp] theorem count_discarded_releases (ats : ℕ) (d : Bool) :
    (releases ats d).count .discarded = 0 := by
  cases d <;> simp [releases, given, count_replicate]

@[simp] theorem count_released_releases (ats : ℕ) (d : Bool) :
    (releases ats d).count (.released true) = d.toNat := by
  cases d <;> simp [releases, given, count_replicate]

theorem map_fst_executions :
    ((List.range n).map fun k => (k, true)).map Prod.fst = List.range n := by
  rw [map_map]
  exact map_id _

/-- A list with one marked element can be split at a marked element in one way. -/
theorem split_at_marked {α : Type} {p : α → Prop} {a b be af : List α} {x y : α}
    (ha : ∀ z ∈ a, ¬ p z) (hb : ∀ z ∈ b, ¬ p z) (hy : p y)
    (h : a ++ x :: b = be ++ y :: af) : be = a := by
  rcases append_eq_append_iff.mp h with ⟨_ | ⟨z, r⟩, rfl, ht⟩ | ⟨_ | ⟨z, r⟩, rfl, ht⟩
  · simp
  · have hin : y ∈ b := by simp [(cons.inj ht).2]
    exact absurd hy (hb y hin)
  · simp
  · have hin : y ∈ be ++ z :: r := by simp [(cons.inj ht).1]
    exact absurd hy (ha y hin)

/-- The protocol, said of the callbacks called so far and the state reached. -/
structure Disciplined (options : Options) (world : World) : Prop where
  quanta : ∃ count, count ≤ options.quantumCount ∧
    (executions world.live.effects).map Prod.fst = List.range count
  publishOnce : (publications world.live.effects).length ≤ 1
  publishLast : ∀ before ok after, world.live.effects = before ++ .published ok :: after →
    executions before = (List.range options.quantumCount).map fun ordinal => (ordinal, true)
  publishes : true ∈ publications world.live.effects ↔
    world.live.transaction.state = .committed ∧ options.publish = true
  discardOnce : world.live.effects.count .discarded ≤ 1
  exclusive : world.live.transaction.state = .committed → .discarded ∉ world.live.effects
  discardRuns : world.live.transaction.state = .aborted → options.discard = true →
    .discarded ∈ world.live.effects
  closeEnds : world.closed = true →
    world.live.transaction.state = .committed ∨ world.live.transaction.state = .aborted
  released : world.live.effects.count (.released true) =
    (world.closed && options.resource.isSome).toNat

section Protocol

variable {o : Options} {w : World}

theorem Ongoing.disciplined {n : ℕ} (hh : w.closed = false)
    (hg : Ongoing o w.live n) (few : n ≤ o.quantumCount)
    (hr : w.live.transaction.state ≠ .committed)
    (hr' : w.live.transaction.state ≠ .aborted) : Disciplined o w where
  quanta := by
    refine ⟨n, few, ?_⟩
    rw [hg.effects, executions_ran, map_fst_executions]
  publishOnce := by simp [hg.effects]
  publishLast be ok after split := by
    have hpb : .published ok ∈ w.live.effects := by simp [split]
    rw [hg.effects] at hpb
    simp [ran] at hpb
  publishes := by simp [hg.effects, hr]
  discardOnce := by simp [hg.effects]
  exclusive committed := absurd committed hr
  discardRuns aborted := absurd aborted hr'
  closeEnds closed := by simp [hh] at closed
  released := by simp [hg.effects, hh]

def IsPublished (effect : Effect) : Prop := ∃ ok, effect = .published ok

theorem not_published_ran : ∀ effect ∈ ran n, ¬ IsPublished effect := by
  rintro effect hm ⟨ok, rfl⟩
  simp [ran] at hm

theorem not_published_tail (discards : Bool) (ats : ℕ) (d : Bool) :
    ∀ effect ∈ given discards .discarded ++ releases ats d, ¬ IsPublished effect := by
  rintro effect hm ⟨ok, rfl⟩
  cases discards <;> cases d <;> simp [given, releases] at hm

variable {be : List Effect} {ats : ℕ}

/-- In a word with one publication, all quanta ran before it. -/
theorem executions_before_publication {a : List Effect} {ok ok' : Bool} {d : Bool} {done : Bool}
    (hsp : ran o.quantumCount ++ .published ok' :: (given d .discarded ++ releases ats done) =
      be ++ .published ok :: a) :
    executions be = (List.range o.quantumCount).map fun k => (k, true) := by
  rw [split_at_marked (p := IsPublished) (not_published_ran _) (not_published_tail _ _ _)
    ⟨ok, rfl⟩ hsp, executions_ran]

theorem no_publication {a es : List Effect} {ok : Bool} {P : Prop} (none : publications es = [])
    (hsp : es = be ++ .published ok :: a) : P := by
  rw [hsp, publications_append] at none
  simp [publications] at none

/-- A transaction that ran all its quanta and published has kept the discipline. -/
theorem committed_disciplined (s : w.live.transaction.state = .committed)
    (es : w.live.effects = ran o.quantumCount ++ given o.publish (.published true) ++
      releases ats (w.closed && o.resource.isSome)) :
    Disciplined o w where
  quanta := by
    refine ⟨o.quantumCount, le_rfl, ?_⟩
    rw [← map_fst_executions, es]
    cases o.publish <;> simp [given]
  publishOnce := by
    rw [es]
    cases o.publish <;> simp [given]
  publishLast be ok after split := by
    rw [es] at split
    cases hp : o.publish with
    | false => exact no_publication (by simp [hp, given]) split
    | true =>
      rw [hp, append_assoc] at split
      exact executions_before_publication (d := false) split
  publishes := by
    rw [es, s]
    cases o.publish <;> simp [given]
  discardOnce := by
    rw [es]
    cases o.publish <;> simp [given]
  exclusive _ := by
    rw [es, ← count_eq_zero]
    cases o.publish <;> simp [given]
  discardRuns aborted := by simp [s] at aborted
  closeEnds _ := .inl s
  released := by
    rw [es]
    cases o.publish <;> simp [given]

/-- What was called before a discard: quanta in order, no successful publication,
and nothing released. -/
theorem Cut.facts (h : Cut o be) : (∃ n, n ≤ o.quantumCount ∧
      (executions be).map Prod.fst = List.range n) ∧
    (publications be = [] ∨ be = ran o.quantumCount ++ [.published false]) ∧
    be.count .discarded = 0 ∧ be.count (.released true) = 0 := by
  cases h with
  | between n few =>
    refine ⟨⟨n, few, ?_⟩, .inl (by simp), by simp, by simp⟩
    rw [executions_ran, map_fst_executions]
  | quantum n few =>
    refine ⟨⟨n + 1, few, ?_⟩, .inl (by simp), by simp, by simp⟩
    rw [executions_append, executions_ran, map_append, map_fst_executions, range_succ]
    rfl
  | publication =>
    refine ⟨⟨o.quantumCount, le_rfl, ?_⟩, .inr rfl, by simp, by simp⟩
    rw [executions_append, executions_ran, map_append, map_fst_executions]
    exact append_nil _

/-- A transaction that was cut and discarded has kept the discipline. -/
theorem aborted_disciplined (cut : Cut o be) (s : w.live.transaction.state = .aborted)
    (es : w.live.effects = be ++ given o.discard .discarded ++
      releases ats (w.closed && o.resource.isSome)) :
    Disciplined o w := by
  obtain ⟨⟨n, few, quanta⟩, hpb, undiscarded, unreleased⟩ := cut.facts
  have publications : publications w.live.effects = publications be := by
    rw [es]
    cases o.discard <;> simp [given]
  have discards : w.live.effects.count .discarded = o.discard.toNat := by
    rw [es]
    cases o.discard <;> simp [given, undiscarded]
  refine ⟨⟨n, few, ?_⟩, ?_, ?_, ?_, ?_, ?_, ?_, fun _ => .inr s, ?_⟩
  · rw [es, ← quanta]
    cases o.discard <;> simp [given]
  · rw [publications]
    rcases hpb with none | rfl
    · simp [none]
    · simp
  · intro f ok a hsp
    rcases hpb with none | rfl
    · exact no_publication (publications.trans none) hsp
    · rw [es, append_assoc, append_assoc] at hsp
      exact executions_before_publication hsp
  · rw [publications, s]
    rcases hpb with none | rfl
    · simp [none]
    · simp
  · rw [discards]
    cases o.discard <;> decide
  · intro hcm
    simp [s] at hcm
  · intro _ given
    rw [← count_pos_iff, discards, given]
    decide
  · rw [es]
    cases o.discard <;> simp [given, unreleased]

theorem Shape.disciplined (h : Shape o w) : Disciplined o w := by
  cases h with
  | running n hh s hgo few =>
    apply hgo.disciplined hh few.le <;> rcases s with s | s | s <;> simp [s]
  | ready hh s hgo => exact hgo.disciplined hh le_rfl (by simp [s]) (by simp [s])
  | ended hf done hen ats es =>
    generalize s : w.live.transaction.state = final at hen
    cases hen with
    | committed => exact committed_disciplined s es
    | aborted be cut => exact aborted_disciplined cut s es

/-- The two ends are absorbing. -/
theorem step_ended (c : Call) (he : w.live.transaction.state = .committed ∨
      w.live.transaction.state = .aborted) :
    (w.step c).live.transaction.state = w.live.transaction.state := by
  obtain ⟨hl, hc⟩ := w
  cases hc with
  | true => rfl
  | false =>
    have he : hl.transaction.state = .committed ∨ hl.transaction.state = .aborted := he
    cases c with
    | executeQuantum a ha =>
      cases a with
      | false => rfl
      | true =>
        change (executeQuantum ha hl).state.1.transaction.state = _
        rw [executeQuantum_turnedAway] <;> rcases he with hf | hf <;> simp [hf]
    | resume ha =>
      change (transactionResume ha hl).state.transaction.state = _
      rw [resume_turnedAway]
      rcases he with hf | hf <;> simp [hf]
    | commit ha =>
      change (transactionCommit ha hl).state.transaction.state = _
      rw [commit_turnedAway]
      rcases he with hf | hf <;> simp [hf]
    | abort =>
      change (transactionAbort hl).state.transaction.state = _
      rw [abort_ended he]
    | close ha =>
      change (transactionClose ha hl).state.live.transaction.state = _
      unfold transactionClose
      rw [settled_eq_abort, abort_ended he]
      dsimp only
      split <;> rfl

end Protocol

/-- Every sequence of calls keeps the protocol, and an end is final. -/
theorem transaction_protocol (options : Options) (allocated : Bool) (retain : Option Refusal)
    (live : Live) (opened : transactionOpen options allocated retain = .ok live)
    (calls more : List Call) :
    Disciplined options (run World.step ⟨live, false⟩ calls) ∧
    ((run World.step ⟨live, false⟩ calls).live.transaction.state = .committed ∨
        (run World.step ⟨live, false⟩ calls).live.transaction.state = .aborted →
      (run World.step ⟨live, false⟩ (calls ++ more)).live.transaction.state =
        (run World.step ⟨live, false⟩ calls).live.transaction.state) := by
  have shape : Shape options (run World.step ⟨live, false⟩ calls) :=
    run_invariant (P := Shape options) (fun world call h => shape_step h call)
      (shape_open opened) calls
  refine ⟨shape.disciplined, fun ends => ?_⟩
  rw [run_append]
  refine run_invariant (P := fun world : World => world.live.transaction.state =
    (run World.step ⟨live, false⟩ calls).live.transaction.state)
    (fun world call same => ?_) rfl more
  rw [step_ended call (by rw [same]; exact ends), same]

def pairOptions : Options where
  requestIdentity := some (List.replicate 64 'a')
  quantumCount := 2
  resource := some ⟨some (List.replicate 64 'b'), true, true, true⟩
  execute := true
  cancelRequested := true
  yieldRequested := true
  publish := true
  discard := true

def willing : Answers := ⟨false, false, true, none, none, none⟩

/-- Both quanta with a yield between them, publication and close. -/
theorem transaction_protocol_pair : ∃ live, transactionOpen pairOptions true none = .ok live ∧
      (run World.step ⟨live, false⟩ [.executeQuantum true willing, .resume willing,
        .executeQuantum true willing, .commit willing, .close willing]).live.effects =
          [.executed 0 true, .executed 1 true, .published true, .released true] ∧
      Disciplined pairOptions (run World.step ⟨live, false⟩ [.executeQuantum true willing,
        .resume willing, .executeQuantum true willing, .commit willing, .close willing]) :=
  ⟨_, rfl, by decide, (transaction_protocol pairOptions true none _ rfl _ []).1⟩

end Yvex.ExecutionTransaction
