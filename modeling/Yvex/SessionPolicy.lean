import Yvex.PrefixReuse
import Yvex.RefusableStep
import Yvex.Runs

/-!
# The sampling policy of a session

A session is bound to the policy of its first generation. A prompt that does not
extend the committed tokens rebuilds the session's physical state, and the rebuild
forgets the policy before the turn's own policy is compared with it.
-/

set_option autoImplicit false

namespace Yvex.SessionPolicy

open PrefixReuse RefusableStep Runs

variable {Identity : Type}

structure Bound (Identity : Type) where
  session : Session
  policy : Option Identity
  generation : Option Identity
  pendingCheckpoint : Bool
  started : List Identity

structure Answers where
  calls : Call → Bool
  checkpointRestored : Bool
  contextClosed : Bool

section Turn

variable [DecidableEq Identity] (a : Answers) (policy : Identity) (prompt : List UInt32)
  (s : Bound Identity)

def sessionGenerationOpen : Outcome Unit (Bound Identity) :=
  if s.policy.any (· ≠ policy) then .refused () s
  else if s.generation.isSome then .done s
  else if a.calls .generationOpen = false then .refused () s
  else if s.pendingCheckpoint && !a.checkpointRestored then
    .refused () { s with generation := if a.contextClosed then none else some policy }
  else .done { s with generation := some policy, policy := some policy, pendingCheckpoint := false }

def sessionExecutionRebase : Outcome Unit (Bound Identity) :=
  match PrefixReuse.sessionExecutionRebase a.calls s.session with
  | .ok t => .done { s with
      session := t, policy := none, generation := none, pendingCheckpoint := false }
  | .error _ => .refused () { s with
      session := { s.session with state := .failed }
      generation := if a.calls .generationClose then none else s.generation }

def reuseOrRebuild : Outcome Unit (Bound Identity) :=
  if s.session.committedTokens = [] then .done s
  else if a.calls .encodePrompt = false then .refused () s
  else if sessionPromptExtendsPrefix s.session prompt then .done s
  else sessionExecutionRebase a s

def idle : Bool := s.session.state = .ready || s.session.state = .detached

def sessionTurn : Outcome Unit (Bound Identity) :=
  if !(a.calls .request && idle s) then .refused () s
  else (reuseOrRebuild a prompt s).andThen fun t =>
    (sessionGenerationOpen a policy t).andThen fun u =>
      if a.calls .turnOpen then .done u else .refused () u

end Turn

inductive Event (Identity : Type) where
  | turn (a : Answers) (policy : Identity) (prompt : List UInt32) (left : Session)
  | attach | detach | save

def step [DecidableEq Identity] (s : Bound Identity) : Event Identity → Bound Identity
  | .turn a policy prompt left =>
    match sessionTurn a policy prompt s with
    | .done t => { t with session := left, started := t.generation.toList ++ t.started }
    | .refused _ t => t
  | .attach => { s with session := { s.session with
      attachedClients := s.session.attachedClients + 1
      state := if s.session.state = .detached then .ready else s.session.state } }
  | .detach => { s with session := { s.session with
      attachedClients := s.session.attachedClients - 1
      state := if s.session.attachedClients ≤ 1 ∧ s.session.state = .ready then .detached
        else s.session.state } }
  | .save => s

def Extending (s : Bound Identity) : Event Identity → Prop
  | .turn _ _ prompt _ => s.session.committedTokens <+: prompt
  | _ => True

structure Coherent (s : Bound Identity) : Prop where
  generation : ∀ p ∈ s.generation, s.policy = some p
  pending : s.pendingCheckpoint = true → s.policy ≠ none
  started : ∀ p ∈ s.started, s.policy = some p

section

variable {a : Answers} {p : Identity} {prompt : List UInt32} {s : Bound Identity}

theorem reuse_extends (a : Answers) (hx : s.session.committedTokens <+: prompt) :
    reuseOrRebuild a prompt s = .done s ∨ reuseOrRebuild a prompt s = .refused () s := by
  unfold reuseOrRebuild
  split_ifs with h1 h2 h3
  · exact .inl rfl
  · exact .inr rfl
  · exact .inl rfl
  · exact absurd (extends_iff.mpr hx) h3

variable [DecidableEq Identity]

theorem Coherent.opened (hc : Coherent s) :
    (sessionGenerationOpen a p s).Ensures (fun t => Coherent t ∧ t.generation = t.policy)
      Coherent := by
  unfold sessionGenerationOpen
  split_ifs with hp hg _ hr hl
  · exact hc
  · obtain ⟨q, hq⟩ := Option.isSome_iff_exists.mp hg
    exact ⟨hc, hq.trans (hc.generation q hq).symm⟩
  · exact hc
  · exact ⟨nofun, hc.pending, hc.started⟩
  · -- Only a session restored with its policy has a checkpoint to restore.
    obtain ⟨q, hq⟩ := Option.ne_none_iff_exists'.mp (hc.pending (by simp_all))
    refine ⟨fun r hr' => ?_, hc.pending, hc.started⟩
    simp_all
  · refine ⟨⟨fun r hr' => hr', nofun, fun q hq => ?_⟩, rfl⟩
    have := hc.started q hq
    simp_all

theorem Coherent.turn (hc : Coherent s) (hx : s.session.committedTokens <+: prompt) :
    (sessionTurn a p prompt s).Ensures (fun t => Coherent t ∧ t.generation = t.policy)
      Coherent := by
  unfold sessionTurn
  split
  · exact hc
  rcases reuse_extends a hx with h | h <;> rw [h]
  · refine Outcome.Ensures.andThen (o := sessionGenerationOpen a p s) hc.opened fun u hu => ?_
    split_ifs
    · exact hu
    · exact hu.1
  · exact hc

/-- Operations that extend the committed tokens keep all generations on one policy. -/
theorem Coherent.step {e : Event Identity} (hc : Coherent s) (hx : Extending s e) :
    Coherent (step s e) := by
  cases e with
  | turn a p prompt left =>
    have ht := hc.turn (a := a) (p := p) hx
    simp only [SessionPolicy.step]
    split
    · next t h =>
      obtain ⟨ht, hg⟩ := ht.of_done h
      refine ⟨ht.generation, ht.pending, fun q hq => ?_⟩
      rcases List.mem_append.mp hq with hq | hq
      · exact ht.generation q (Option.mem_toList.mp hq)
      · exact ht.started q hq
    · next h => exact ht.of_refused h
  | _ => exact ⟨hc.generation, hc.pending, hc.started⟩

/-- While every prompt extends the committed tokens, all generations use one policy. A turn
that asks for another policy than the bound one is sure to be refused without effect exactly
when the session takes no turn or its prompt extends the committed tokens. -/
theorem session_policy_immutable (Identity : Type) [DecidableEq Identity] :
    (∀ (s : Bound Identity) events, Coherent s → Along step Extending s events →
      ∀ p ∈ (run step s events).started, (run step s events).policy = some p) ∧
    ∀ (s : Bound Identity) b p prompt, s.policy = some b → p ≠ b →
      ((∀ a, sessionTurn a p prompt s = .refused () s) ↔
        idle s = false ∨ s.session.committedTokens <+: prompt) := by
  refine ⟨fun s events hc hx => (run_invariant_along (fun _ _ h => h.step) hc hx).started,
    fun s b p prompt hb hp => ⟨fun h => ?_, fun h a => ?_⟩⟩
  · by_contra hn
    obtain ⟨hi, hx⟩ := not_or.mp hn
    have hne : s.session.committedTokens ≠ [] := fun h0 => hx (h0 ▸ List.nil_prefix)
    have ht := h ⟨fun _ => true, true, true⟩
    simp_all [sessionTurn, reuseOrRebuild, ← extends_iff, sessionExecutionRebase,
      PrefixReuse.sessionExecutionRebase, sessionGenerationOpen]
  · have ho : sessionGenerationOpen a p s = .refused () s := by
      simp [sessionGenerationOpen, hb, hp.symm]
    unfold sessionTurn
    rcases h with h | h
    · simp [h]
    split
    · rfl
    rcases reuse_extends a h with h | h <;> simp [h, ho]

end

def fresh : Bound ℕ := ⟨⟨.ready, 1, 8, [], ⟨0, 0, false⟩⟩, none, none, false, []⟩

def answered : Answers := ⟨fun _ => true, true, true⟩

def first : Event ℕ := .turn answered 1 [5] twoCommitted

/-- The second prompt rewrites the first one's tokens. -/
theorem rewritten_prompt_changes_policy : Coherent fresh ∧
    (run step fresh [first, .turn answered 2 [5, 7] twoCommitted]).started = [2, 1] :=
  ⟨⟨nofun, nofun, nofun⟩, rfl⟩

theorem extended_prompt_keeps_policy :
    (run step fresh [first]).policy = some 1 ∧
    sessionTurn answered 2 [5, 6, 7] (step fresh first) = .refused () (step fresh first) :=
  ⟨(session_policy_immutable ℕ).1 fresh [first] ⟨nofun, nofun, nofun⟩ ⟨ List.nil_prefix, trivial⟩
    1 (by decide),
   ((session_policy_immutable ℕ).2 _ 1 2 _ rfl (by decide)).mpr (.inr (by decide)) answered⟩

end Yvex.SessionPolicy
