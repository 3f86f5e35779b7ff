import Yvex.ServerEnums

/-!
# Reuse of the committed prefix

A session keeps its physical state when the encoded prompt extends its committed
tokens and rebuilds it empty otherwise. The turn compares the same tokens again
before it prefills the rest of the prompt.
-/

set_option autoImplicit false

namespace Yvex.PrefixReuse

open ServerEnums

inductive Call where
  | request | encodePrompt | generationClose | executionClose | executionOpen | generationOpen
  | turnOpen | continuationAllowed | stateSummary | prefixIdentity | decoderReset | sequenceReset
  | samplingSnapshot | cancellation | onePlan | progressSink

structure StateSummary where
  nextPosition : ℕ
  committedSequenceLength : ℕ
  transactionActive : Bool

structure Session where
  state : SessionState
  attachedClients : ℕ
  tokenCapacity : ℕ
  committedTokens : List UInt32
  execution : StateSummary

inductive Refusal where
  | failed (call : Call) | rebuild (call : Call) (left : Session) | state
  | extent | suffix | tokens

def Refusal.Admission : Refusal → Prop
  | .extent | .suffix | .tokens => True
  | _ => False

def firstRefusal (checks : List (Bool × Refusal)) : Option Refusal :=
  (checks.find? fun check ↦ !check.1).map (·.2)

section

variable (contextCapacity : ℕ) (calls : Call → Bool) (session : Session) (encoded : List UInt32)

def ask (call : Call) : Bool × Refusal := (calls call, .failed call)

def sessionPromptExtendsPrefix : Bool :=
  session.committedTokens.length ≤ encoded.length &&
    (session.committedTokens.isEmpty ||
      encoded.take session.committedTokens.length == session.committedTokens)

def sessionExecutionRebase : Except Refusal Session :=
  match [Call.generationClose, .executionClose, .executionOpen].find? (fun c ↦ !calls c) with
  | some call => .error (.rebuild call { session with state := .failed })
  | none => .ok { session with
      committedTokens := []
      execution := ⟨0, 0, false⟩
      state := if session.attachedClients = 0 then .detached else .ready }

def reuseOrRebuild : Except Refusal Session :=
  if session.committedTokens = [] then .ok session
  else if calls .encodePrompt = false then .error (.failed .encodePrompt)
  else if sessionPromptExtendsPrefix session encoded then .ok session
  else sessionExecutionRebase calls session

def generationTurnPrepare : List (Bool × Refusal) :=
  -- The checks of a turn before its prefill. The plans and the bounds are one condition in
  -- the code; they stand apart because only the bounds compare tokens.
  let count := session.committedTokens.length
  [ask calls .continuationAllowed, ask calls .stateSummary,
    (session.execution.nextPosition = count && session.execution.committedSequenceLength = count &&
      !session.execution.transactionActive, .extent),
    ask calls .prefixIdentity, ask calls .decoderReset, ask calls .sequenceReset,
    ask calls .samplingSnapshot, ask calls .cancellation, ask calls .encodePrompt,
    ask calls .onePlan,
    (encoded.length ≤ contextCapacity && count < encoded.length &&
      encoded.length ≤ session.tokenCapacity, .suffix),
    (encoded.take count = session.committedTokens, .tokens), ask calls .progressSink]

def sessionTurn : Option Refusal :=
  (firstRefusal [ask calls .request,
    (session.state = .ready || session.state = .detached, .state)]).or <|
  match reuseOrRebuild calls session encoded with
  | .error refusal => some refusal
  | .ok settled => firstRefusal ([ask calls .generationOpen, ask calls .turnOpen] ++
      generationTurnPrepare contextCapacity calls settled encoded)

end

structure Idle (contextCapacity : ℕ) (s : Session) : Prop where
  state : s.state = .ready ∨ s.state = .detached
  allocated : s.tokenCapacity = contextCapacity
  position : s.execution = ⟨s.committedTokens.length, s.committedTokens.length, false⟩

section

variable {cap : ℕ} {calls : Call → Bool} {s t : Session} {p : List UInt32} {r : Refusal}

theorem mem_of_firstRefusal {l : List (Bool × Refusal)} (h : firstRefusal l = some r) :
    (false, r) ∈ l := by
  obtain ⟨⟨b, r'⟩, hf, rfl⟩ := Option.map_eq_some_iff.mp h
  have hb := List.find?_some hf
  rw [Bool.not_eq_true'] at hb
  exact hb ▸ List.mem_of_find?_eq_some hf

theorem extends_iff : sessionPromptExtendsPrefix s p = true ↔ s.committedTokens <+: p := by
  simp only [sessionPromptExtendsPrefix, Bool.and_eq_true, Bool.or_eq_true, decide_eq_true_eq,
    List.isEmpty_iff, beq_iff_eq, List.prefix_iff_eq_take]
  constructor
  · rintro ⟨-, h | h⟩
    · simp [h]
    · exact h.symm
  · intro h
    have hl := congrArg List.length h
    rw [List.length_take] at hl
    exact ⟨by omega, .inr h.symm⟩

/-- The decision leaves a state whose committed tokens are a proper prefix of the prompt. -/
theorem reuse_settles (hs : Idle cap s) (hp : p ≠ []) (hne : p ≠ s.committedTokens)
    (h : reuseOrRebuild calls s p = .ok t) :
    Idle cap t ∧ t.committedTokens <+: p ∧ t.committedTokens ≠ p := by
  unfold reuseOrRebuild at h
  split_ifs at h with hz _ he
  · cases h
    rw [hz]
    exact ⟨hs, ⟨p, rfl⟩, hp.symm⟩
  · cases h
    exact ⟨hs, extends_iff.mp he, hne.symm⟩
  unfold sessionExecutionRebase at h
  split at h
  · cases h
  cases h
  refine ⟨⟨?_, hs.allocated, rfl⟩, ⟨p, rfl⟩, hp.symm⟩
  dsimp only
  split_ifs
  · exact .inr rfl
  · exact .inl rfl

theorem reuse_error (h : reuseOrRebuild calls s p = .error r) : ¬ r.Admission := by
  unfold reuseOrRebuild at h
  split_ifs at h
  · cases h
    exact id
  unfold sessionExecutionRebase at h
  split at h
  · cases h
    exact id
  · cases h

/-- An idle session never refuses admission to a prompt that properly extends its tokens. -/
theorem prepare_admits (ht : Idle cap t) (hl : p.length ≤ cap) (hx : t.committedTokens <+: p)
    (hne : t.committedTokens ≠ p) (h : (false, r) ∈ generationTurnPrepare cap calls t p) :
    ¬ r.Admission := by
  have hlt : t.committedTokens.length < p.length :=
    hx.length_le.lt_of_ne fun h ↦ hne (hx.eq_of_length h)
  have hk := (List.prefix_iff_eq_take.mp hx).symm
  rintro ha
  cases r <;> simp_all [generationTurnPrepare, ask, Refusal.Admission, ht.position, ht.allocated]

/-- Prefix admission never refuses a prompt other than the committed tokens themselves. -/
theorem admission_agrees_iff (hs : Idle cap s) (hp : p ≠ []) (hl : p.length ≤ cap) :
    (∀ calls, ∀ r ∈ sessionTurn cap calls s p, ¬ r.Admission) ↔ p ≠ s.committedTokens := by
  constructor
  · rintro h rfl
    refine h (fun _ ↦ true) .suffix ?_ trivial
    have he : sessionPromptExtendsPrefix s s.committedTokens = true :=
      extends_iff.mpr (List.prefix_refl _)
    rcases hs.state with hr | hr <;> simp [sessionTurn, firstRefusal, ask, hr, reuseOrRebuild, hp,
      he, generationTurnPrepare, hs.position]
  · intro hne calls r hr
    obtain hf | ⟨-, hf⟩ := Option.or_eq_some_iff.mp hr
    · rintro ha
      have hm := mem_of_firstRefusal hf
      cases r <;> simp_all [ask, Refusal.Admission]
    · split at hf
      · next e =>
        cases hf
        exact reuse_error e
      · next t e =>
        obtain ⟨ht, hx, hn⟩ := reuse_settles hs hp hne e
        rcases List.mem_append.mp (mem_of_firstRefusal hf) with hm | hm
        · cases r <;> simp_all [ask, Refusal.Admission]
        · exact prepare_admits ht hl hx hn hm

end

def twoCommitted : Session := ⟨.ready, 1, 8, [5, 6], ⟨2, 2, false⟩⟩

theorem twoCommitted_idle : Idle 8 twoCommitted := ⟨.inl rfl, rfl, rfl⟩

theorem diverging_prompt_admitted : Idle 8 twoCommitted ∧
    ∀ calls, ∀ r ∈ sessionTurn 8 calls twoCommitted [5, 7], ¬ r.Admission :=
  ⟨twoCommitted_idle,
    (admission_agrees_iff twoCommitted_idle (by decide) (by decide)).mpr (by decide)⟩

/-- The committed tokens extend themselves, and the turn then finds no suffix to prefill. -/
theorem repeated_prompt_refused :
    Idle 8 twoCommitted ∧ sessionTurn 8 (fun _ ↦ true) twoCommitted [5, 6] = some .suffix :=
  ⟨twoCommitted_idle, rfl⟩

end Yvex.PrefixReuse
