import Mathlib.Data.Nat.Digits.Lemmas
import Yvex.AttentionData
import Yvex.CheckedArithmetic
import Yvex.Runs

/-!
# Sessions of the response gateway

A generation request works on a session of the daemon. The session of a chat is closed at
its end; that of a response is kept in a record, so that a later request can continue it.
-/

set_option autoImplicit false

namespace Yvex.ResponseGateway

open AttentionData CheckedArithmetic Runs List

def responseRecordMax : ℕ := 64

def responseTtlSeconds : ℕ := 3600

structure ResponseRecord where
  responseId : Text
  sessionName : Text
  model : Text
  engineGeneration : ℕ
  createdSeconds : ℕ
  lastUsedSequence : ℕ

abbrev Slot := Fin responseRecordMax

structure Gateway where
  nextId : ℕ
  requestCount : ℕ
  records : Slot → Option ResponseRecord
  created : List Text
  closed : List Text

inductive Endpoint where
  -- Only a response can name a previous one.
  | chat
  | responses (previousResponseId : Text)

inductive NewSession where
  | refused
  | answered
  | unanswered
  deriving DecidableEq

structure Exchange where
  endpoint : Endpoint
  now : ℕ
  model : Text
  engineGeneration : ℕ
  admitted : Bool
  sealed : Bool
  locks : Bool
  combines : Bool
  sessionNew : NewSession
  watches : Bool
  executes : Bool
  peerClosed : Bool
  completes : Bool
  retains : Bool
  replies : Bool
  closes : Text → Bool

def twelveDigits (number : ℕ) : Text :=
  ((Nat.digitsAppend 10 12 number).map Nat.digitChar).reverse

def sessionName (ordinal : ℕ) : Text := "oa-".toList ++ twelveDigits ordinal

def responseId (ordinal : ℕ) : Text := "resp_yvex_".toList ++ twelveDigits ordinal

def Gateway.put (g : Gateway) (slot : Slot) (record : Option ResponseRecord) : Gateway :=
  { g with records := Function.update g.records slot record }

def Gateway.remove (g : Gateway) (slot : Slot) : Gateway := g.put slot none

def Gateway.use (g : Gateway) (slot : Slot) (record : ResponseRecord) : Gateway :=
  let sequence := (g.requestCount + 1) % wordLimit
  { g.put slot (some { record with lastUsedSequence := sequence }) with requestCount := sequence }

def expired (now : ℕ) (record : ResponseRecord) : Prop :=
  record.createdSeconds ≤ now ∧ responseTtlSeconds < now - record.createdSeconds

instance (now : ℕ) (record : ResponseRecord) : Decidable (expired now record) :=
  inferInstanceAs (Decidable (_ ∧ _))

def matching (g : Gateway) (wanted : Text) (now : ℕ) (slot : Slot) : Bool :=
  match g.records slot with
  | some record => record.responseId = wanted ∧ ¬ expired now record
  | none => false

def stateFind (g : Gateway) (wanted : Text) (now : ℕ) : Gateway × Option Slot :=
  if wanted = [] then (g, none)
  else match (List.finRange responseRecordMax).find? (matching g wanted now) with
  | some slot =>
    match g.records slot with
    | some record => (g.use slot record, some slot)
    | none => (g, none)
  | none => (g, none)

def firstFree (g : Gateway) : Option Slot :=
  (List.finRange responseRecordMax).find? fun slot => (g.records slot).isNone

def stateStore (g : Gateway) (x : Exchange) (id session : Text) : Option Gateway :=
  if x.engineGeneration = 0 ∨ x.retains = false then none
  else (firstFree g).map fun slot => g.use slot ⟨id, session, x.model, x.engineGeneration, x.now, 0⟩

def stateReplace (g : Gateway) (x : Exchange) (slot : Slot) (id : Text) : Option Gateway :=
  match g.records slot with
  | some record =>
    if x.engineGeneration = 0 ∨ x.retains = false then none
    else some (g.use slot { record with
      responseId := id
      model := x.model
      engineGeneration := x.engineGeneration
      createdSeconds := x.now })
  | none => none

def Gateway.create (g : Gateway) (name : Text) : Gateway := { g with created := name :: g.created }

def Gateway.close (g : Gateway) (name : Text) : Gateway := { g with closed := name :: g.closed }

def sessionClose (x : Exchange) (g : Gateway) (name : Text) : Gateway × Bool :=
  if x.closes name then (g.close name, true) else (g, false)

structure Scan where
  gateway : Gateway
  freeSlot : Bool
  oldest : Option (Slot × ℕ)

def Scan.keep (s : Scan) (slot : Slot) (lastUsed : ℕ) : Scan :=
  match s.oldest with
  | none => { s with oldest := some (slot, lastUsed) }
  | some (_, oldest) => if lastUsed < oldest then { s with oldest := some (slot, lastUsed) } else s

def scanRecords (x : Exchange) : List Slot → Scan → Scan × Bool
  | [], s => (s, true)
  | slot :: rest, s =>
    match s.gateway.records slot with
    | none => scanRecords x rest { s with freeSlot := true }
    | some record =>
      if expired x.now record then
        match sessionClose x s.gateway record.sessionName with
        | (g, true) => scanRecords x rest { s with gateway := g.remove slot, freeSlot := true }
        | (g, false) => ({ s with gateway := g }, false)
      else scanRecords x rest (s.keep slot record.lastUsedSequence)

def statePrepare (x : Exchange) (requireFree : Bool) (g : Gateway) : Gateway × Bool :=
  match scanRecords x (List.finRange responseRecordMax) ⟨g, false, none⟩ with
  | (s, false) => (s.gateway, false)
  | (s, true) =>
    if requireFree = false ∨ s.freeSlot = true then (s.gateway, true)
    else match s.oldest with
    | none => (s.gateway, false)
    | some (slot, _) =>
      match s.gateway.records slot with
      | none => (s.gateway, false)
      | some record =>
        match sessionClose x s.gateway record.sessionName with
        | (g, true) => (g.remove slot, true)
        | (g, false) => (g, false)

def Endpoint.stateful : Endpoint → Bool
  | .chat => false
  | .responses _ => true

structure Turn where
  prior : Option Slot
  session : Text
  createdSession : Bool
  generationStarted : Bool
  retained : Option Slot

def occupied (g : Gateway) (slot : Option Slot) : Option Slot :=
  slot.filter fun slot => (g.records slot).isSome

def failure (x : Exchange) (t : Turn) (g : Gateway) : Gateway :=
  let lost :=
    if t.generationStarted && x.endpoint.stateful && (occupied g t.prior).isSome then t.prior
    else occupied g t.retained
  let g := (lost.map g.remove).getD g
  if t.createdSession || (t.generationStarted && x.endpoint.stateful && t.session ≠ []) then
    (sessionClose x g t.session).1
  else g

def stateRetain (x : Exchange) (ordinal : ℕ) (t : Turn) (g : Gateway) :
    Option (Gateway × Option Slot) :=
  if x.completes = false then none
  else match t.prior with
  | some slot => (stateReplace g x slot (responseId ordinal)).map fun g => (g, some slot)
  | none => (stateStore g x (responseId ordinal) t.session).map fun g =>
      stateFind g (responseId ordinal) x.now

def generationTurn (x : Exchange) (ordinal : ℕ) (t : Turn) (g : Gateway) : Gateway :=
  if x.engineGeneration = 0 ∨ t.session = [] ∨ x.watches = false then failure x t g
  else
    let t := { t with generationStarted := true }
    if x.executes = false ∨ x.peerClosed = true then failure x t g
    else if x.endpoint.stateful then
      match stateRetain x ordinal t g with
      | none => failure x t g
      | some (g, retained) => if x.replies then g else failure x { t with retained := retained } g
    else if t.createdSession then
      match sessionClose x g t.session with
      | (g, false) => failure x t g
      | (g, true) => if x.replies then g else failure x { t with createdSession := false } g
    else if x.replies then g else failure x t g

def newSession (x : Exchange) (ordinal : ℕ) (g : Gateway) : Gateway :=
  match x.sessionNew with
  | .refused => g
  | .unanswered => g.create (sessionName ordinal)
  | .answered =>
    generationTurn x ordinal ⟨none, sessionName ordinal, true, false, none⟩
      (g.create (sessionName ordinal))

def priorSession (x : Exchange) (ordinal : ℕ) (slot : Slot) (g : Gateway) : Gateway :=
  match g.records slot with
  | none => g
  | some record =>
    if record.model ≠ x.model ∨ record.engineGeneration ≠ x.engineGeneration ∨
      x.combines = false then g
    else generationTurn x ordinal ⟨some slot, record.sessionName, false, false, none⟩ g

def handleGeneration (g : Gateway) (x : Exchange) : Gateway :=
  -- A request that fails before it has a session leaves the records as they are.
  if x.admitted = false ∨ g.nextId + 1 = wordLimit then g
  else
    let ordinal := g.nextId + 1
    let g := { g with nextId := ordinal }
    if x.sealed = false then g
    else match x.endpoint with
    | .chat => if x.combines = false then g else newSession x ordinal g
    | .responses previous =>
      if x.locks = false then g
      else match statePrepare x false g with
      | (g, false) => g
      | (g, true) =>
        if previous = [] then
          if x.combines = false then g
          else match statePrepare x true g with
          | (g, false) => g
          | (g, true) => newSession x ordinal g
        else match stateFind g previous x.now with
        | (g, none) => g
        | (g, some slot) => priorSession x ordinal slot g

def emptyGateway : Gateway := ⟨0, 0, fun _ => none, [], []⟩

/-- The sessions that were created and not closed are those of the records, one each. -/
structure SessionsOwned (g : Gateway) : Prop where
  live : ∀ name, (name ∈ g.created ∧ name ∉ g.closed) ↔
    ∃ slot record, g.records slot = some record ∧ record.sessionName = name
  once : ∀ {a b : Slot} {first second : ResponseRecord}, g.records a = some first →
    g.records b = some second → first.sessionName = second.sessionName → a = b

theorem digitChar_value {d : ℕ} (hsm : d < 10) : (Nat.digitChar d).toNat - 48 = d := by
  interval_cases d <;> rfl

theorem twelveDigits_injective : Function.Injective twelveDigits := by
  intro a b hs
  have v (n : ℕ) : Nat.ofDigits 10 ((twelveDigits n).reverse.map fun d => d.toNat - 48) = n := by
    have hd : (Nat.digitsAppend 10 12 n).map
        ((fun d : Char => d.toNat - 48) ∘ Nat.digitChar) = Nat.digitsAppend 10 12 n :=
      (map_congr_left fun d hm =>
        digitChar_value (Nat.lt_of_mem_digitsAppend (by decide) 12 d hm)).trans
        (map_id _)
    rw [twelveDigits, reverse_reverse, map_map, hd, Nat.digitsAppend,
      Nat.ofDigits_append_replicate_zero, Nat.ofDigits_digits]
  rw [← v a, hs, v b]

theorem sessionName_inj {a b : ℕ} (hs : sessionName a = sessionName b) : a = b :=
  twelveDigits_injective (append_cancel_left hs)

theorem responseId_inj {a b : ℕ} (hs : responseId a = responseId b) : a = b :=
  twelveDigits_injective (append_cancel_left hs)

theorem sessionName_ne_nil (k : ℕ) : sessionName k ≠ [] :=
  append_ne_nil_of_left_ne_nil (by decide) _

theorem responseId_ne_nil (k : ℕ) : responseId k ≠ [] := append_ne_nil_of_left_ne_nil (by decide) _

def owner (g : Gateway) (pending : Option Text) : Option Slot → Option Text
  | none => pending
  | some slot => (g.records slot).map ResponseRecord.sessionName

structure Kept (ordinal bound : ℕ) (g : Gateway) (pending : Option Text) : Prop where
  count : g.nextId = ordinal
  live : ∀ name, (name ∈ g.created ∧ name ∉ g.closed) ↔ ∃ place, owner g pending place = some name
  once : ∀ a b name, owner g pending a = some name → owner g pending b = some name → a = b
  spent : ∀ name ∈ g.closed, name ∈ g.created
  names : ∀ name ∈ g.created, pending = some name ∨ ∃ k ≤ bound, name = sessionName k
  ids : ∀ {slot : Slot} {record : ResponseRecord}, g.records slot = some record →
    ∃ k ≤ bound, record.responseId = responseId k

variable {j bound : ℕ} {g : Gateway} {p : Option Text} {i : Slot}
  {r : ResponseRecord} {x : Exchange}

theorem owner_record (hf : g.records i = some r) : owner g p (some i) = some r.sessionName := by
  rw [owner, hf, Option.map_some]

theorem Kept.raise {higher : ℕ} (hk : Kept j bound g p) (le : bound ≤ higher) :
    Kept j higher g p where
  count := hk.count
  live := hk.live
  once := hk.once
  spent := hk.spent
  names := by
    intro nm hm
    refine (hk.names nm hm).imp id ?_
    rintro ⟨k, hsm, hs⟩
    exact ⟨k, hsm.trans le, hs⟩
  ids := by
    intro i r hf
    obtain ⟨k, hsm, hs⟩ := hk.ids hf
    exact ⟨k, hsm.trans le, hs⟩

theorem Kept.named (hk : Kept j bound g none) (hf : g.records i = some r) :
    ∃ k ≤ bound, r.sessionName = sessionName k := by
  have hm := ((hk.live _).mpr ⟨some i, owner_record hf⟩).1
  exact (hk.names _ hm).resolve_left (by simp)

/-- The session of a record and the one in work change places. -/
theorem Kept.moved {q : Gateway} {s : Option Text} {y : Option ResponseRecord}
    (hk : Kept j bound g s)
    (hr : q.records = Function.update g.records i y) (hy : y.map ResponseRecord.sessionName = s)
    (hp : (g.records i).map ResponseRecord.sessionName = p) :
    (∀ nm, (nm ∈ g.created ∧ nm ∉ g.closed) ↔ ∃ slot, owner q p slot = some nm) ∧
    ∀ a b nm, owner q p a = some nm → owner q p b = some nm → a = b := by
  have hmv : owner q p = owner g s ∘ Equiv.swap none (some i) := by
    funext place
    cases place with
    | none => simp [owner, hp]
    | some o =>
      by_cases hh : o = i
      · simp [owner, hr, hh, hy]
      · simp [owner, hr, hh, Equiv.swap_apply_of_ne_of_ne]
  rw [hmv]
  refine ⟨fun nm => (hk.live nm).trans ?_, ?_⟩
  · exact (Equiv.swap none (some i)).exists_congr_left.trans (by simp [Equiv.symm_swap])
  · intro c d nm atC atD
    exact (Equiv.swap none (some i)).injective (hk.once _ _ nm atC atD)

theorem use_records (g : Gateway) (next : ResponseRecord) (o : Slot) :
    (g.use i next).records o = if o = i then
      some { next with lastUsedSequence := (g.requestCount + 1) % wordLimit }
    else g.records o :=
  Function.update_apply ..

theorem use_self (g : Gateway) (i : Slot) (next : ResponseRecord) : (g.use i next).records i =
      some { next with lastUsedSequence := (g.requestCount + 1) % wordLimit } := by
  rw [use_records, if_pos rfl]

theorem Kept.use (hk : Kept j bound g p) (hf : g.records i = some r)
    {next : ResponseRecord} (hs : next.sessionName = r.sessionName)
    (id : ∃ k ≤ bound, next.responseId = responseId k) :
    Kept j bound (g.use i next) p := by
  have owners : owner (g.use i next) p = owner g p := by
    funext place
    cases place with
    | none => rfl
    | some =>
      rw [owner, owner, use_records]
      split_ifs with hh
      · rw [hh, hf, Option.map_some, Option.map_some, hs]
      · rfl
  refine ⟨hk.count, owners ▸ hk.live, owners ▸ hk.once, hk.spent, hk.names, ?_⟩
  intro o s hst
  rw [use_records] at hst
  split_ifs at hst
  · cases hst
    exact id
  · exact hk.ids hst

theorem Kept.remove (hk : Kept j bound g none) (hf : g.records i = some r) :
    Kept j bound (g.remove i) (some r.sessionName) := by
  have re (o : Slot) : (g.remove i).records o =
      if o = i then none else g.records o := Function.update_apply ..
  obtain ⟨hl, once⟩ := hk.moved (q := g.remove i) rfl rfl (by rw [hf, Option.map_some])
  refine ⟨hk.count, hl, once, hk.spent, ?_, ?_⟩
  · exact fun nm hm => .inr ((hk.names nm hm).resolve_left (by simp))
  · intro o hst hs
    rw [re] at hs
    split_ifs at hs
    exact hk.ids hs

theorem Kept.store (hk : Kept j bound g (some r.sessionName)) (hf : g.records i = none)
    (hfr : bound < j) (hse : r.sessionName = sessionName j)
    (id : r.responseId = responseId j) :
    Kept j j (g.use i r) none := by
  obtain ⟨hl, once⟩ := hk.moved (q := g.use i r) rfl rfl (by rw [hf, Option.map_none])
  refine ⟨hk.count, hl, once, hk.spent, ?_, ?_⟩
  · intro nm hm
    rcases hk.names nm hm with hs | ⟨k, hsm, hn⟩
    · exact .inr ⟨j, le_rfl, Option.some.inj hs ▸ hse⟩
    · exact .inr ⟨k, by omega, hn⟩
  · intro o s hst
    rw [use_records] at hst
    split_ifs at hst
    · cases hst
      exact ⟨j, le_rfl, id⟩
    · obtain ⟨k, hsm, hn⟩ := hk.ids hst
      exact ⟨k, by omega, hn⟩

theorem Kept.close {nm : Text} (hk : Kept j bound g (some nm))
    (hn : ∃ k ≤ bound, nm = sessionName k) : Kept j bound (g.close nm) none := by
  have own : nm ∈ g.created := ((hk.live nm).mpr ⟨none, rfl⟩).1
  refine ⟨hk.count, fun o => ?_, ?_, ?_, ?_, hk.ids⟩
  · constructor
    · rintro ⟨hm, hop⟩
      obtain ⟨hfr, old⟩ := not_or.mp (mt mem_cons.mpr hop)
      obtain ⟨_ | place, ho⟩ := (hk.live o).mp ⟨hm, old⟩
      · exact absurd (Option.some.inj ho).symm hfr
      · exact ⟨some place, ho⟩
    · rintro ⟨_ | place, ho⟩
      · cases ho
      · obtain ⟨hm, old⟩ := (hk.live o).mpr ⟨some place, ho⟩
        refine ⟨hm, fun hc => ?_⟩
        rcases mem_cons.mp hc with rfl | be
        · cases hk.once (some place) none o ho rfl
        · exact old be
  · rintro (_ | a) (_ | b) o atA atB
    · rfl
    · cases atA
    · cases atB
    · exact hk.once (some a) (some b) o atA atB
  · intro o hm
    rcases mem_cons.mp hm with rfl | old
    · exact own
    · exact hk.spent o old
  · intro o hm
    rcases hk.names o hm with hs | old
    · cases hs
      exact .inr hn
    · exact .inr old

/-- A created session is the one in work. -/
theorem Kept.create (hk : Kept j bound g none) (hfr : bound < j) :
    Kept j bound (g.create (sessionName j)) (some (sessionName j)) := by
  have new : sessionName j ∉ g.created := by
    intro hm
    obtain ⟨k, hsm, hs⟩ := (hk.names _ hm).resolve_left (by simp)
    have := sessionName_inj hs
    omega
  have ha (i : Slot) : owner g none (some i) ≠ some (sessionName j) :=
    fun ho => new ((hk.live _).mpr ⟨some i, ho⟩).1
  refine ⟨hk.count, fun nm => ?_, ?_, ?_, ?_, hk.ids⟩
  · constructor
    · rintro ⟨hm, hop⟩
      rcases mem_cons.mp hm with rfl | old
      · exact ⟨none, rfl⟩
      · obtain ⟨_ | place, ho⟩ := (hk.live nm).mp ⟨old, hop⟩
        · cases ho
        · exact ⟨some place, ho⟩
    · rintro ⟨_ | place, ho⟩
      · cases ho
        exact ⟨mem_cons_self, fun hc => new (hk.spent _ hc)⟩
      · obtain ⟨hm, hop⟩ := (hk.live nm).mpr ⟨some place, ho⟩
        exact ⟨mem_cons_of_mem _ hm, hop⟩
  · rintro (_ | a) (_ | b) nm atA atB
    · rfl
    · exact absurd (atB.trans atA.symm) (ha b)
    · exact absurd (atA.trans atB.symm) (ha a)
    · exact hk.once (some a) (some b) nm atA atB
  · exact fun nm hm => mem_cons_of_mem _ (hk.spent nm hm)
  · intro nm hm
    rcases mem_cons.mp hm with rfl | old
    · exact .inl rfl
    · exact .inr ((hk.names nm old).resolve_left (by simp))

theorem Kept.expire (hk : Kept j bound g none) (hf : g.records i = some r) :
    Kept j bound ((g.close r.sessionName).remove i) none :=
  (hk.remove hf).close (hk.named hf)

theorem sessionClose_closes (c : ∀ nm, x.closes nm = true) (g : Gateway) (nm : Text) :
    sessionClose x g nm = (g.close nm, true) := by
  rw [sessionClose, if_pos (c nm)]

theorem scanRecords_kept (c : ∀ nm, x.closes nm = true) (sl : List Slot) {s : Scan}
    (hk : Kept j bound s.gateway none) :
    Kept j bound (scanRecords x sl s).1.gateway none := by
  induction sl generalizing s with
  | nil => exact hk
  | cons i rest ih =>
    rw [scanRecords]
    cases hf : s.gateway.records i with
    | none => exact ih hk
    | some =>
      dsimp only
      split_ifs with old
      · rw [sessionClose_closes c]
        exact ih (hk.expire hf)
      refine ih ?_
      unfold Scan.keep
      split
      · exact hk
      · split_ifs <;> exact hk

theorem statePrepare_kept (c : ∀ nm, x.closes nm = true) (free : Bool) (hk : Kept j bound g none) :
    Kept j bound (statePrepare x free g).1 none := by
  have hh := scanRecords_kept c (finRange responseRecordMax) (s := ⟨g, false, none⟩) hk
  unfold statePrepare
  split
  · rename_i hs
    rw [hs] at hh
    exact hh
  rename_i hs
  rw [hs] at hh
  split_ifs
  · exact hh
  split
  · exact hh
  split
  · exact hh
  · rename_i hf
    rw [sessionClose_closes c]
    exact hh.expire hf

theorem stateFind_kept (hk : Kept j bound g p) (w : Text) (now : ℕ) :
    Kept j bound (stateFind g w now).1 p := by
  unfold stateFind
  split_ifs
  · exact hk
  split
  · split
    · rename_i hf
      exact hk.use hf rfl (hk.ids hf)
    · exact hk
  · exact hk

/-- A response is found again right after it was stored: no other has its identity. -/
theorem stateFind_stored (hk : Kept j bound g p) (hfr : bound < j)
    (id : r.responseId = responseId j) :
    ∃ f s, stateFind (g.use i r) (responseId j) r.createdSeconds =
      (f, some i) ∧ f.records i = some s ∧ s.sessionName = r.sessionName := by
  have hh : matching (g.use i r) (responseId j) r.createdSeconds i =
      true := by
    simp [matching, use_records, id, expired]
  have only : (finRange responseRecordMax).find?
      (matching (g.use i r) (responseId j) r.createdSeconds) = some i := by
    cases hsr : (finRange responseRecordMax).find?
        (matching (g.use i r) (responseId j) r.createdSeconds) with
    | none => exact absurd hh (find?_eq_none.mp hsr i (mem_finRange i))
    | some o =>
      by_contra ha
      have hm := find?_some hsr
      rw [matching, use_records, if_neg fun hs => ha (congrArg some hs)] at hm
      split at hm
      · rename_i f
        obtain ⟨k, hsm, hn⟩ := hk.ids f
        simp only [decide_eq_true_eq] at hm
        have := responseId_inj (hn.symm.trans hm.1)
        omega
      · cases hm
  refine ⟨_, _, ?_, use_self (g.use i r) i r, rfl⟩
  simp only [stateFind, if_neg (responseId_ne_nil j), only, use_self g i r]
  rfl

variable {t : Turn}

theorem failure_pending (c : ∀ nm, x.closes nm = true) (hk : Kept j bound g (some t.session))
    (hn : ∃ k ≤ bound, t.session = sessionName k) (hp : t.prior = none) (hrt : t.retained = none)
    (hc : t.createdSession = true) : Kept j bound (failure x t g) none := by
  simp only [failure, hp, hrt, hc, occupied, Option.filter_none, Option.isSome_none,
    Bool.and_false, Bool.false_eq_true, if_false, Option.map_none, Option.getD_none,
    Bool.true_or, if_true, sessionClose_closes c]
  exact hk.close hn

theorem failure_recorded (c : ∀ nm, x.closes nm = true) (hst : x.endpoint.stateful = true)
    (hsd : t.generationStarted = true) (hk : Kept j bound g none) (hf : g.records i = some r)
    (hse : r.sessionName = t.session)
    (ho : t.prior = some i ∨ (t.prior = none ∧ t.retained = some i)) :
    Kept j bound (failure x t g) none := by
  have lost : (if t.generationStarted && x.endpoint.stateful && (occupied g t.prior).isSome then
      t.prior else occupied g t.retained) = some i := by
    rcases ho with pr | ⟨pr, hr⟩
    · simp [hst, hsd, pr, occupied, hf]
    · simp [pr, hr, occupied, hf]
  have hn := hk.named hf
  have some : t.session ≠ [] := by
    obtain ⟨k, -, hs⟩ := hn
    rw [← hse, hs]
    exact sessionName_ne_nil k
  rw [failure, lost]
  simp only [Option.map_some, Option.getD_some, hsd, hst, Bool.and_true,
    decide_eq_true some, Bool.or_true, if_true, sessionClose_closes c]
  rw [hse] at hn
  exact (hse ▸ hk.remove hf).close hn

variable {a : Gateway} {retained : Option Slot}

theorem stateRetain_created (hk : Kept j bound g (some (sessionName j))) (hfr : bound < j)
    (hp : t.prior = none) (hs : t.session = sessionName j)
    (ok : stateRetain x j t g = some (a, retained)) :
    Kept j j a none ∧ ∃ i sd, retained = some i ∧
      a.records i = some sd ∧ sd.sessionName = t.session := by
  rw [stateRetain, hp, hs] at ok
  split_ifs at ok
  obtain ⟨sd, st, hsr⟩ := Option.map_eq_some_iff.mp ok
  rw [stateStore] at st
  split_ifs at st
  obtain ⟨i, hf, rfl⟩ := Option.map_eq_some_iff.mp st
  have he : g.records i = none := by
    have his := find?_some hf
    rwa [Option.isNone_iff_eq_none] at his
  have hk' : Kept j j (g.use i ⟨responseId j, sessionName j, x.model,
      x.engineGeneration, x.now, 0⟩) none := Kept.store hk he hfr rfl rfl
  obtain ⟨f, own, hi, hiw, s⟩ :=
    @stateFind_stored j bound g _ i ⟨responseId j, sessionName j, x.model,
      x.engineGeneration, x.now, 0⟩ hk hfr rfl
  have hse := stateFind_kept hk' (responseId j) x.now
  cases hi.symm.trans hsr
  rw [hi] at hse
  exact ⟨hse, i, own, rfl, hiw, s.trans hs.symm⟩

theorem stateRetain_prior (hk : Kept j j g none) (hf : g.records i = some r)
    (hp : t.prior = some i) (ok : stateRetain x j t g = some (a, retained)) :
    Kept j j a none ∧ retained = some i ∧
      ∃ s, a.records i = some s ∧ s.sessionName = r.sessionName := by
  rw [stateRetain, hp] at ok
  split_ifs at ok
  obtain ⟨hr, replace, hs⟩ := Option.map_eq_some_iff.mp ok
  cases hs
  simp only [stateReplace, hf] at replace
  split_ifs at replace
  cases replace
  refine ⟨Kept.use hk hf rfl ⟨j, le_rfl, rfl⟩, rfl, ?_⟩
  exact ⟨_, Function.update_self .., rfl⟩

section Closes

variable (closes : ∀ nm, x.closes nm = true)
include closes

theorem generationTurn_created (hk : Kept j bound g (some (sessionName j))) (hfr : bound < j) :
    Kept j j (generationTurn x j ⟨none, sessionName j, true, false, none⟩ g) none := by
  have hi := hk.raise hfr.le
  have hn : ∃ k ≤ j, sessionName j = sessionName k := ⟨j, le_rfl, rfl⟩
  have hfa (st : Bool) : Kept j j (failure x ⟨none, sessionName j, true, st, none⟩ g) none :=
    failure_pending closes hi hn rfl rfl rfl
  rw [generationTurn]
  split
  · exact hfa false
  dsimp only
  split
  · exact hfa true
  split
  · rename_i hs
    split
    · exact hfa true
    rename_i ok
    obtain ⟨sd, i, r, rfl, hf, s⟩ := stateRetain_created hk hfr rfl rfl ok
    split
    · exact sd
    · exact failure_recorded closes hs rfl sd hf s (.inr ⟨rfl, rfl⟩)
  · rename_i hst
    rw [if_pos rfl, sessionClose_closes closes]
    dsimp only
    split
    · exact hi.close hn
    · simpa [failure, occupied, hst] using hi.close hn

theorem generationTurn_prior (hs : x.endpoint.stateful = true) (hk : Kept j j g none)
    (hf : g.records i = some r) :
    Kept j j (generationTurn x j ⟨some i, r.sessionName, false, false, none⟩ g) none := by
  have hfa : Kept j j (failure x ⟨some i, r.sessionName, false, true, none⟩ g) none :=
    failure_recorded closes hs rfl hk hf rfl (.inl rfl)
  rw [generationTurn]
  split
  · simpa [failure, occupied] using hk
  dsimp only
  split
  · exact hfa
  split
  · exact hfa
  rename_i ok
  obtain ⟨hr, rfl, st, hst, s⟩ := stateRetain_prior hk hf rfl ok
  split
  · exact hr
  · exact failure_recorded closes hs rfl hr hst s (.inl rfl)

theorem newSession_kept (han : x.sessionNew ≠ .unanswered) (hk : Kept j bound g none)
    (hfr : bound < j) : Kept j j (newSession x j g) none := by
  unfold newSession
  split
  · exact hk.raise hfr.le
  · rename_i lost
    exact absurd lost han
  · exact generationTurn_created closes (hk.create hfr) hfr

theorem priorSession_kept (hs : x.endpoint.stateful = true) (hk : Kept j j g none) (i : Slot) :
    Kept j j (priorSession x j i g) none := by
  unfold priorSession
  split
  · exact hk
  rename_i hf
  split
  · exact hk
  · exact generationTurn_prior closes hs hk hf

/-- A request that is answered leaves every open session in one record. -/
theorem handleGeneration_kept (han : x.sessionNew ≠ .unanswered) (hk : Kept j j g none) :
    ∃ a, Kept a a (handleGeneration g x) none := by
  rw [handleGeneration]
  split
  · exact ⟨j, hk⟩
  refine ⟨g.nextId + 1, ?_⟩
  have hh : Kept (g.nextId + 1) j { g with nextId := g.nextId + 1 } none :=
    ⟨rfl, hk.live, hk.once, hk.spent, hk.names, hk.ids⟩
  have hfr : j < g.nextId + 1 := by
    rw [hk.count]
    exact Nat.lt_succ_self _
  have hs {g' : Gateway} (hk : Kept (g.nextId + 1) j g' none) :
      Kept (g.nextId + 1) (g.nextId + 1) g' none := hk.raise hfr.le
  dsimp only
  split
  · exact hs hh
  split
  · split
    · exact hs hh
    · exact newSession_kept closes han hh hfr
  rename_i pr rs
  split
  · exact hs hh
  have he := statePrepare_kept closes false hh
  generalize statePrepare x false _ = hpr at he
  rcases hpr with ⟨a, _ | _⟩
  · exact hs he
  dsimp only at he ⊢
  split
  · split
    · exact hs he
    have hr := statePrepare_kept closes true he
    generalize statePrepare x true a = evicted at hr
    rcases evicted with ⟨roomy, _ | _⟩
    · exact hs hr
    · exact newSession_kept closes han hr hfr
  · have hse := stateFind_kept he pr x.now
    generalize stateFind a pr x.now = hf at hse
    rcases hf with ⟨used, _ | i⟩
    · exact hs hse
    · exact priorSession_kept closes (by rw [rs]; rfl) (hs hse) i

end Closes

/-- While every close succeeds and every session that is created is answered for, the open
sessions are those of the records. -/
theorem gateway_sessions_owned (requests : List Exchange)
    (closes : ∀ x ∈ requests, ∀ name, x.closes name = true)
    (answered : ∀ x ∈ requests, x.sessionNew ≠ .unanswered) :
    SessionsOwned (run handleGeneration emptyGateway requests) := by
  have empty : Kept 0 0 emptyGateway none := by
    have nobody (place : Option Slot) : owner emptyGateway none place = none := by
      cases place <;> rfl
    refine ⟨rfl, fun name => ?_, fun a b name owned => ?_, ?_, ?_, ?_⟩
    · simp only [nobody, reduceCtorEq, exists_false, iff_false]
      simp [emptyGateway]
    · rw [nobody] at owned
      cases owned
    all_goals simp [emptyGateway]
  obtain ⟨ordinal, final⟩ :=
    run_invariant_mem (P := fun g => ∃ ordinal, Kept ordinal ordinal g none)
      (fun g x member ⟨_, kept⟩ => handleGeneration_kept (closes x member) (answered x member) kept)
      ⟨0, empty⟩
  refine ⟨fun name => (final.live name).trans ⟨?_, ?_⟩, ?_⟩
  · rintro ⟨_ | slot, owned⟩
    · cases owned
    · obtain ⟨record, found, named⟩ := Option.map_eq_some_iff.mp owned
      exact ⟨slot, record, found, named⟩
  · rintro ⟨slot, record, found, rfl⟩
    exact ⟨some slot, owner_record found⟩
  · intro a b first second atA atB same
    have places := final.once (some a) (some b) _ (owner_record atA) (same ▸ owner_record atB)
    exact Option.some.inj places

def calmExchange (endpoint : Endpoint) : Exchange :=
  ⟨endpoint, 0, ['m'], 1, true, true, true, true, .answered, true, true, false, true, true, true,
    fun _ => true⟩

theorem gateway_sessions_owned_two : SessionsOwned (run handleGeneration emptyGateway
      [calmExchange (.responses []), { calmExchange (.responses (responseId 1)) with
        replies := false }]) := by
  refine gateway_sessions_owned _ ?_ ?_
  · intro x member name
    fin_cases member <;> rfl
  · intro x member
    fin_cases member <;> decide

/-- The session of a request whose answer is lost stays open, and no record names it. -/
theorem unanswered_session_stays : ¬ SessionsOwned (run handleGeneration emptyGateway
      [{ calmExchange .chat with sessionNew := .unanswered }]) := by
  intro owned
  obtain ⟨slot, record, found, -⟩ := (owned.live (sessionName 1)).mp
    ⟨mem_singleton_self _, not_mem_nil⟩
  cases found

end Yvex.ResponseGateway
