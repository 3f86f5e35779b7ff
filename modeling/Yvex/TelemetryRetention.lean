import Yvex.Telemetry

/-!
# Retention over whole runs

Emissions, subscribers that wait or do not, and a close come in any order. As
long as the sequence numbers have not run out, the ring holds the events it
should, and every call of a subscriber answers with the first retained event
behind the number it asked for.
-/

set_option autoImplicit false

namespace Yvex.Telemetry
open ProviderRequest TelemetryEvent ServerEnums KeyedSlots CheckedArithmetic WordCounter Runs List

variable {e : Event} {a : ℕ}

section Answers

variable {t : ServerTelemetry} {m : ℕ}

def retainedEvents (telemetry : ServerTelemetry) : List Event :=
  telemetry.events.filter fun event => event.sequence != 0

theorem mem_retainedEvents : e ∈ retainedEvents t ↔ e ∈ t.events ∧ e.sequence ≠ 0 := by
  simp [retainedEvents]

/-- The first retained event behind the number that the call asked for; none only if
there is none, and for a waiting call only if the telemetry is closing. -/
structure Answers (call : Return) : Prop where
  found : ∀ event, call.found = some event →
    event ∈ call.retained ∧ call.after < event.sequence ∧
      ∀ other ∈ call.retained, call.after < other.sequence → event.sequence ≤ other.sequence
  missing : call.found = none → call.closing = false →
    call.wait = false ∧ ∀ other ∈ call.retained, other.sequence ≤ call.after

theorem Ordered.bounded_events (h : Ordered t m) (hev : e ∈ t.events) : e.sequence ≤ m :=
  h.bounded (mark e) (mem_map_of_mem hev)

theorem selectNext_some (h : selectNext t a = some e) :
    e ∈ t.events ∧ a < e.sequence ∧ ∀ o ∈ t.events, a < o.sequence → e.sequence ≤ o.sequence := by
  obtain ⟨slot, hsl, hev⟩ := Option.bind_eq_some_iff.mp h
  obtain ⟨held, hh, hadm, _, hl⟩ := leastSlot_some hsl
  have hs : held = e := by
    rw [hh] at hev
    exact Option.some.inj hev
  subst hs
  refine ⟨mem_of_getElem? hh, by simpa using hadm, ?_⟩
  intro o ho ha
  exact hl o ho (by simpa using ha)

theorem selectNext_none (ho : Ordered t m) (hc : m < maximumSequence)
    (h : selectNext t a = none) : ∀ o ∈ t.events, o.sequence ≤ a := by
  intro o hot
  have hb := ho.bounded_events hot
  by_contra hafter
  rcases hs : nextSlot t a with _ | slot
  · have hl := leastSlot_none hs o hot (by simpa using hafter)
    omega
  · obtain ⟨held, hh, _⟩ := leastSlot_some hs
    simp [selectNext, hs, hh] at h

theorem selectNext_isSome (ho : Ordered t m) (hc : m < maximumSequence)
    (hw : mustWait t a = false) (hop : t.closing = false) : selectNext t a ≠ none := by
  intro hn
  have hl : wordSub t.nextSequence 1 = m := by
    have hli : maximumSequence = wordLimit - 1 := rfl
    rw [ho.next, wordSub_eq (by omega) (by omega)]
    rfl
  have ha : a < m := by simpa [mustWait, hop, hl] using hw
  obtain ⟨slot, hs, hsq⟩ := ho.latest (by omega)
  obtain ⟨e, hev, rfl⟩ := mem_map.mp hs
  have hle := selectNext_none ho hc hn e hev
  have hsame : e.sequence = m := hsq
  omega

variable {c : Return}

theorem answers_selected (ho : Ordered t m) (hc : m < maximumSequence)
    (hr : c.retained = retainedEvents t) (hf : c.found = selectNext t c.after)
    (hclo : c.closing = t.closing) (hw : c.wait = true → mustWait t c.after = false) :
    Answers c := by
  constructor
  · intro e hev
    rw [hf] at hev
    obtain ⟨hm, ha, hl⟩ := selectNext_some hev
    rw [hr]
    refine ⟨mem_retainedEvents.mpr ⟨hm, by omega⟩, ha, ?_⟩
    intro o hh
    exact hl o (mem_retainedEvents.mp hh).1
  · intro hn hop
    rw [hf] at hn
    rw [hclo] at hop
    constructor
    · by_contra hwaits
      exact selectNext_isSome ho hc (hw (by simpa using hwaits)) hop hn
    · intro o hh
      rw [hr] at hh
      exact selectNext_none ho hc hn o (mem_retainedEvents.mp hh).1

theorem answers_closed (hf : c.found = none) (hc : c.closing = true) : Answers c := by
  constructor
  · intro e hev
    rw [hf] at hev
    cases hev
  · intro _ ho
    rw [hc] at ho
    cases ho

end Answers

section Steps

variable (services : Services) (d : EventDigest) {w : World} {m : ℕ}

inductive Advances (world after : World) : Prop where
  | publishes (event : Event) (stored : Stored world.telemetry event after.telemetry)
      (published : after.published = world.published ++ [event])
      (returns : after.returns = world.returns)
  | keeps (alike : Alike world.telemetry after.telemetry)
      (published : after.published = world.published)
      (returns : ∀ call ∈ after.returns, call ∈ world.returns ∨ Answers call)

theorem finishNext_advances (entered : World) (ho : Ordered w.telemetry m)
    (hc : m < maximumSequence) (ha : Alike w.telemetry entered.telemetry)
    (hpub : entered.published = w.published) (hr : entered.returns = w.returns)
    {wait : Bool} (hw : wait = true → mustWait entered.telemetry a = false) :
    Advances w (finishNext entered a wait) := by
  refine .keeps (ha.trans ⟨rfl, rfl, rfl, rfl, .inl rfl, fun _ => .inl⟩) hpub ?_
  intro c hca
  rcases mem_append.mp hca with hh | hn
  · rw [hr] at hh
    exact .inl hh
  · rw [mem_singleton.mp hn]
    exact .inr (answers_selected (ha.ordered ho) hc rfl rfl rfl hw)

/-- Each operation keeps the ring or stores one event in it. -/
theorem step_advances (ho : Ordered w.telemetry m) (hc : m < maximumSequence)
    (op : Op) : Advances w (step services d w op) := by
  have hs : Advances w w := .keeps (Alike.refl _) rfl fun _ => .inl
  cases op with
  | emit hf =>
    have hr : EmitResult w.telemetry (emitProvider services d w.telemetry hf) :=
      emitProvider_result ho hc services hf
    dsimp only [step]
    split
    · rename_i e a he
      rw [he] at hr
      exact .publishes e hr rfl rfl
    · rename_i em a hot he
      rw [he] at hr
      cases em with
      | published e => exact absurd rfl (hot e)
      | refused | givenUp => exact .keeps hr rfl fun _ => .inl
  | next s a wait =>
    have hhn : Alike w.telemetry
        { w.telemetry with activeSubscribers := w.telemetry.activeSubscribers + 1 } :=
      ⟨rfl, rfl, rfl, rfl, .inl rfl, fun _ => .inl⟩
    dsimp only [step]
    split
    · exact hs
    split
    · rename_i hclo
      refine .keeps (Alike.refl _) rfl ?_
      intro c hca
      rcases mem_append.mp hca with hh | hn
      · exact .inl hh
      · rw [mem_singleton.mp hn]
        exact .inr (answers_closed rfl hclo)
    · split
      · exact .keeps hhn rfl fun _ => .inl
      rename_i hg
      refine finishNext_advances { w with telemetry := { w.telemetry with
        activeSubscribers := w.telemetry.activeSubscribers + 1 } } ho hc hhn
        rfl rfl ?_
      intro hw
      have hhs : mustWait w.telemetry a = false := by simpa [hw] using hg
      exact hhs
  | wake s =>
    dsimp only [step]
    split
    · exact hs
    split
    · exact hs
    · rename_i hg
      exact finishNext_advances (setWaiting w s none) ho hc (Alike.refl _)
        rfl rfl fun _ => by simpa [setWaiting] using hg
  | close => exact .keeps ⟨rfl, rfl, rfl, rfl, .inl rfl, fun _ => .inl⟩ rfl fun _ => .inl

end Steps

section Runs

variable (services : Services) (d : EventDigest) {w : World}

def History (published : List Event) (telemetry : ServerTelemetry) : Prop :=
  ∀ held ∈ telemetry.events, held.sequence ≠ 0 →
    ∃ event ∈ published, mark event = mark held ∧ (held.kind = noticeKind ∨ held = event)

variable {published : List Event} {held : Event} {t : ServerTelemetry}

theorem History.of_mark (h : History published t)
    (hm : mark held ∈ shape t) (hne : held.sequence ≠ 0) :
    ∃ e ∈ published, mark e = mark held := by
  obtain ⟨o, ho, hs⟩ := mem_map.mp hm
  have hsq : o.sequence = held.sequence := congrArg Prod.fst hs
  obtain ⟨e, hev, hmar, _⟩ := h o ho (by omega)
  exact ⟨e, hev, hmar.trans hs⟩

theorem History.alike {o : ServerTelemetry} (h : History published t) (ha : Alike t o) :
    History published o := by
  intro hl hh hne
  rcases ha.contents hl hh with hold | hk
  · exact h hl hold hne
  have hm : mark hl ∈ shape t := by
    rw [← ha.marks]
    exact mem_map_of_mem hh
  obtain ⟨e, hev, hs⟩ := h.of_mark hm hne
  exact ⟨e, hev, hs, .inl hk⟩

theorem History.stored {a : ServerTelemetry} (h : History published t) (h1 : Stored t e a) :
    History (published ++ [e]) a := by
  intro hl hh hne
  rcases h1.contents hl hh with rfl | hho | hk
  · exact ⟨hl, by simp, rfl, .inr rfl⟩
  · obtain ⟨o, ho, hr⟩ := h hl hho hne
    exact ⟨o, mem_append_left _ ho, hr⟩
  obtain ⟨slot, _, hs⟩ := h1.slot
  have hm : mark hl ∈ (shape t).set slot (mark e) := by
    rw [← hs]
    exact mem_map_of_mem hh
  rcases mem_or_eq_of_mem_set hm with hho | hn
  · obtain ⟨o, ho, hsa⟩ := h.of_mark hho hne
    exact ⟨o, mem_append_left _ ho, hsa, .inl hk⟩
  · exact ⟨e, by simp, hn.symm, .inl hk⟩

structure Kept (world : World) : Prop where
  ordered : Ordered world.telemetry world.published.length
  numbered : world.published.map Event.sequence = List.range' 1 world.published.length
  history : History world.published world.telemetry
  answers : ∀ call ∈ world.returns, Answers call

theorem step_published_le (w : World) (op : Op) :
    w.published.length ≤ (step services d w op).published.length := by
  cases op with
  | emit =>
    dsimp only [step]
    split <;> simp
  | next =>
    dsimp only [step]
    split
    · exact le_refl _
    · split
      · exact le_refl _
      · split <;> exact le_refl _
  | wake =>
    dsimp only [step]
    split
    · exact le_refl _
    · split <;> exact le_refl _
  | close => exact le_refl _

theorem step_kept (h : Kept w) (op : Op)
    (hc : (step services d w op).published.length < maximumSequence) :
    Kept (step services d w op) := by
  have hle := step_published_le services d w op
  rcases step_advances services d h.ordered (by omega) op with
    ⟨e, hs, hpub, hr⟩ | ⟨ha, hpub, hr⟩
  · have hl : (step services d w op).published.length = w.published.length + 1 := by
      rw [hpub, length_append]
      rfl
    refine ⟨?_, ?_, ?_, ?_⟩
    · rw [hl] at hc ⊢
      exact hs.ordered h.ordered hc
    · rw [hl, hpub, map_append, h.numbered, range'_concat]
      have hsq := hs.sequence
      rw [h.ordered.next] at hsq
      simp [hsq, Nat.add_comm]
    · rw [hpub]
      exact h.history.stored hs
    · rw [hr]
      exact h.answers
  · refine ⟨?_, ?_, ?_, ?_⟩
    · rw [hpub]
      exact ha.ordered h.ordered
    · rw [hpub]
      exact h.numbered
    · rw [hpub]
      exact h.history.alike ha
    · intro c hca
      rcases hr c hca with hh | hn
      · exact h.answers c hh
      · exact hn

theorem run_kept (h : Kept w) (ops : List Op)
    (hc : (run (step services d) w ops).published.length < maximumSequence) :
    Kept (run (step services d) w ops) := by
  induction ops generalizing w with
  | nil => exact h
  | cons op r ih =>
    apply ih
    · apply step_kept services d h op
      have hle : ∀ (ops : List Op) (w : World), w.published.length ≤
          (run (step services d) w ops).published.length := by
        intro ops w
        exact run_invariant (P := fun l => w.published.length ≤ l.published.length)
          (fun l op hl => hl.trans (step_published_le services d l op))
          (le_refl _) ops
      exact lt_of_le_of_lt (hle r _) hc
    · exact hc

theorem open_kept {s cap : ℕ} (h : telemetryOpen s cap = .ok t) : Kept (start t) := by
  unfold telemetryOpen at h
  split at h
  · cases h
  cases h
  have hsh : ∀ sl ∈ replicate cap (mark Event.zero), sl.1 = 0 := by
    intro sl hs
    rw [eq_of_mem_replicate hs]
    rfl
  refine ⟨⟨?_, ?_, ?_, ?_, rfl, ?_, ?_, ?_, le_refl _⟩, rfl, ?_, ?_⟩
  · simp [shape, start]
  · simp only [start]
    omega
  · simp [shape, start, occupied, mark, Event.zero, countP_replicate]
  · intro i j h1 h2 hf _ _ hn
    simp only [shape, start, map_replicate] at hf
    exact absurd (hsh h1 (mem_of_getElem? hf)) hn
  · intro sl hs
    simp only [shape, start, map_replicate] at hs
    exact le_of_eq (hsh sl hs)
  · rintro ⟨⟩
  · intro sl _ _ hn
    exact absurd rfl hn
  · intro held hh hn
    rw [eq_of_mem_replicate hh] at hn
    exact absurd rfl hn
  · rintro _ ⟨⟩

/-- A non-replaceable event only leaves for a non-replaceable one, when no other kind
is retained. -/
theorem step_evicts {m : ℕ} (ho : Ordered w.telemetry m) (hco : m < maximumSequence) (op : Op)
    (hh : held ∈ retainedEvents w.telemetry) (hk : replaceable held.kind = false)
    (hg : ∀ o ∈ retainedEvents (step services d w op).telemetry, o.sequence ≠ held.sequence) :
    ∃ e, (step services d w op).published = w.published ++ [e] ∧ replaceable e.kind = false ∧
      ∀ o ∈ retainedEvents w.telemetry, replaceable o.kind = false := by
  obtain ⟨hm, hne⟩ := mem_retainedEvents.mp hh
  have hl : mark held ∉ shape (step services d w op).telemetry := by
    intro hma
    obtain ⟨o, hot, hs⟩ := mem_map.mp hma
    have hseq : o.sequence = held.sequence := congrArg Prod.fst hs
    exact hg o (mem_retainedEvents.mpr ⟨hot, by omega⟩) hseq
  rcases step_advances services d ho hco op with
    ⟨e, hsto, hpub, _⟩ | ⟨ha, _, _⟩
  · obtain ⟨slot, ⟨htk, ht, hc⟩, hsh⟩ := hsto.slot
    obtain ⟨p, hp⟩ := mem_iff_getElem?.mp (mem_map_of_mem (f := mark) hm)
    -- the event can only have left through the slot that was taken
    have hsl : slot = p := by
      by_contra hot
      apply hl
      rw [hsh]
      refine mem_of_getElem? (i := p) ?_
      rw [getElem?_set, if_neg hot]
      exact hp
    subst hsl
    have hs : htk = mark held := Option.some.inj (ht.symm.trans hp)
    subst hs
    rcases hc with ⟨hf, _⟩ | ⟨_, _, hr | ⟨hev, hall⟩⟩
    · exact absurd hf hne
    · have hcn : replaceable held.kind = true := hr
      rw [hk] at hcn
      cases hcn
    · refine ⟨e, hpub, hev, ?_⟩
      intro o hot
      obtain ⟨hin, hu⟩ := mem_retainedEvents.mp hot
      exact hall (mark o) (mem_map_of_mem hin) hu
  · apply absurd _ hl
    rw [ha.marks]
    exact mem_map_of_mem hm

end Runs

section Feeding

def Feeds (first second : Return) : Prop := first.found.map Event.sequence = some second.after

def Follows (first second : Return) : Prop :=
  first.after ≤ second.after ∧ ∀ event, first.found = some event → event.sequence ≤ second.after

instance : Trans Follows Follows Follows :=
  ⟨fun h h' => ⟨h.1.trans h'.1, fun e hev => (h.2 e hev).trans h'.1⟩⟩

theorem Feeds.follows {f s : Return} (h : Feeds f s) (hans : Answers f) : Follows f s := by
  obtain ⟨e, hev, hsq⟩ := Option.map_eq_some_iff.mp h
  have ha := (hans.found e hev).2.1
  refine ⟨by omega, fun o ho => ?_⟩
  rw [hev] at ho
  rw [← Option.some.inj ho, hsq]

/-- A subscriber that feeds back sequence numbers sees them strictly increasing. -/
theorem chain_increasing {calls : List Return} (hc : calls.IsChain Feeds)
    (hans : ∀ c ∈ calls, Answers c) :
    (calls.filterMap Return.found).Pairwise fun f s => f.sequence < s.sequence := by
  have hf : calls.IsChain Follows := hc.imp_of_mem_imp fun f s hm _ h => h.follows (hans f hm)
  rw [pairwise_filterMap]
  refine hf.pairwise.imp_of_mem fun _ hs h e hev o ho => ?_
  exact (h.2 e hev).trans_lt ((hans _ hs).found o ho).2.1

end Feeding

section Retention

variable {services : Services} {digest : EventDigest}

/-- What the telemetry promises in every state of a run. -/
structure Retention (services : Services) (digest : EventDigest) (world : World) : Prop where
  distinct : ((retainedEvents world.telemetry).map Event.sequence).Nodup
  counted : world.telemetry.retainedCount = (retainedEvents world.telemetry).length
  genuine : ∀ held ∈ retainedEvents world.telemetry, ∃ event ∈ world.published,
    mark event = mark held ∧ (held.kind = noticeKind ∨ held = event)
  latest : ∀ event, world.published.getLast? = some event →
    ∃ held ∈ retainedEvents world.telemetry, mark held = mark event
  evicted : ∀ op, ∀ held ∈ retainedEvents world.telemetry, replaceable held.kind = false →
    (∀ other ∈ retainedEvents (step services digest world op).telemetry,
      other.sequence ≠ held.sequence) →
    ∃ event, (step services digest world op).published = world.published ++ [event] ∧
      replaceable event.kind = false ∧
      ∀ other ∈ retainedEvents world.telemetry, replaceable other.kind = false
  answers : ∀ call ∈ world.returns, Answers call
  increasing : ∀ calls : List Return, calls.Sublist world.returns → calls.IsChain Feeds →
    (calls.filterMap Return.found).Pairwise fun first second => first.sequence < second.sequence

variable {t : ServerTelemetry}

theorem Ordered.retained_nodup {m : ℕ}
    (h : Ordered t m) : ((retainedEvents t).map Event.sequence).Nodup := by
  rw [List.Nodup, pairwise_map, retainedEvents, pairwise_filter, pairwise_iff_getElem]
  intro i j hi hj hlt hu _ hs
  have hp : i = j := h.distinct i j (mark t.events[i]) (mark t.events[j])
    (by simp [shape, hi]) (by simp [shape, hj]) hs (by simpa [mark] using hu)
  omega

theorem Ordered.retained_length {m : ℕ} (h : Ordered t m) :
    t.retainedCount = (retainedEvents t).length := by
  rw [h.held, retainedEvents, ← countP_eq_length_filter, occupied, shape, countP_map]
  rfl

theorem Kept.latest {w : World} (h : Kept w) (hl : w.published.getLast? = some e) :
    ∃ held ∈ retainedEvents w.telemetry, mark held = mark e := by
  have hne : w.published ≠ [] := by
    rintro hnil
    rw [hnil] at hl
    cases hl
  have hp := length_pos_of_ne_nil hne
  have hmem : e ∈ w.published := mem_of_getLast? hl
  have hsq : e.sequence = w.published.length := by
    have hhm : (w.published.map Event.sequence).getLast? = some e.sequence := by
      rw [getLast?_map, hl]
      rfl
    rw [h.numbered, getLast?_range'] at hhm
    simp only [Nat.pos_iff_ne_zero.mp hp, if_false, Option.some.injEq] at hhm
    omega
  obtain ⟨slot, hs, hc⟩ := h.ordered.latest hp
  obtain ⟨held, hh, rfl⟩ := mem_map.mp hs
  have hsame : held.sequence = w.published.length := hc
  obtain ⟨o, ho, hm, _⟩ := h.history held hh (by omega)
  have hn : (w.published.map Event.sequence).Nodup := by
    rw [h.numbered]
    exact nodup_range' 1
  have hoth : o.sequence = held.sequence := congrArg Prod.fst hm
  have heq : o = e := inj_on_of_nodup_map hn ho hmem (by omega)
  refine ⟨held, mem_retainedEvents.mpr ⟨hh, by omega⟩, ?_⟩
  rw [← hm, heq]

/-- Along every run the ring holds the published events it should, and subscribers get them in
order. -/
theorem telemetry_retention {slotLimit capacity : ℕ} {telemetry : ServerTelemetry}
    (hopen : telemetryOpen slotLimit capacity = .ok telemetry) (ops : List Op)
    (hcount : (run (step services digest) (start telemetry) ops).published.length <
      maximumSequence) :
    Retention services digest (run (step services digest) (start telemetry) ops) := by
  have hkept := run_kept services digest (open_kept hopen) ops hcount
  refine ⟨hkept.ordered.retained_nodup, hkept.ordered.retained_length, ?_, ?_, ?_,
    hkept.answers, ?_⟩
  · intro held hheld
    obtain ⟨hmem, hne⟩ := mem_retainedEvents.mp hheld
    exact hkept.history held hmem hne
  · intro event hlast
    exact hkept.latest hlast
  · intro op held hheld hkind hgone
    exact step_evicts services digest hkept.ordered hcount op hheld hkind hgone
  · intro calls hsub hchain
    exact chain_increasing hchain fun call hcall => hkept.answers call (hsub.subset hcall)

end Retention

section Exhaustion

variable (d : EventDigest) (services : Services) {t : ServerTelemetry} {m : ℕ}
variable {fa : EmitFacts}

theorem emit_publishes {w : World} (h : Ordered w.telemetry m)
    (hc : m < maximumSequence) (ho : w.telemetry.closing = false)
    (hok : emitCheck services fa = .ok ()) (hk : replaceable fa.kind = false) :
    ∃ s a, step services d w (.emit fa) =
        { w with telemetry := a, published := w.published ++ [s] } ∧
      Stored w.telemetry s a ∧ a.closing = false := by
  have hb : replaceable (buildEvent fa).kind = false := by
    rw [buildEvent_kind]
    exact hk
  obtain ⟨s, a, hemi, hclo⟩ := emitLocked_publishes d h hc ho hb
  have hp : emitProvider services d w.telemetry fa = (.published s, a) := by
    rw [emitProvider, hok]
    exact hemi
  refine ⟨s, a, ?_, ?_, hclo⟩
  · simp only [step, hp]
  · have hr : EmitResult w.telemetry (emitProvider services d w.telemetry fa) :=
      emitProvider_result h hc services fa
    rw [hp] at hr
    exact hr

theorem emits_kept {s cap : ℕ} (ho : telemetryOpen s cap = .ok t)
    (hok : emitCheck services fa = .ok ()) (hki : replaceable fa.kind = false) (n : ℕ)
    (hn : n < maximumSequence) :
    ∃ w, run (step services d) (start t) (List.replicate n (.emit fa)) = w ∧
      Kept w ∧ w.published.length = n ∧ w.telemetry.closing = false ∧
      w.telemetry.capacity = cap ∧ w.waiting = fun _ => none := by
  induction n with
  | zero =>
    refine ⟨start t, rfl, open_kept ho, rfl, ?_, ?_, rfl⟩ <;>
    · unfold telemetryOpen at ho
      split at ho
      · cases ho
      · cases ho
        rfl
  | succ n ih =>
    obtain ⟨w, hr, hk, hl, hc, hcap, hwai⟩ := ih (by omega)
    obtain ⟨st, a, hs, hsto, ha⟩ := emit_publishes d services hk.ordered (by omega) hc hok hki
    refine ⟨step services d w (.emit fa), ?_, ?_, ?_, ?_, ?_, ?_⟩
    · rw [replicate_succ', run_append, hr]
      rfl
    · apply step_kept services d hk
      rw [hs]
      simp only [length_append, length_singleton]
      omega
    · rw [hs]
      simp [hl]
    · rw [hs]
      exact ha
    · rw [hs]
      exact hsto.capacity.trans hcap
    · rw [hs]
      exact hwai

def plainFacts : EmitFacts where
  scope := none
  kind := 0
  severity := 0
  sessionId := []
  requestId := []
  turnId := []
  phase := []
  valueA := 0
  valueB := 0
  valueC := 0
  seconds := 0
  rate := 0
  speculation := none
  provider := none
  measurement := none
  wallTimeNs := 0
  monotonicTimeNs := 0
  processId := 0

def plainServices : Services := ⟨fun _ => none, fun _ => false⟩

def plainDigest : EventDigest := fun _ => WireCodecs.CText.empty 65

theorem plainFacts_ok : emitCheck plainServices plainFacts = .ok () := rfl

/-- The event with the last sequence number is retained and never found. -/
theorem last_event_not_found :
    ∃ telemetry, telemetryOpen 4096 1 = .ok telemetry ∧
      ∃ call ∈ (run (step plainServices plainDigest) (start telemetry)
          (List.replicate maximumSequence (.emit plainFacts) ++ [.next 0 0 false])).returns,
        call.closing = false ∧ call.found = none ∧
          ∃ held ∈ call.retained, call.after < held.sequence := by
  obtain ⟨telemetry, hopen⟩ : ∃ telemetry, telemetryOpen 4096 1 = .ok telemetry := ⟨_, rfl⟩
  refine ⟨telemetry, hopen, ?_⟩
  obtain ⟨world, hrun, hkept, hlength, hclosing, hcapacity, hwaiting⟩ :=
    emits_kept plainDigest plainServices hopen plainFacts_ok rfl (maximumSequence - 1) (by decide)
  obtain ⟨stored, after, hstep, hstored, hafter⟩ := emit_publishes plainDigest plainServices
    hkept.ordered (by rw [hlength]; decide) hclosing plainFacts_ok rfl
  have hlast : ∀ held ∈ after.events, held.sequence = maximumSequence := by
    intro held hheld
    obtain ⟨slot, ⟨taken, htaken, _⟩, hshape⟩ := hstored.slot
    have hsize := hkept.ordered.size
    have hslot : slot < (shape world.telemetry).length := (List.getElem?_eq_some_iff.mp htaken).1
    obtain ⟨other, hone⟩ := length_eq_one_iff.mp (hsize.trans hcapacity)
    have hzero : slot = 0 := by
      rw [hone] at hslot
      exact Nat.lt_one_iff.mp hslot
    have hmark : mark held ∈ shape after := mem_map_of_mem hheld
    rw [hshape, hone, hzero] at hmark
    have hsame : held.sequence = stored.sequence :=
      congrArg Prod.fst (mem_singleton.mp hmark)
    rw [hsame, hstored.sequence, hkept.ordered.next, hlength]
    rfl
  have hnone : selectNext after 0 = none := by
    rcases hslot : nextSlot after 0 with _ | slot
    · rw [selectNext, hslot]
      rfl
    · obtain ⟨held, hheld, _, hlimit, _⟩ := leastSlot_some hslot
      rw [hlast held (mem_of_getElem? hheld)] at hlimit
      exact absurd hlimit (lt_irrefl _)
  have hreturns : (step plainServices plainDigest
      { world with telemetry := after, published := world.published ++ [stored] }
      (.next 0 0 false)).returns =
      world.returns ++ [⟨0, false, none, retainedEvents after, false⟩] := by
    rw [← hafter, ← hnone]
    simp only [step, hwaiting, hafter]
    rfl
  have hmaximum : maximumSequence = maximumSequence - 1 + 1 := by decide
  rw [run_append, hmaximum, replicate_succ', run_append, hrun]
  simp only [run]
  rw [hstep, hreturns]
  refine ⟨_, mem_append_right _ mem_cons_self, rfl, rfl, ?_⟩
  obtain ⟨slot, ⟨taken, htaken, _⟩, hshape⟩ := hstored.slot
  have hmark : mark stored ∈ shape after := by
    rw [hshape]
    exact List.mem_set (List.getElem?_eq_some_iff.mp htaken).1 _
  obtain ⟨held, hheld, _⟩ := mem_map.mp hmark
  have hsequence := hlast held hheld
  have hpositive : 0 < held.sequence := by
    rw [hsequence]
    decide
  exact ⟨held, mem_retainedEvents.mpr ⟨hheld, Nat.pos_iff_ne_zero.mp hpositive⟩, hpositive⟩

def progressFacts : EmitFacts :=
  { plainFacts with kind := code EventKind.generationProgress.ctorIdx }

def fullRingOps : List Op :=
  [.next 0 0 true, .emit plainFacts, .wake 0, .emit progressFacts, .emit plainFacts,
    .next 1 1 false, .emit plainFacts, .next 2 1 false, .next 3 4 true, .close, .wake 3]

/-- A ring of three receives four events: the progress event is given up for the last one, and
subscribers before and after that see what is retained. -/
theorem full_ring_retention :
    ∃ telemetry world, telemetryOpen 4096 3 = .ok telemetry ∧
      run (step plainServices plainDigest) (start telemetry) fullRingOps = world ∧
      world.published.map Event.sequence = [1, 2, 3, 4] ∧
      (retainedEvents world.telemetry).map Event.sequence = [1, 4, 3] ∧
      world.returns.map (fun call => call.found.map Event.sequence) =
        [some 1, some 2, some 3, none] ∧
      Retention plainServices plainDigest world := by
  refine ⟨_, _, rfl, rfl, by decide +kernel, by decide +kernel, by decide +kernel, ?_⟩
  apply telemetry_retention (show telemetryOpen 4096 3 = .ok _ from rfl)
  decide +kernel

end Exhaustion

end Yvex.Telemetry
