import Yvex.IncrementalDecoder

/-!
# Incremental decoding is batch decoding

A decoder that was only asked for the committed tokens, with nothing in its way,
is the yardstick: whatever else was tried, refused or dropped, the decoder is in
the state of that one. What it has emitted and what it keeps are the pieces of
the committed tokens, cut behind the last complete code point.
-/

set_option autoImplicit false

namespace Yvex.IncrementalDecoder
open AttentionData StateRecipe WireCodecs ProviderRequest TokenizerUtf8 TokenizerPieces Runs List

variable {skip : Bool} {id : ℕ} {p : List UInt8 × Bool} {s : DecoderState} {f : Fragment}
  {d : Decoder}

section Inversion

variable {done : Unit}

theorem decodeCancelled_ok {cancelled : Bool} :
    decodeCancelled cancelled = .ok done ↔ cancelled = false := by
  cases cancelled <;> simp [decodeCancelled]

variable {digest : TokenDigest} {v : Vocabulary} {o : DecodeOptions}

theorem pieceDecode_allocated {allocated : Bool} (h : pieceDecode v skip allocated id = .ok p) :
    pieceDecode v skip true id = .ok p := by
  cases allocated with
  | true => exact h
  | false =>
    unfold pieceDecode at h ⊢
    split at h
    · cases h
    split at h
    · rename_i hs
      rw [if_pos hs]
      exact h
    · cases h

variable {c : Call}

theorem decoderStageToken_ok {next : DecoderState} :
    decoderStageToken digest v o c s id = .ok (f, next) ↔
      ∃ cl p su n, c.cancelled = false ∧ tokenClassify v id = .ok cl ∧
        pieceDecode v o.skipSpecialTokens c.pieceAllocated id = .ok (p, su) ∧
        p.length ≤ combinedBytes - s.pending.length ∧
        utf8Prefix (s.pending ++ p) = some n ∧
        (n ≠ 0 → c.fragmentAllocated = true) ∧
        (f, next) = stagedToken digest v o s id cl su (s.pending ++ p) n := by
  simp only [decoderStageToken, CheckedSteps.bind_ok]
  constructor
  · rintro ⟨_, hca, cl, hcl, ⟨p, su⟩, hp, h⟩
    dsimp only at h
    split at h
    · cases h
    split at h
    · cases h
    rename_i n hpr
    split at h
    · cases h
    rename_i hfra
    refine ⟨cl, p, su, n, decodeCancelled_ok.mp hca, hcl,
      hp, by omega, hpr, ?_, (Except.ok.inj h).symm⟩
    intro hc
    simpa [hc] using hfra
  · rintro ⟨cl, p, su, n, hca, hcl, hp, hb, hpr, hfra, hres⟩
    refine ⟨(), decodeCancelled_ok.mpr hca, cl, hcl, (p, su), hp, ?_⟩
    dsimp only
    rw [if_neg (by omega), hres, hpr]
    by_cases hc : n = 0
    · simp [hc]
    · simp [hfra hc]

theorem decoderStageToken_calm {r : Fragment × DecoderState}
    (h : decoderStageToken digest v o c s id = .ok r) :
    decoderStageToken digest v o .calm s id = .ok r := by
  obtain ⟨cl, p, su, n, _, hc, hp, hb, hpre, _, hr⟩ := decoderStageToken_ok.mp h
  exact decoderStageToken_ok.mpr ⟨cl, p, su, n, rfl, hc,
    pieceDecode_allocated hp, hb, hpre, fun _ => rfl, hr⟩

theorem decoderEnter_ok : decoderEnter d c = .ok done ↔ d.active = false ∧ c.busy = false := by
  unfold decoderEnter
  cases d.active <;> cases c.busy <;> simp

theorem idleEnter_ok {si : String} : idleEnter d c si = .ok done ↔
      d.active = false ∧ c.busy = false ∧ d.transactionActive = false := by
  simp only [idleEnter, CheckedSteps.bind_ok, decoderEnter_ok]
  constructor
  · rintro ⟨_, ⟨ha, hb⟩, h⟩
    refine ⟨ha, hb, ?_⟩
    by_contra ho
    rw [if_pos (by simpa using ho)] at h
    cases h
  · rintro ⟨ha, hb, ho⟩
    exact ⟨(), ⟨ha, hb⟩, by rw [if_neg (by simp [ho])]⟩

theorem decoderPush_ok {a : Decoder} : decoderPush digest v o d c id = .ok (f, a) ↔
      d.active = false ∧ c.busy = false ∧ d.transactionActive = false ∧
      ∃ s, decoderStageToken digest v o c d.state id = .ok (f, s) ∧ a = { d with state := s } := by
  simp only [decoderPush, CheckedSteps.bind_ok, idleEnter_ok]
  constructor
  · rintro ⟨_, ⟨ha, hb, ho⟩, ⟨hs, s⟩, hh, h⟩
    cases h
    exact ⟨ha, hb, ho, s, hh, rfl⟩
  · rintro ⟨ha, hb, ho, s, hh, rfl⟩
    exact ⟨(), ⟨ha, hb, ho⟩, (f, s), hh, rfl⟩

end Inversion

variable {fs : List Fragment} {ids : List ℕ}

section Replay

variable (digest : TokenDigest) (vocabulary : Vocabulary) (options : DecodeOptions)

def replayFrom : DecoderState → List Fragment → List ℕ → Option (DecoderState × List Fragment)
  | state, fragments, [] => some (state, fragments)
  | state, fragments, id :: rest =>
    match decoderStageToken digest vocabulary options .calm state id with
    | .error _ => none
    | .ok (fragment, next) => replayFrom next (fragments ++ [fragment]) rest

def replay (ids : List ℕ) : Option (DecoderState × List Fragment) :=
  replayFrom digest vocabulary options (initialState digest vocabulary options) [] ids

variable {digest : TokenDigest} {v : Vocabulary} {o : DecodeOptions} {l : DecoderState}
  {b : List Fragment}

theorem replayFrom_concat {next : DecoderState} (h : replayFrom digest v o s b ids = some (l, fs))
    (hsta : decoderStageToken digest v o .calm l id = .ok (f, next)) :
    replayFrom digest v o s b (ids ++ [id]) = some (next, fs ++ [f]) := by
  induction ids generalizing s b with
  | nil =>
    cases h
    simp [replayFrom, hsta]
  | cons fi r ih =>
    rw [cons_append, replayFrom]
    rw [replayFrom] at h
    split at h
    · cases h
    · exact ih h

structure Streamed (vocabulary : Vocabulary) (options : DecodeOptions) (ids : List ℕ)
    (state : DecoderState) (fragments : List Fragment) : Prop where
  pieces : joinedPieces vocabulary options.skipSpecialTokens ids =
    some (fragments.flatMap Fragment.bytes ++ state.pending)
  complete : ∀ fragment ∈ fragments, Utf8 fragment.bytes
  pending : Pending state.pending

/-- A staged token adds its piece to the fragments and what is pending. -/
theorem Streamed.step (h : Streamed v o ids s fs)
    (hsta : decoderStageToken digest v o .calm s id = .ok (f, l)) :
    Streamed v o (ids ++ [id]) l (fs ++ [f]) := by
  obtain ⟨cl, p, su, n, _, _, hp, _, hpre, _, hr⟩ := decoderStageToken_ok.mp hsta
  obtain ⟨whole, t, hhm, hc, hhc, hta⟩ := (utf8Prefix_iff _ _).mp hpre
  obtain ⟨hfra, hn⟩ := Prod.mk.inj hr
  have ht : (s.pending ++ p).take n = whole := by rw [hhm, hc, take_left]
  have hd : (s.pending ++ p).drop n = t := by rw [hhm, hc, drop_left]
  have hb : f.bytes = whole := by
    rw [hfra]
    exact ht
  have hhp : l.pending = t := by
    rw [hn]
    exact hd
  constructor
  · rw [joinedPieces_append]
    refine ⟨_, p, h.pieces, ?_, ?_⟩
    · exact joinedPieces_cons_some.mpr ⟨p, [], pieceBytes_some.mpr ⟨su, hp⟩, rfl, by simp⟩
    · rw [flatMap_append, hhp]
      simp [hb, hhm]
  · intro ot ho
    rcases mem_append.mp ho with hh | hnew
    · exact h.complete ot hh
    · rw [mem_singleton.mp hnew, hb]
      exact hhc
  · rw [hhp]
    exact hta

theorem replayFrom_streamed {dn : List ℕ} (h : Streamed v o dn s b)
    (hr : replayFrom digest v o s b ids = some (l, fs)) :
    Streamed v o (dn ++ ids) l fs := by
  induction ids generalizing dn s b with
  | nil =>
    cases hr
    rw [append_nil]
    exact h
  | cons id r ih =>
    rw [replayFrom] at hr
    split at hr
    · cases hr
    · rename_i hsta
      rw [append_cons]
      exact ih (h.step hsta) hr

theorem replay_streamed (h : replay digest v o ids = some (s, fs)) :
    Streamed v o ids s fs := by
  have hem : Streamed v o [] (initialState digest v o) [] := ⟨rfl, by simp, .inl rfl⟩
  exact replayFrom_streamed hem h

end Replay

section Invariant

variable {digest : TokenDigest} {v : Vocabulary} {o : DecodeOptions} {w : World}

structure Faithful (digest : TokenDigest) (vocabulary : Vocabulary) (options : DecodeOptions)
    (world : World) : Prop where
  committed : replay digest vocabulary options world.committed =
    some (world.decoder.state, world.fragments)
  idle : world.transaction = none →
    world.decoder.active = false ∧ world.decoder.transactionActive = false
  staged : ∀ transaction, world.transaction = some transaction →
    world.decoder.transactionActive = true ∧ world.decoder.active = transaction.prepared ∧
      replay digest vocabulary options (world.committed ++ world.staged) =
        some (transaction.state, world.fragments ++ world.stagedFragments)

section Steps

variable (h : Faithful digest v o w)
include h

theorem Faithful.no_transaction
    (ho : w.decoder.transactionActive = false) : w.transaction = none := by
  rcases htr : w.transaction with _ | t
  · rfl
  · rw [(h.staged t htr).1] at ho
    cases ho

theorem push_faithful (id : ℕ) (c : Call) :
    Faithful digest v o (step digest v o w (.push id c)) := by
  dsimp only [step]
  split
  · exact h
  rename_i hp
  obtain ⟨_, _, ho, s, hsta, rfl⟩ := decoderPush_ok.mp hp
  have hn := h.no_transaction ho
  refine ⟨replayFrom_concat h.committed (decoderStageToken_calm hsta), ?_, ?_⟩
  · intro _
    exact h.idle hn
  · intro t htr
    rw [hn] at htr
    cases htr

theorem begin_faithful (c : Call) (allocated : Bool) : Faithful digest v o
      (step digest v o w (.begin c allocated)) := by
  dsimp only [step]
  split
  · exact h
  rename_i t d hb
  unfold transactionBegin at hb
  split at hb
  · cases hb
  obtain ⟨_, he, hr⟩ := CheckedSteps.bind_ok.mp hb
  split at hr
  · cases hr
  cases hr
  refine ⟨h.committed, ?_, ?_⟩
  · nofun
  · intro t htr
    cases htr
    refine ⟨rfl, (decoderEnter_ok.mp he).1, ?_⟩
    simpa using h.committed

theorem stage_faithful (id : ℕ) (c : Call) :
    Faithful digest v o (step digest v o w (.stage id c)) := by
  dsimp only [step]
  split
  · exact h
  rename_i t htr
  obtain ⟨hop, ha, hrep⟩ := h.staged t htr
  split
  · exact h
  rename_i hp
  unfold transactionPush at hp
  split at hp
  · cases hp
  obtain ⟨⟨hs, s⟩, hsta, hr⟩ := CheckedSteps.bind_ok.mp hp
  cases hr
  refine ⟨h.committed, ?_, ?_⟩
  · nofun
  · intro ot ho
    cases ho
    refine ⟨hop, ha, ?_⟩
    rw [← append_assoc, ← append_assoc]
    exact replayFrom_concat hrep (decoderStageToken_calm hsta)

theorem prepare_faithful (c : Call) : Faithful digest v o (step digest v o w (.prepare c)) := by
  dsimp only [step]
  split
  · exact h
  rename_i t htr
  obtain ⟨hop, hact, hrep⟩ := h.staged t htr
  split
  · exact h
  rename_i hp
  unfold transactionPrepare at hp
  split at hp
  · cases hp
  obtain ⟨_, _, hr⟩ := CheckedSteps.bind_ok.mp hp
  split at hr
  · cases hr
  cases hr
  refine ⟨h.committed, ?_, ?_⟩
  · nofun
  · intro ot ho
    cases ho
    exact ⟨hop, rfl, hrep⟩

theorem publish_faithful : Faithful digest v o (step digest v o w .publish) := by
  dsimp only [step]
  split
  · exact h
  rename_i t htr
  obtain ⟨_, _, hr⟩ := h.staged t htr
  split
  · refine ⟨hr, fun _ => ⟨rfl, rfl⟩, ?_⟩
    nofun
  · exact h

theorem abort_faithful : Faithful digest v o (step digest v o w .abort) := by
  dsimp only [step]
  split
  · exact h
  rename_i t htr
  obtain ⟨_, ha, _⟩ := h.staged t htr
  refine ⟨h.committed, fun _ => ⟨?_, rfl⟩, ?_⟩
  · simp only [transactionAbort, ha]
    split
    · rfl
    · rename_i hp
      simpa using hp
  · nofun

theorem reset_faithful (c : Call) : Faithful digest v o (step digest v o w (.reset c)) := by
  dsimp only [step]
  split
  · exact h
  rename_i hh
  obtain ⟨_, he, hr⟩ := CheckedSteps.bind_ok.mp hh
  obtain ⟨_, _, ho⟩ := idleEnter_ok.mp he
  have hn := h.no_transaction ho
  cases hr
  refine ⟨rfl, fun _ => h.idle hn, ?_⟩
  intro t htr
  rw [hn] at htr
  cases htr

theorem step_faithful (op : Op) : Faithful digest v o (step digest v o w op) := by
  cases op with
  | push id c => exact push_faithful h id c
  | begin c hal => exact begin_faithful h c hal
  | stage id c => exact stage_faithful h id c
  | prepare c => exact prepare_faithful h c
  | publish => exact publish_faithful h
  | abort => exact abort_faithful h
  | finish => exact h
  | reset c => exact reset_faithful h c

end Steps

theorem open_faithful (h : decoderOpen digest v o = .ok d) :
    v.isSealed = true ∧ Faithful digest v o (start d) := by
  unfold decoderOpen at h
  split at h
  · rename_i hsea
    cases h
    refine ⟨hsea, rfl, fun _ => ⟨rfl, rfl⟩, ?_⟩
    nofun
  · cases h

end Invariant

variable {bytes : List UInt8}

section Success

variable {digest : TokenDigest} {v : Vocabulary} {o : DecodeOptions} {w : World}

theorem utf8_flatMap (h : ∀ f ∈ fs, Utf8 f.bytes) : Utf8 (fs.flatMap Fragment.bytes) := by
  induction fs with
  | nil => exact utf8_nil
  | cons f r ih => exact (h f mem_cons_self).append (ih fun ot ho => h ot (mem_cons_of_mem _ ho))

def openTail (bytes : List UInt8) : List UInt8 := utf8Scan bytes.length bytes

theorem Streamed.openTail (h : Streamed v o ids s fs) :
    openTail (fs.flatMap Fragment.bytes ++ s.pending) = s.pending := by
  obtain ⟨t, ht⟩ := utf8_flatMap h.complete
  have hlen := encodeText_length t
  rw [IncrementalDecoder.openTail, ← ht]
  apply utf8Scan_text t h.pending.utf8Next
  rw [length_append]
  omega

def PieceBound (vocabulary : Vocabulary) (skipSpecial : Bool) (done ids : List ℕ) : Prop :=
  -- Each piece fits behind the beginning of a code point that is open when its token comes.
  ∀ before id after, ids = before ++ id :: after →
    ∀ front piece, joinedPieces vocabulary skipSpecial (done ++ before) = some front →
      pieceBytes vocabulary skipSpecial id = some piece →
        piece.length ≤ combinedBytes - (openTail front).length

theorem PieceBound.tail {dn r : List ℕ} (h : PieceBound v skip dn (id :: r)) :
    PieceBound v skip (dn ++ [id]) r := by
  intro b ho a hr fr p hf
  rw [append_assoc] at hf
  exact h (id :: b) ho a (by rw [hr]; rfl) fr p hf

theorem tokenClassify_of_piece {allocated : Bool} (h : pieceDecode v skip allocated id = .ok p) :
    ∃ cl, tokenClassify v id = .ok cl := by
  unfold pieceDecode at h
  unfold tokenClassify
  split at h
  · cases h
  · exact ⟨_, rfl⟩

theorem stage_accepts {re : List ℕ} (h : Streamed v o ids s fs)
    (hby : joinedPieces v o.skipSpecialTokens (ids ++ id :: re) = some bytes)
    (ht : Utf8 bytes)
    (hb : PieceBound v o.skipSpecialTokens ids (id :: re)) :
    ∃ r, decoderStageToken digest v o .calm s id = .ok r := by
  obtain ⟨fr, b, hf, hbeh, rfl⟩ := joinedPieces_append.mp hby
  obtain ⟨p, l, hp, _, rfl⟩ := joinedPieces_cons_some.mp hbeh
  obtain ⟨su, hd⟩ := pieceBytes_some.mp hp
  obtain ⟨cl, hc⟩ := tokenClassify_of_piece hd
  have hs : fr = fs.flatMap Fragment.bytes ++ s.pending := Option.some.inj (hf.symm.trans h.pieces)
  subst hs
  have hfi : p.length ≤ combinedBytes - s.pending.length := by
    have hle := hb [] id re rfl _ p (by rw [append_nil]; exact h.pieces) hp
    rwa [h.openTail] at hle
  have hr : Utf8 (s.pending ++ p ++ l) := by
    apply (utf8_flatMap h.complete).cancel
    simpa using ht
  obtain ⟨whole, t, hcom, hh, hta⟩ := front_of_utf8 hr
  have hpre : utf8Prefix (s.pending ++ p) = some whole.length :=
    (utf8Prefix_iff _ _).mpr ⟨whole, t, hcom, rfl, hh, hta⟩
  exact ⟨stagedToken digest v o s id cl su (s.pending ++ p) whole.length,
    decoderStageToken_ok.mpr ⟨cl, p, su, whole.length, rfl, hc, hd, hfi, hpre, fun _ => rfl, rfl⟩⟩

theorem pushes_accepted (h : Faithful digest v o w) (hn : w.transaction = none)
    (hby : joinedPieces v o.skipSpecialTokens (w.committed ++ ids) = some bytes)
    (ht : Utf8 bytes)
    (hb : PieceBound v o.skipSpecialTokens w.committed ids) :
    ∃ a, run (step digest v o) w (ids.map fun id => .push id .calm) = a ∧
      Faithful digest v o a ∧ a.transaction = none ∧
      a.committed = w.committed ++ ids := by
  induction ids generalizing w with
  | nil => exact ⟨w, rfl, h, hn, by simp⟩
  | cons id r ih =>
    obtain ⟨⟨f, s⟩, hsta⟩ := stage_accepts (replay_streamed h.committed) hby ht hb
    obtain ⟨hact, ho⟩ := h.idle hn
    have hp : decoderPush digest v o w.decoder .calm id = .ok (f, { w.decoder with state := s }) :=
      decoderPush_ok.mpr ⟨hact, rfl, ho, s, hsta, rfl⟩
    have hs : step digest v o w (.push id .calm) = { w with
          decoder := { w.decoder with state := s }
          committed := w.committed ++ [id]
          fragments := w.fragments ++ [f] } := by
      simp only [step, hp]
    have hne := push_faithful h id .calm
    rw [hs] at hne
    obtain ⟨a, hr, ha, hid, hc⟩ := ih hne hn (by simpa using hby) hb.tail
    refine ⟨a, ?_, ha, hid, by simpa using hc⟩
    rw [map_cons, run, hs]
    exact hr

theorem finish_accepts (digest : TokenDigest) (o : DecodeOptions) (ha : d.active = false)
    (ho : d.transactionActive = false) (hp : d.state.pending = []) :
    decoderFinish digest o d .calm = .ok (finishFragment digest d) ∧
      (finishFragment digest d).pendingByteCount = 0 := by
  have he : idleEnter d .calm "tokenizer.decoder.finish" = .ok () := idleEnter_ok.mpr ⟨ha, rfl, ho⟩
  refine ⟨CheckedSteps.bind_ok.mpr ⟨(), he, CheckedSteps.bind_ok.mpr ⟨(), rfl, ?_⟩⟩, ?_⟩
  · rw [if_neg (by simp [hp])]
  · exact congrArg length hp

end Success

section Promise

/-- What a decoder promises in every state of a run. -/
structure Incremental (digest : TokenDigest) (vocabulary : Vocabulary) (options : DecodeOptions)
    (world : World) : Prop where
  undisturbed : replay digest vocabulary options world.committed =
    some (world.decoder.state, world.fragments)
  batch : world.fragments.flatMap Fragment.bytes ++ world.decoder.state.pending ≠ [] →
    ∃ result, decode digest vocabulary { options with requireCompleteUtf8 := false }
        (fun _ => false) world.committed = .ok result ∧
      result.bytes = world.fragments.flatMap Fragment.bytes ++ world.decoder.state.pending
  complete : ∀ fragment ∈ world.fragments, Utf8 fragment.bytes
  candidate : ∀ transaction, world.transaction = some transaction →
    ∀ fragment ∈ world.stagedFragments, Utf8 fragment.bytes
  pending : world.decoder.state.pending.length ≤ 3
  accepts : world.transaction = none → ∀ ids result,
    decode digest vocabulary { options with requireCompleteUtf8 := false } (fun _ => false)
      (world.committed ++ ids) = .ok result →
    Utf8 result.bytes → PieceBound vocabulary options.skipSpecialTokens world.committed ids →
    ∃ after, run (step digest vocabulary options) world (ids.map fun id => .push id .calm) = after ∧
      after.committed = world.committed ++ ids ∧ after.decoder.state.pending = [] ∧
      ∃ fragment, decoderFinish digest options after.decoder .calm = .ok fragment ∧
        fragment.pendingByteCount = 0

variable {digest : TokenDigest} {v : Vocabulary} {o : DecodeOptions} {w : World}

theorem Faithful.accepts (h : Faithful digest v o w) (hn : w.transaction = none)
    (hb : joinedPieces v o.skipSpecialTokens (w.committed ++ ids) = some bytes)
    (ht : Utf8 bytes)
    (hbo : PieceBound v o.skipSpecialTokens w.committed ids) :
    ∃ a, run (step digest v o) w (ids.map fun id => .push id .calm) = a ∧
      a.committed = w.committed ++ ids ∧ a.decoder.state.pending = [] ∧
      ∃ f, decoderFinish digest o a.decoder .calm = .ok f ∧ f.pendingByteCount = 0 := by
  obtain ⟨a, hr, ha, hid, hc⟩ := pushes_accepted h hn hb ht hbo
  have hs := replay_streamed ha.committed
  have hh : a.decoder.state.pending = [] := by
    apply hs.pending.nil_of_utf8
    apply (utf8_flatMap hs.complete).cancel
    have hp := hs.pieces
    rw [hc, hb] at hp
    rw [← Option.some.inj hp]
    exact ht
  obtain ⟨hact, ho⟩ := ha.idle hid
  obtain ⟨hf, hco⟩ := finish_accepts digest o hact ho hh
  exact ⟨a, hr, hc, hh, finishFragment digest a.decoder, hf, hco⟩

variable {digest : TokenDigest} {vocabulary : Vocabulary} {options : DecodeOptions}

/-- In every state of a run the fragments are the text of the committed tokens so far, in whole
code points. -/
theorem incremental_decoding {decoder : Decoder}
    (hopen : decoderOpen digest vocabulary options = .ok decoder) (ops : List Op) :
    Incremental digest vocabulary options
      (run (step digest vocabulary options) (start decoder) ops) := by
  obtain ⟨hsealed, hstart⟩ := open_faithful hopen
  have hfaithful : Faithful digest vocabulary options
      (run (step digest vocabulary options) (start decoder) ops) :=
    run_invariant (P := Faithful digest vocabulary options)
      (fun _ op hworld => step_faithful hworld op) hstart ops
  have hstreamed := replay_streamed hfaithful.committed
  refine ⟨hfaithful.committed, ?_, hstreamed.complete, ?_, hstreamed.pending.length, ?_⟩
  · intro hbytes
    obtain ⟨result, hresult, hsame, _⟩ := decode_ok digest
      { options with requireCompleteUtf8 := false } hsealed hstreamed.pieces
      (by intro hrequire; cases hrequire) hbytes
    exact ⟨result, hresult, hsame⟩
  · intro transaction htransaction fragment hfragment
    have hstaged := replay_streamed (hfaithful.staged transaction htransaction).2.2
    exact hstaged.complete fragment (mem_append_right _ hfragment)
  · intro hnone ids result hresult htext hbound
    have hpieces := decode_pieces hresult
    exact hfaithful.accepts hnone hpieces htext hbound

def threeBytes : Vocabulary where
  tokens := [⟨[0xc3, 0xa2], .normal⟩, ⟨[0xc4, 0xa4], .normal⟩, ⟨[0xc2, 0xac], .normal⟩]
  eos := ⟨false, 0⟩
  pad := ⟨false, 0⟩
  unk := ⟨false, 0⟩
  planIdentity := CText.empty 65
  isSealed := true

def emptyDigest : TokenDigest := fun _ => CText.empty 65

theorem three_pushes_incremental :
    ∃ decoder, decoderOpen emptyDigest threeBytes ⟨true, true⟩ = .ok decoder ∧
      Incremental emptyDigest threeBytes ⟨true, true⟩
        (run (step emptyDigest threeBytes ⟨true, true⟩) (start decoder)
          [.push 0 .calm, .begin .calm true, .stage 1 .calm, .abort, .push 1 .calm,
            .push 2 .calm]) :=
  ⟨_, rfl, incremental_decoding rfl _⟩

/-- A code point that is not complete: the decoder keeps its first byte, and a batch
of which complete code points are required is refused. -/
theorem open_tail_batch_refused :
    ∃ decoder, decoderOpen emptyDigest threeBytes ⟨true, true⟩ = .ok decoder ∧
      ∃ world, run (step emptyDigest threeBytes ⟨true, true⟩) (start decoder) [.push 0 .calm] =
          world ∧
        world.committed = [0] ∧
        world.fragments.flatMap Fragment.bytes ++ world.decoder.state.pending = [0xe2] ∧
        decode emptyDigest threeBytes ⟨true, true⟩ (fun _ => false) world.committed =
          .error (errorOnly .format "tokenizer.decode.utf8" "batch output is not complete UTF-8") :=
  ⟨_, rfl, _, rfl, rfl, rfl, rfl⟩

end Promise

end Yvex.IncrementalDecoder
