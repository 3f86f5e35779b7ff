import Yvex.ProviderRequest
import Yvex.TokenizerUtf8

/-!
# Token pieces and batch decoding

A vocabulary entry of an ordinary kind spells each byte as a code point; the
added tokens carry their bytes as they are. Batch decoding puts the pieces of a
list of token identifiers together.
-/

set_option autoImplicit false

namespace Yvex.TokenizerPieces
open AttentionData StateRecipe WireCodecs ProviderRequest TokenizerUtf8

inductive TokenType where
  | unknown
  | normal
  | unk
  | control
  | userDefined
  | unused
  | byte
  deriving DecidableEq

structure TokenInfo where
  text : List UInt8
  type : TokenType

structure SpecialId where
  present : Bool
  id : ℕ

structure Vocabulary where
  tokens : List TokenInfo
  eos : SpecialId
  pad : SpecialId
  unk : SpecialId
  planIdentity : CText 65
  isSealed : Bool

abbrev TokenDigest := List HashField → CText 65

def printable (point : ℕ) : Bool :=
  (decide (33 ≤ point) && decide (point ≤ 126)) || (decide (161 ≤ point) && decide (point ≤ 172)) ||
    (decide (174 ≤ point) && decide (point ≤ 255))

def candidateByte (point : ℕ) : ℕ → List ℕ → Option UInt8
  -- The other bytes are spelled by the code points from 256 on, in their order.
  | _, [] => none
  | extra, candidate :: rest =>
    if printable candidate then candidateByte point extra rest
    else if 256 + extra = point then some (UInt8.ofNat candidate)
    else candidateByte point (extra + 1) rest

def codepointByte (point : ℕ) : Option UInt8 :=
  if printable point then some (UInt8.ofNat point)
  else if point < 256 then none
  else candidateByte point 0 (List.range 256)

def spelledBytes : ℕ → List UInt8 → Option (List UInt8)
  | _, [] => some []
  | 0, _ :: _ => none
  | fuel + 1, byte :: rest =>
    match utf8Next (byte :: rest) with
    | none => none
    | some (point, after) =>
      match codepointByte point with
      | none => none
      | some spelled => (spelledBytes fuel after).map (spelled :: ·)

structure Classification where
  special : Bool
  eos : Bool
  pad : Bool
  unknown : Bool
  stop : Bool
  suppressedByDefault : Bool

def tokenClassify (vocabulary : Vocabulary) (tokenId : ℕ) : Except Refusal Classification :=
  match vocabulary.tokens[tokenId]? with
  | none => .error (errorOnly .bounds "tokenizer.classify" "token ID is outside vocabulary")
  | some token =>
    let special := token.type == .control
    let eos := vocabulary.eos.present && tokenId == vocabulary.eos.id
    .ok ⟨special, eos, vocabulary.pad.present && tokenId == vocabulary.pad.id,
      vocabulary.unk.present && tokenId == vocabulary.unk.id, eos, special⟩

def pieceDecode (vocabulary : Vocabulary) (skipSpecial allocated : Bool) (tokenId : ℕ) :
    Except Refusal (List UInt8 × Bool) :=
  match vocabulary.tokens[tokenId]? with
  | none =>
    .error (errorOnly .bounds "tokenizer.decode.piece"
      "valid tokenizer, outputs, and token ID are required")
  | some token =>
    if skipSpecial && token.type == .control then .ok ([], true)
    else if !allocated then
      .error (errorOnly .nomem "tokenizer.decode.piece" "piece allocation failed")
    else if token.type == .control || token.type == .userDefined then .ok (token.text, false)
    else match spelledBytes token.text.length token.text with
      | none =>
        .error (errorOnly .format "tokenizer.decode.piece"
          "vocabulary piece is not canonical ByteLevel text")
      | some bytes => .ok (bytes, false)

structure DecodeOptions where
  skipSpecialTokens : Bool
  requireCompleteUtf8 : Bool

structure DecodeResult where
  bytes : List UInt8
  tokenCount : ℕ
  suppressedSpecialCount : ℕ
  tokenIdsIdentity : CText 65
  decodedBytesIdentity : CText 65
  decoderIdentity : CText 65

def decodeCancelled (cancelled : Bool) : Except Refusal Unit :=
  if cancelled then
    .error (errorOnly .cancelled "tokenizer.decode.cancelled"
      "tokenizer decoding was cancelled before publication")
  else .ok ()

def decodeAppend (data : Option (List UInt8)) (piece : List UInt8) : Option (List UInt8) :=
  match data with
  | none => if piece.isEmpty then none else some piece
  | some bytes => some (bytes ++ piece)

def decodeLoop (vocabulary : Vocabulary) (options : DecodeOptions) (cancelled : ℕ → Bool) :
    ℕ → List ℕ → Option (List UInt8) → ℕ → Except Refusal (Option (List UInt8) × ℕ)
  | _, [], data, suppressed => .ok (data, suppressed)
  | index, id :: rest, data, suppressed => do
    decodeCancelled (cancelled index)
    let piece ← pieceDecode vocabulary options.skipSpecialTokens true id
    decodeLoop vocabulary options cancelled (index + 1) rest (decodeAppend data piece.1)
      (suppressed + if piece.2 then 1 else 0)

def decodeIdentities (digest : TokenDigest) (vocabulary : Vocabulary) (ids : List ℕ)
    (data : Option (List UInt8)) (suppressed : ℕ) : Option (CText 65 × CText 65 × CText 65) :=
  let tokenIds := digest (textField "yvex.tokenizer.token-ids.v1" :: .word ids.length ::
    ids.map HashField.word)
  data.map fun bytes =>
    let decoded := digest [.bytes bytes]
    (tokenIds, decoded, digest [textField "yvex.tokenizer.decode.v1",
      hashText vocabulary.planIdentity, hashText tokenIds, hashText decoded, .word suppressed])

def decodeFinish (digest : TokenDigest) (vocabulary : Vocabulary) (options : DecodeOptions)
    (ids : List ℕ) (data : Option (List UInt8)) (suppressed : ℕ) : Except Refusal DecodeResult :=
  if options.requireCompleteUtf8 && !utf8Validate (data.getD []) then
    .error (errorOnly .format "tokenizer.decode.utf8" "batch output is not complete UTF-8")
  else match decodeIdentities digest vocabulary ids data suppressed with
    | none =>
      .error (errorOnly .state "tokenizer.decode.identity" "decode identity derivation failed")
    | some (tokenIds, decoded, decoder) =>
      .ok ⟨data.getD [], ids.length, suppressed, tokenIds, decoded, decoder⟩

def decode (digest : TokenDigest) (vocabulary : Vocabulary) (options : DecodeOptions)
    (cancelled : ℕ → Bool) (ids : List ℕ) : Except Refusal DecodeResult :=
  if !vocabulary.isSealed then
    .error (errorOnly .invalidArg "tokenizer.decode"
      "sealed tokenizer, IDs, and result are required")
  else match decodeLoop vocabulary options cancelled 0 ids none 0 with
    | .error refusal => .error refusal
    | .ok (data, suppressed) => decodeFinish digest vocabulary options ids data suppressed

section Concatenation

def pieceBytes (vocabulary : Vocabulary) (skipSpecial : Bool) (id : ℕ) : Option (List UInt8) :=
  match pieceDecode vocabulary skipSpecial true id with
  | .ok (bytes, _) => some bytes
  | .error _ => none

def joinedPieces (vocabulary : Vocabulary) (skipSpecial : Bool) : List ℕ → Option (List UInt8)
  | [] => some []
  | id :: rest =>
    match pieceBytes vocabulary skipSpecial id, joinedPieces vocabulary skipSpecial rest with
    | some bytes, some behind => some (bytes ++ behind)
    | _, _ => none

variable {v : Vocabulary} {s : Bool}

variable {bs : List UInt8}

theorem joinedPieces_cons_some {id : ℕ} {r : List ℕ} :
    joinedPieces v s (id :: r) = some bs ↔
      ∃ p b, pieceBytes v s id = some p ∧ joinedPieces v s r = some b ∧ bs = p ++ b := by
  rw [joinedPieces]
  rcases pieceBytes v s id with _ | p
  · simp
  · rcases joinedPieces v s r with _ | b
    · simp
    · simp [eq_comm]

theorem joinedPieces_append {fi rest : List ℕ} :
    joinedPieces v s (fi ++ rest) = some bs ↔
      ∃ f b, joinedPieces v s fi = some f ∧ joinedPieces v s rest = some b ∧ bs = f ++ b := by
  induction fi generalizing bs with
  | nil => simp [joinedPieces, eq_comm]
  | cons id fi ih =>
    rw [List.cons_append, joinedPieces_cons_some]
    constructor
    · rintro ⟨p, r, hp, hr, rfl⟩
      obtain ⟨f, b, hf, hb, rfl⟩ := ih.mp hr
      exact ⟨p ++ f, b, joinedPieces_cons_some.mpr ⟨p, f, hp, hf, rfl⟩, hb, by simp⟩
    · rintro ⟨f, b, hf, hb, rfl⟩
      obtain ⟨p, r, hp, hr, rfl⟩ := joinedPieces_cons_some.mp hf
      exact ⟨p, r ++ b, hp, ih.mpr ⟨r, b, hr, hb, rfl⟩, by simp⟩

theorem pieceBytes_some {id : ℕ} : pieceBytes v s id = some bs ↔
      ∃ sup, pieceDecode v s true id = .ok (bs, sup) := by
  unfold pieceBytes
  split
  · rename_i hp
    simp [hp]
  · rename_i hp
    simp [hp]

theorem decodeAppend_eq (f p : List UInt8) :
    decodeAppend (if f = [] then none else some f) p =
      if f ++ p = [] then none else some (f ++ p) := by
  by_cases hf : f = []
  · subst hf
    simp [decodeAppend]
  · simp [decodeAppend, hf]

variable {o : DecodeOptions} {ids : List ℕ}

/-- Tokens whose pieces join are decoded to the joined bytes. -/
theorem decodeLoop_ok (h : joinedPieces v o.skipSpecialTokens ids = some bs)
    (i : ℕ) (f : List UInt8) (suppressed : ℕ) :
    ∃ t, decodeLoop v o (fun _ => false) i ids (if f = [] then none else some f) suppressed =
      .ok (if f ++ bs = [] then none else some (f ++ bs), t) := by
  induction ids generalizing bs i f suppressed with
  | nil =>
    cases h
    exact ⟨suppressed, by simp [decodeLoop]⟩
  | cons id r ih =>
    obtain ⟨p, b, hp, hb, rfl⟩ := joinedPieces_cons_some.mp h
    obtain ⟨sup, hdec⟩ := pieceBytes_some.mp hp
    obtain ⟨t, ht⟩ := ih hb (i + 1) (f ++ p) (suppressed + if sup then 1 else 0)
    refine ⟨t, ?_⟩
    rw [← List.append_assoc, ← ht, ← decodeAppend_eq]
    simp only [decodeLoop, decodeCancelled, hdec]
    rfl

theorem decodeAppend_getD (d : Option (List UInt8)) (p : List UInt8) :
    (decodeAppend d p).getD [] = d.getD [] ++ p := by
  cases d with
  | none =>
    by_cases hp : p = [] <;> simp [decodeAppend, hp]
  | some => rfl

variable {cancel : ℕ → Bool}

theorem decodeLoop_pieces {i sup t : ℕ} {d final : Option (List UInt8)}
    (h : decodeLoop v o cancel i ids d sup = .ok (final, t)) :
    ∃ bs, joinedPieces v o.skipSpecialTokens ids = some bs ∧ final.getD [] = d.getD [] ++ bs := by
  induction ids generalizing i d sup with
  | nil =>
    cases h
    exact ⟨[], rfl, by simp⟩
  | cons id r ih =>
    obtain ⟨_, _, hr⟩ := CheckedSteps.bind_ok.mp h
    obtain ⟨⟨p, hidden⟩, hp, hl⟩ := CheckedSteps.bind_ok.mp hr
    obtain ⟨bs, hb, hfo⟩ := ih hl
    refine ⟨p ++ bs, joinedPieces_cons_some.mpr
      ⟨p, bs, pieceBytes_some.mpr ⟨hidden, hp⟩, hb, rfl⟩, ?_⟩
    rw [hfo, decodeAppend_getD, List.append_assoc]

theorem decode_pieces {d : TokenDigest} {r : DecodeResult} (h : decode d v o cancel ids = .ok r) :
    joinedPieces v o.skipSpecialTokens ids = some r.bytes := by
  unfold decode at h
  split at h
  · cases h
  split at h
  · cases h
  rename_i hl
  obtain ⟨bs, hb, hf⟩ := decodeLoop_pieces hl
  unfold decodeFinish at h
  split at h
  · cases h
  split at h
  · cases h
  · cases h
    rw [hb, hf]
    rfl

theorem decode_eq (d : TokenDigest) (hsea : v.isSealed = true)
    (h : joinedPieces v o.skipSpecialTokens ids = some bs) :
    ∃ total, decode d v o (fun _ => false) ids =
      decodeFinish d v o ids (if bs = [] then none else some bs)
        total := by
  obtain ⟨total, ht⟩ := decodeLoop_ok h 0 [] 0
  rw [if_pos rfl, List.nil_append] at ht
  refine ⟨total, ?_⟩
  rw [decode, if_neg (by simp [hsea]), ht]

theorem decode_ok (d : TokenDigest) (o : DecodeOptions) (hsea : v.isSealed = true)
    (h : joinedPieces v o.skipSpecialTokens ids = some bs)
    (hcm : o.requireCompleteUtf8 = true → Utf8 bs) (hb : bs ≠ []) :
    ∃ r, decode d v o (fun _ => false) ids = .ok r ∧ r.bytes = bs ∧ r.tokenCount = ids.length := by
  obtain ⟨total, ht⟩ := decode_eq d hsea h
  have hv : ¬(o.requireCompleteUtf8 && !utf8Validate bs) = true := by
    by_cases hr : o.requireCompleteUtf8 = true
    · simp [(utf8Validate_iff bs).mpr (hcm hr)]
    · simp [hr]
  rw [ht, if_neg hb, decodeFinish, Option.getD_some, if_neg hv]
  exact ⟨_, rfl, rfl, rfl⟩

end Concatenation

end Yvex.TokenizerPieces
