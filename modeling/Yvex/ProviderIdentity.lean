import Yvex.LittleEndian
import Yvex.ProviderRoundTrip

/-!
# The hashed bytes of a request determine it

A text is hashed after its length, a span and a list after their counts, so
every field ends where its own bytes say. Cut off one after the other, equal
byte strings of two checked requests give equal fields.
-/

set_option autoImplicit false

namespace Yvex.ProviderIdentity
open AttentionData WireWords WireCodecs LittleEndian ProviderRequest ProviderFormat List
  ProviderRoundTrip

def fieldBytes : HashField → List UInt8
  -- The bytes of one update. The length of a text is stored least significant byte first, a
  -- word most significant byte first.
  | .text value => leBytes 8 value.length ++ value.map fun c => UInt8.ofNat c.toNat
  | .word value => putWord 8 value
  | .bytes value => value

def hashedBytes (fields : List HashField) : List UInt8 := fields.flatMap fieldBytes

variable {α : Type} {as bs : List UInt8}

def Cuts (fields : α → List HashField) (admits : α → Prop) : Prop :=
  ∀ ⦃value other : α⦄ ⦃rest last : List UInt8⦄, admits value → admits other →
    hashedBytes (fields value) ++ rest = hashedBytes (fields other) ++ last →
    value = other ∧ rest = last

section Fields

theorem hashed_nil : hashedBytes [] ++ as = as := by simp [hashedBytes]

theorem hashed_cons (f : HashField) (fs : List HashField) :
    hashedBytes (f :: fs) = fieldBytes f ++ hashedBytes fs := flatMap_cons

theorem hashed_append (fs gs : List HashField) :
    hashedBytes (fs ++ gs) = hashedBytes fs ++ hashedBytes gs := flatMap_append

theorem word_iff {v w : ℕ} (hv : v < 2 ^ 64) (hw : w < 2 ^ 64) :
    fieldBytes (.word v) ++ as = fieldBytes (.word w) ++ bs ↔ v = w ∧ as = bs := by
  constructor
  · intro h
    have hwo := congrArg (fun b => getWord (Memory.ofBytes b) 8) h
    simp only [fieldBytes, getWord_putWord] at hwo
    exact ⟨by omega, (append_inj h (by simp [fieldBytes])).2⟩
  · rintro ⟨rfl, rfl⟩
    rfl

theorem wide_iff {v w : UInt64} :
    fieldBytes (.word v.toNat) ++ as = fieldBytes (.word w.toNat) ++ bs ↔ v = w ∧ as = bs := by
  rw [word_iff v.toNat_lt w.toNat_lt, UInt64.toNat_inj]

theorem code_iff {v w : UInt32} :
    fieldBytes (hashCode v) ++ as = fieldBytes (hashCode w) ++ bs ↔ v = w ∧ as = bs := by
  have hv := v.toNat_lt
  have hw := w.toNat_lt
  rw [hashCode, hashCode, word_iff (by omega) (by omega), UInt32.toNat_inj]

theorem int_iff {v w : Int32} :
    fieldBytes (hashInt v) ++ as = fieldBytes (hashInt w) ++ bs ↔ v = w ∧ as = bs := by
  rw [hashInt, hashInt, wide_iff]
  refine and_congr_left' ⟨fun h => ?_, fun h => h ▸ rfl⟩
  have hb : v.toInt64.toInt32 = w.toInt64.toInt32 := congrArg (fun u => Int64.toInt32 ⟨u⟩) h
  simpa using hb

theorem hashText_bytes {c : ℕ} (t : CText c) :
    fieldBytes (hashText t) = leBytes 8 t.bytes.length ++ t.bytes := by
  have hby : ∀ b : UInt8, UInt8.ofNat (Char.ofNat b.toNat).toNat = b := by
    intro b
    have hb := b.toNat_lt
    rw [Char.ofNat, dif_pos (.inl (by omega))]
    exact UInt8.ofNat_toNat
  simp [fieldBytes, hashText, Function.comp_def, hby]

theorem text_iff {c : ℕ} {t u : CText c} (hc : c < 2 ^ 64) :
    fieldBytes (hashText t) ++ as = fieldBytes (hashText u) ++ bs ↔ t = u ∧ as = bs := by
  constructor
  · intro h
    rw [hashText_bytes, hashText_bytes, append_assoc, append_assoc] at h
    obtain ⟨hs, h⟩ := append_inj h (by simp)
    have hl := congrArg leValue hs
    have ht := t.fits
    have hu := u.fits
    rw [leValue_leBytes, leValue_leBytes] at hl
    obtain ⟨hb, hr⟩ := append_inj h (by omega)
    cases t
    cases u
    cases hb
    exact ⟨rfl, hr⟩
  · rintro ⟨rfl, rfl⟩
    rfl

theorem span_cuts {n : ℕ} (hn : n < 2 ^ 64) : Cuts hashSpan fun sp => sp.length ≤ n := by
  intro v w as bs hv hw h
  simp only [hashSpan, hashed_cons, append_assoc] at h
  obtain ⟨hl, h⟩ := (word_iff (by omega) (by omega)).mp h
  exact append_inj h hl

variable {fields : α → List HashField} {admits : α → Prop} {vs ws : List α}

theorem Cuts.many (hf : Cuts fields admits) (hl : vs.length = ws.length)
    (hv : ∀ v ∈ vs, admits v) (hw : ∀ w ∈ ws, admits w)
    (h : hashedBytes (vs.flatMap fields) ++ as = hashedBytes (ws.flatMap fields) ++ bs) :
    vs = ws ∧ as = bs := by
  induction vs generalizing ws with
  | nil =>
    obtain rfl := length_eq_zero_iff.mp hl.symm
    exact ⟨rfl, h⟩
  | cons v vs ih =>
    obtain ⟨w, ws, rfl⟩ := exists_cons_of_length_eq_add_one hl.symm
    have hvs := forall_mem_cons.mp hv
    have hws := forall_mem_cons.mp hw
    simp only [flatMap_cons, hashed_append, append_assoc] at h
    obtain ⟨rfl, hr⟩ := hf hvs.1 hws.1 h
    obtain ⟨rfl, hla⟩ := ih (Nat.succ.inj hl) hvs.2 hws.2 hr
    exact ⟨rfl, hla⟩

theorem Cuts.counted {n : ℕ} (hf : Cuts fields admits) (hn : n < 2 ^ 64)
    (hv : vs.length ≤ n ∧ ∀ v ∈ vs, admits v) (hw : ws.length ≤ n ∧ ∀ w ∈ ws, admits w)
    (h : fieldBytes (.word vs.length) ++ (hashedBytes (vs.flatMap fields) ++ as) =
      fieldBytes (.word ws.length) ++ (hashedBytes (ws.flatMap fields) ++ bs)) :
    vs = ws ∧ as = bs := by
  obtain ⟨hl, hr⟩ := (word_iff (by omega) (by omega)).mp h
  exact hf.many hl hv.2 hw.2 hr

end Fields

section Records

variable {s : UInt32}

theorem call_cuts : Cuts callIdentityFields CallAdmitted := by
  intro v w as bs hv hw h
  simp (disch := decide) only [callIdentityFields, hashed_cons, append_assoc, text_iff] at h
  obtain ⟨hid, hn, h⟩ := h
  obtain ⟨hargs, h⟩ := span_cuts (by decide) hv hw h
  cases v
  cases w
  simp_all

/-- The hashed bytes of a message end where its fields say. -/
theorem message_cuts (hs : s ≠ schemaV1) : Cuts (messageIdentityFields s) (MessageAdmitted s) := by
  intro v w as bs hv hw h
  have hrv := hv.reasoning
  have hrw := hw.reasoning
  have hl : callLimit s < 2 ^ 64 := by
    rw [callLimit, if_neg hs]
    decide
  rw [if_pos hs] at hrv hrw
  simp only [messageIdentityFields, if_neg hs, hashed_append, hashed_cons, hashed_nil,
    append_assoc, code_iff] at h
  obtain ⟨hrole, h⟩ := h
  obtain ⟨hcon, h⟩ := span_cuts (by decide) hv.content hw.content h
  obtain ⟨hrs, h⟩ := span_cuts (by decide) hrv hrw h
  obtain ⟨hid, h⟩ := (text_iff (by decide)).mp h
  obtain ⟨hcalls, h⟩ := call_cuts.counted hl hv.calls hw.calls h
  cases v
  cases w
  simp_all

theorem tool_cuts (hs : s ≠ schemaV1) : Cuts (toolIdentityFields s) (ToolAdmitted s) := by
  intro v w as bs hv hw h
  simp only [toolIdentityFields, if_neg hs, hashed_append, hashed_cons, hashed_nil,
    append_assoc] at h
  obtain ⟨hn, h⟩ := (text_iff (by decide)).mp h
  obtain ⟨hdes, h⟩ := span_cuts (by decide) hv.description hw.description h
  obtain ⟨hpar, h⟩ := span_cuts (by decide) hv.parameters hw.parameters h
  simp only [int_iff] at h
  cases v
  cases w
  simp_all

theorem history_cuts : Cuts (fun p => if s = schemaV4 then [hashCode p] else []) fun p =>
      if s = schemaV4 then p ≤ ReasoningHistoryPolicy.preserve.code
      else p = ReasoningHistoryPolicy.sourceDefault.code := by
  intro v w as bs hv hw h
  by_cases hs : s = schemaV4
  · simpa only [if_pos hs, hashed_cons, hashed_nil, append_assoc, code_iff] using h
  · simp only [if_neg hs, hashed_nil] at hv hw h
    exact ⟨hv.trans hw.symm, h⟩

def unflagged (request : Request) : Request :=
  -- The two flags that no check of a request reads are cleared.
  { request with sampling := { request.sampling with stochastic := 0, seedPresent := 0 } }

theorem unflagged_admitted {services : Services} {r : Request} (h : Checked services r)
    (hs : schemaV2 ≤ r.schemaVersion) : WireAdmitted (unflagged r) :=
  (Checked.admitted_iff (r := unflagged r) ⟨h.complete, h.messages, h.tools, h.stops⟩ hs).mpr
    ⟨rfl, rfl⟩

/-- Two validated requests of one schema from 2 on with the same hashed bytes
have the same fields. -/
theorem identity_determines {services : Services} {request other : Request}
    (hrequest : requestFieldsValidate services request = .ok ())
    (hother : requestFieldsValidate services other = .ok ())
    (hschema : schemaV2 ≤ request.schemaVersion)
    (hsame : request.schemaVersion = other.schemaVersion)
    (h : hashedBytes (identityFields request) = hashedBytes (identityFields other)) :
    unsealed request = unsealed other := by
  have hv := unflagged_admitted (fieldsValidate_checked hrequest) hschema
  have hw := unflagged_admitted (fieldsValidate_checked hother) (hsame ▸ hschema)
  have hnew : request.schemaVersion ≠ schemaV1 := by
    intro he
    rw [he] at hschema
    exact absurd hschema (by decide)
  obtain ⟨s, _, _, _, _, ⟨⟩, _, _, _, ⟨⟩⟩ := request
  obtain rfl : s = _ := hsame
  simp (disch := decide) only [identityFields, if_neg hnew, hashed_append, hashed_cons, hashed_nil,
    append_assoc, append_cancel_left_eq, text_iff] at h
  obtain ⟨hmodel, h⟩ := h
  obtain ⟨hmess, h⟩ := (message_cuts hnew).counted (by decide) hv.messages hw.messages h
  obtain ⟨htools, h⟩ := (tool_cuts hnew).counted (by decide) hv.tools hw.tools h
  obtain ⟨hstops, h⟩ := (span_cuts (by decide)).counted (by decide) hv.stops hw.stops h
  simp (disch := decide) only [code_iff, text_iff, int_iff] at h
  obtain ⟨hkind, hname, hpara, hformat, hpol, hdrop, h⟩ := h
  obtain ⟨hhist, h⟩ := history_cuts hv.history hw.history h
  simp (disch := decide) only [int_iff, hashDouble, wide_iff, text_iff] at h
  simp_all [unsealed, unflagged]

/-- The identity a request carries is not hashed, and moving the text of a conversation from one
message to the next changes what is. -/
theorem tool_identity_determines :
    hashedBytes (identityFields toolRequest) =
        hashedBytes (identityFields { toolRequest with sealed := false }) ∧
      unsealed toolRequest = unsealed { toolRequest with sealed := false } ∧
      hashedBytes (identityFields (plainRequest [userMessage [97], userMessage [98, 99]])) ≠
        hashedBytes (identityFields (plainRequest [userMessage [97, 98], userMessage [99]])) := by
  have hvalid : requestFieldsValidate plainServices toolRequest = .ok () := rfl
  refine ⟨rfl, identity_determines hvalid hvalid (by decide) rfl rfl, fun hsame => ?_⟩
  have hfirst : requestFieldsValidate plainServices
      (plainRequest [userMessage [97], userMessage [98, 99]]) = .ok () := rfl
  have hsecond : requestFieldsValidate plainServices
      (plainRequest [userMessage [97, 98], userMessage [99]]) = .ok () := rfl
  have hequal := identity_determines hfirst hsecond (by decide) rfl hsame
  exact absurd (congrArg Request.messages hequal) (by decide)

end Records

end Yvex.ProviderIdentity
