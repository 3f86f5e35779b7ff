import Yvex.ProviderFormat

/-!
# Sealed provider requests travel unchanged

A request that passes the field checks is written in its format whenever it
fits, and the decoder accepts exactly the sealed requests that its own checks
admit, each in its format. Encoding and decoding are therefore inverse to each
other on schemas 2 to 4. Two flags of the sampling record are checked by the
decoder and not when the request is sealed.
-/

set_option autoImplicit false

namespace Yvex.ProviderRoundTrip
open AttentionData RefusableStep WireWords WireCodecs ProviderRequest SequentialWire ProviderWire
  ProviderFormat List

variable {ms : List Message} {r : Request}

section Checked

variable {services : Services}

theorem spanValid_length {sp : List UInt8} {m : ℕ} {empty : Bool}
    (h : spanValid sp m empty = true) : sp.length ≤ m := by
  simp only [spanValid, Bool.and_eq_true, decide_eq_true_eq] at h
  exact h.1

theorem callsValid_fields {p ca : List ToolCall}
    (h : callsValid services p ca = .ok ()) : ∀ c ∈ ca, CallAdmitted c := by
  induction ca generalizing p with
  | nil => simp
  | cons c ca ih =>
    simp only [callsValid, CheckedSteps.andThen_ok, check_ok_iff] at h
    obtain ⟨hf, _, _, hr⟩ := h
    simp only [callFieldsValid, Bool.and_eq_true] at hf
    exact forall_mem_cons.mpr ⟨spanValid_length hf.2, ih hr⟩

variable {s : UInt32}

theorem messageValid_admitted {m : Message} (h : messageValid services s m = .ok ()) :
    MessageAdmitted s m := by
  simp only [messageValid, CheckedSteps.andThen_ok, check_ok_iff] at h
  obtain ⟨hf, hr⟩ := h
  simp only [messageFieldsValid, Bool.and_eq_true, decide_eq_true_eq] at hf
  obtain ⟨⟨⟨⟨⟨hhr, hc⟩, hrs⟩, hver⟩, _⟩, hh⟩ := hf
  have hcal : callsValid services [] m.toolCalls = .ok () := by
    split at hr
    · simp only [CheckedSteps.andThen_ok, check_ok_iff] at hr
      exact hr.2.2
    · simp only [CheckedSteps.andThen_ok, check_ok_iff] at hr
      exact hr.2.2
  refine ⟨hhr, spanValid_length hc, ?_, hh, callsValid_fields hcal⟩
  by_cases hs : s = schemaV1
  · simpa [hs] using hver
  · rw [if_pos hs]
    exact spanValid_length hrs

theorem messagesValid_admitted {t : ℕ} (h : messagesValid services s t ms = .ok ()) :
    ∀ m ∈ ms, MessageAdmitted s m := by
  induction ms generalizing t with
  | nil => simp
  | cons m ms ih =>
    simp only [messagesValid, CheckedSteps.andThen_ok, check_ok_iff] at h
    obtain ⟨hmes, _, _, hr⟩ := h
    exact forall_mem_cons.mpr ⟨messageValid_admitted hmes, ih hr⟩

theorem toolsValid_fields {p t : List FunctionTool} (h : toolsValid services s p t = .ok ()) :
    ∀ tl ∈ t, toolFieldsValid s tl = true := by
  induction t generalizing p with
  | nil => simp
  | cons tl t ih =>
    simp only [toolsValid, toolValid, CheckedSteps.andThen_ok, check_ok_iff] at h
    obtain ⟨⟨hf, _⟩, _, hr⟩ := h
    exact forall_mem_cons.mpr ⟨hf, ih hr⟩

theorem toolFieldsValid_admitted {t : FunctionTool} (hsc : s ≠ schemaV1)
    (h : toolFieldsValid s t = true) : ToolAdmitted s t := by
  simp only [toolFieldsValid, Bool.and_eq_true, Bool.or_eq_true, beq_iff_eq, hsc, false_or] at h
  obtain ⟨⟨⟨⟨_, hdes⟩, hpar⟩, hh⟩, ⟨⟨hp, hs⟩, _⟩, _⟩ := h
  refine ⟨spanValid_length hdes, spanValid_length hpar, hh, ?_⟩
  rw [if_pos hsc]
  exact ⟨hp, hs⟩

structure Checked (services : Services) (request : Request) : Prop where
  complete : requestFieldsComplete request = true
  messages : messagesValid services request.schemaVersion 0 request.messages = .ok ()
  tools : toolsValid services request.schemaVersion [] request.tools = .ok ()
  stops : ∀ stop ∈ request.stopStrings, stop.length ≤ maxStopBytes

theorem fieldsValidate_checked (h : requestFieldsValidate services r = .ok ()) :
    Checked services r := by
  simp only [requestFieldsValidate, CheckedSteps.andThen_ok, check_ok_iff] at h
  obtain ⟨hcm, _, hm, ht, _, _, hh, _⟩ := h
  refine ⟨hcm, hm, ht, ?_⟩
  intro st hs
  exact spanValid_length (all_eq_true.mp hh st hs)

theorem Checked.schema (h : Checked services r) :
    schemaV1 ≤ r.schemaVersion ∧ r.schemaVersion ≤ schemaV4 := by
  have hcm := h.complete
  simp only [requestFieldsComplete, Bool.and_eq_true, decide_eq_true_eq] at hcm
  simp [hcm]

/-- Each field of a validated request fits its place on the wire. -/
theorem Checked.writable (h : Checked services r) : Writable r := by
  refine ⟨?_, ?_, ?_⟩
  · intro m hmes
    have ha := messagesValid_admitted h.messages m hmes
    have hr := ha.reasoning
    have hcon : m.content.length ≤ 262144 := ha.content
    refine ⟨by omega, ?_, ?_⟩
    · by_cases hsc : r.schemaVersion = schemaV1
      · simp [hsc] at hr
        simp [hr]
      · rw [if_pos hsc] at hr
        have hl : m.reasoningContent.length ≤ 262144 := hr
        omega
    · intro c hc
      have harg : c.argumentsJson.length ≤ 65536 := ha.calls.2 c hc
      omega
  · intro t ht
    have hf := toolsValid_fields h.tools t ht
    simp only [toolFieldsValid, Bool.and_eq_true] at hf
    have hdes : t.description.length ≤ 262144 := spanValid_length hf.1.1.1.2
    have hpar : t.parametersJson.length ≤ 65536 := spanValid_length hf.1.1.2
    exact ⟨by omega, by omega⟩
  · intro st hs
    have hl : st.length ≤ 256 := h.stops st hs
    omega

/-- From schema 2 on, a checked request misses two checks of the decoder. -/
theorem Checked.admitted_iff (h : Checked services r) (hs : schemaV2 ≤ r.schemaVersion) :
    WireAdmitted r ↔ SamplingAdmitted r.sampling := by
  constructor
  · exact WireAdmitted.sampling
  · intro hsam
    have hn : r.schemaVersion ≠ schemaV1 := by
      intro he
      rw [he] at hs
      exact absurd hs (by decide)
    have hcm := h.complete
    simp only [requestFieldsComplete, Bool.and_eq_true, Bool.or_eq_true, decide_eq_true_eq,
      beq_iff_eq] at hcm
    obtain ⟨⟨⟨⟨⟨⟨⟨⟨⟨⟨⟨⟨⟨⟨⟨⟨⟨⟨⟨⟨⟨⟨⟨_, _⟩, _⟩, _⟩, hm⟩, ht⟩, hh⟩, hk⟩, hp⟩,
      _⟩, hformat⟩, hpol⟩, hhistory⟩, hdefault⟩, hd⟩, _⟩, _⟩, _⟩, hstream⟩, husage⟩, _⟩, _⟩,
      _⟩, _⟩ := hcm
    refine ⟨h.schema, ⟨hm, messagesValid_admitted h.messages⟩, ⟨ht, ?_⟩,
      ⟨hh, h.stops⟩, ⟨hk, hp⟩, hformat, ?_, ?_, hsam, hstream, husage⟩
    · intro t hht
      exact toolFieldsValid_admitted hn (toolsValid_fields h.tools t hht)
    · rw [if_pos hn]
      exact ⟨hpol, hd⟩
    · by_cases hl : r.schemaVersion = schemaV4
      · rw [if_pos hl]
        exact hhistory
      · rw [if_neg hl]
        exact hdefault.resolve_left hl

end Checked

section Codec

variable (services : Services)

theorem wireEncode_sealed {cap : ℕ} (h : Sealed services r) (hcap : cap ≤ wireMaxBytes) :
    wireEncode services r cap =
      if (requestBytes r r.requestIdentity).length ≤ cap then
        .ok (requestBytes r r.requestIdentity)
      else .error (providerRefuse .bounds "provider request exceeds wire capacity") := by
  have hc := fieldsValidate_checked h.fields
  have hv : requestValidate services r = .ok () := requestValidate_iff.mpr h
  have hver : requestWireSchema r.schemaVersion ≠ 0 := by
    rw [requestWireSchema, if_pos hc.schema.2]
    intro hz
    have hl := hc.schema.1
    rw [hz] at hl
    exact absurd hl (by decide)
  have hwri := writes_request hc.schema.2 hc.writable ⟨cap, []⟩ (Nat.zero_le _)
  unfold wireEncode
  rw [if_neg (by simp [hv, Except.isOk, Except.toBool]; omega), if_neg hver, hwri]
  simp only [length_nil, Nat.zero_add, nil_append]
  by_cases hf : (requestBytes r r.requestIdentity).length ≤ cap
  · rw [if_pos hf, if_pos hf]
  · rw [if_neg hf, if_neg hf]

theorem WireAdmitted.unsealed_iff : WireAdmitted (unsealed r) ↔ WireAdmitted r :=
  ⟨fun h => ⟨h.1, h.2, h.3, h.4, h.5, h.6, h.7, h.8, h.9, h.10, h.11⟩,
    fun h => ⟨h.1, h.2, h.3, h.4, h.5, h.6, h.7, h.8, h.9, h.10, h.11⟩⟩

/-- The decoder accepts the sealed requests it admits, each in its format. -/
theorem wireDecode_iff {memory : Memory} {n : ℕ} : wireDecode services memory n = .ok r ↔
      0 < n ∧ n ≤ wireMaxBytes ∧ Sealed services r ∧ WireAdmitted r ∧
        Holds ⟨memory, n⟩ 0 (requestBytes r r.requestIdentity) n := by
  have hp := parses_request ⟨memory, n⟩ 0
  constructor
  · intro h
    unfold wireDecode at h
    split at h
    · cases h
    split at h
    · cases h
    rename_i bare hc o hr
    split at h
    · cases h
    rename_i hend
    split at h
    · cases h
    rename_i hse
    split at h
    · rename_i hcla
      cases h
      obtain ⟨hhs, hs⟩ := requestSeal_done hse
      obtain ⟨⟨hw, hb⟩, hh⟩ := (hp (bare, hc) o (Nat.zero_le _)).mp hr
      have ho : o = n := by simpa using hend
      dsimp only at hb hh hw
      rw [hb] at hs
      rw [ho, hcla, ← hs] at hh
      rw [← hs, WireAdmitted.unsealed_iff] at hw
      exact ⟨by omega, by omega, hhs, hw, hh⟩
    · cases h
  · rintro ⟨hpos, hmax, hhs, hw, hh⟩
    have hr : readRequest ⟨memory, n⟩ 0 = some ((unsealed r, r.requestIdentity), n) :=
      (hp (unsealed r, r.requestIdentity) n (Nat.zero_le _)).mpr
        ⟨⟨WireAdmitted.unsealed_iff.mpr hw, rfl⟩, hh⟩
    unfold wireDecode
    rw [if_neg (by omega), hr]
    simp only [ne_eq, not_true_eq_false, if_false]
    rw [hhs.seal_unsealed]
    simp

theorem wireDecode_inside {mem other : Memory} {n : ℕ} (h : Agree n mem other) :
    wireDecode services mem n = wireDecode services other n := by
  unfold wireDecode
  rw [parses_request.inside h (Nat.zero_le n)]

/-- On schemas 2 to 4, with proper sampling flags, the codec is exact. -/
theorem wire_codec_exact :
    (∀ request done : Request, requestSeal services request = .done done →
      schemaV2 ≤ done.schemaVersion → SamplingAdmitted done.sampling →
      ∀ capacity, capacity ≤ wireMaxBytes →
        (requestBytes done done.requestIdentity).length ≤ capacity →
        ∃ bytes, wireEncode services done capacity = .ok bytes ∧
          ∀ memory, Agree bytes.length (Memory.ofBytes bytes) memory →
            wireDecode services memory bytes.length = .ok done) ∧
    (∀ (memory other : Memory) (count : ℕ), Agree count memory other →
      wireDecode services memory count = wireDecode services other count) ∧
    (∀ (memory : Memory) (count : ℕ) (request : Request),
      wireDecode services memory count = .ok request → schemaV2 ≤ request.schemaVersion →
      ∀ capacity, count ≤ capacity → capacity ≤ wireMaxBytes →
        wireEncode services request capacity = .ok (memory.slice count)) := by
  refine ⟨?_, fun _ _ _ => wireDecode_inside services, ?_⟩
  · intro request done hseal hschema hsampling capacity hcapacity hfits
    obtain ⟨hsealed, _⟩ := requestSeal_done hseal
    have hwire := ((fieldsValidate_checked hsealed.fields).admitted_iff hschema).mpr hsampling
    refine ⟨_, by rw [wireEncode_sealed services hsealed hcapacity, if_pos hfits], ?_⟩
    intro memory hagree
    have hpos : 0 < (requestBytes done done.requestIdentity).length := by
      simp [requestBytes, u32Bytes]
    exact (wireDecode_iff services).mpr
      ⟨hpos, le_trans hfits hcapacity, hsealed, hwire, Holds.all hagree⟩
  · intro memory count request hdecode _ capacity hcount hcapacity
    obtain ⟨_, _, hsealed, _, hlength, _, hsame⟩ := (wireDecode_iff services).mp hdecode
    rw [Nat.zero_add] at hlength
    rw [advance_zero, ← hlength] at hsame
    rw [wireEncode_sealed services hsealed hcapacity, if_pos (by omega), hsame]

theorem letters_terminated : (0 : UInt8) ∉ replicate 64 97 := by decide

def plainServices : Services where
  -- One identity for every request, and every text a JSON value.
  digest _ := some ⟨List.replicate 64 97, by decide, letters_terminated⟩
  completeValue _ := true

def userMessage (content : List UInt8) : Message :=
  ⟨ProviderRole.user.code, content, [], CText.empty 65, []⟩

def plainRequest (messages : List Message) : Request where
  schemaVersion := schemaV4
  model := ⟨[109], by decide, by decide⟩
  messages := messages
  tools := []
  stopStrings := []
  toolChoice := ⟨ToolChoiceKind.auto.code, CText.empty 65, 0⟩
  responseFormat := ResponseFormat.text.code
  reasoningPolicy := ReasoningPolicy.sourceDefault.code
  reasoningHistoryPolicy := ReasoningHistoryPolicy.sourceDefault.code
  sampling := ⟨0, 0, 0, 0, doubleOne, doubleOne, 0, doubleOne⟩
  maximumOutputTokens := 0
  stream := 0
  includeUsage := 0
  dropThinking := 0
  adapter := CText.empty 32
  previousResponseId := CText.empty 65
  externalCorrelationId := CText.empty 65
  requestIdentity := ⟨List.replicate 64 97, by decide, letters_terminated⟩
  sealed := true

theorem plainRequest_sealed (hcm : requestFieldsComplete (plainRequest ms) = true)
    (h : messagesValid plainServices schemaV4 0 ms = .ok ()) :
    requestSeal plainServices (plainRequest ms) = .done (plainRequest ms) := by
  have ho : requestFieldsValidate plainServices (plainRequest [userMessage [97]]) = .ok () := rfl
  have hf : requestFieldsValidate plainServices (plainRequest ms) = .ok () := by
    simp only [requestFieldsValidate, CheckedSteps.andThen_ok, check_ok_iff] at ho ⊢
    exact ⟨hcm, ho.2.1, h, ho.2.2.2⟩
  exact requestSeal_of hf rfl

theorem userMessages_valid {c : List UInt8} (hso : c ≠ []) {n t : ℕ}
    (hl : c.length ≤ maxMessageBytes)
    (ht : t + n * c.length ≤ maxContentBytes) :
    messagesValid plainServices schemaV4 t (List.replicate n (userMessage c)) = .ok () := by
  have hs : spanValid (userMessage c).content maxMessageBytes
      ((userMessage c).role == ProviderRole.assistant.code) = true := by
    change spanValid c maxMessageBytes false = true
    simp [spanValid, hl, hso]
  have hmes : messageValid plainServices schemaV4 (userMessage c) = .ok () := by
    simp only [messageValid, CheckedSteps.andThen_ok, check_ok_iff]
    refine ⟨?_, rfl⟩
    unfold messageFieldsValid
    rw [hs]
    rfl
  induction n generalizing t with
  | zero => rfl
  | succ n ih =>
    have hstep : (n + 1) * c.length = n * c.length + c.length := by ring
    have hb : t + c.length + n * c.length ≤ maxContentBytes := by omega
    simp only [replicate_succ, messagesValid, CheckedSteps.andThen_ok, check_ok_iff]
    refine ⟨hmes, decide_eq_true ?_, decide_eq_true ?_, ih ?_⟩
    · change t ≤ maxContentBytes - c.length
      omega
    · change t + c.length ≤ maxContentBytes - 0
      omega
    · exact hb

theorem plainRequest_length (n : ℕ) (c : List UInt8) :
    (requestBytes (plainRequest (List.replicate n (userMessage c)))
      (plainRequest []).requestIdentity).length = 205 + n * (20 + c.length) := by
  have hmes : (messageBytes 4 (userMessage c)).length = 20 + c.length := by
    simp [messageBytes, userMessage, textBytes, CText.empty, schemaV1]
    omega
  simp [requestBytes, bodyPieces, plainRequest, hmes, textBytes, toolChoiceBytes,
    reasoningBytes, samplingBytes, intBytes, CText.empty, schemaV1, schemaV4]
  omega

def fullContent : List UInt8 := List.replicate maxMessageBytes 97

/-- A sealed request of four full messages has no wire form. -/
theorem full_request_refused :
    let request := plainRequest (replicate 4 (userMessage fullContent))
    requestSeal plainServices request = .done request ∧ schemaV2 ≤ request.schemaVersion ∧
      SamplingAdmitted request.sampling ∧
      ∀ capacity bytes, wireEncode plainServices request capacity ≠ .ok bytes := by
  intro request
  have hfull : fullContent.length = 262144 := length_replicate
  have hseal : requestSeal plainServices request = .done request := by
    apply plainRequest_sealed rfl
    apply userMessages_valid
    · intro hempty
      rw [hempty] at hfull
      cases hfull
    · exact le_of_eq hfull
    · rw [hfull]
      decide
  refine ⟨hseal, by decide, ⟨by decide, by decide⟩, ?_⟩
  intro capacity bytes hencode
  by_cases hcapacity : capacity ≤ wireMaxBytes
  · have hlength := plainRequest_length 4 fullContent
    have hmax : capacity ≤ 1048576 := hcapacity
    rw [hfull] at hlength
    rw [wireEncode_sealed _ (requestSeal_done hseal).1 hcapacity, if_neg ?_] at hencode
    · cases hencode
    · intro hfits
      have := le_trans (le_of_eq hlength.symm) hfits
      omega
  · unfold wireEncode at hencode
    rw [if_pos (.inl (by omega))] at hencode
    cases hencode

def lookupName : CText 65 := ⟨[103, 101, 116], by decide, by decide⟩

def lookupCall : CText 65 := ⟨[99, 49], by decide, by decide⟩

-- a question, the call of a tool with its reasoning, and the answer of the tool
def toolMessages : List Message :=
  [⟨ProviderRole.system.code, [115, 111], [], CText.empty 65, []⟩, userMessage [97, 98, 99],
    ⟨ProviderRole.assistant.code, [], [114], CText.empty 65,
      [⟨lookupCall, lookupName, [123, 125]⟩]⟩,
    ⟨ProviderRole.tool.code, [52, 50], [], lookupCall, []⟩]

def toolRequest : Request :=
  { plainRequest toolMessages with
    tools := [⟨lookupName, [100], [123, 125], 1, 1, 1⟩]
    stopStrings := [[46], [10, 10]]
    toolChoice := ⟨ToolChoiceKind.function.code, lookupName, 0⟩
    maximumOutputTokens := 300
    stream := 1 }

theorem toolRequest_sealed : requestSeal plainServices toolRequest = .done toolRequest :=
  requestSeal_of rfl rfl

theorem tool_request_travels :
    ∃ bytes, wireEncode plainServices toolRequest wireMaxBytes = .ok bytes ∧
      wireDecode plainServices (Memory.ofBytes bytes) bytes.length = .ok toolRequest := by
  obtain ⟨bytes, hencode, hdecode⟩ := (wire_codec_exact plainServices).1 toolRequest toolRequest
    toolRequest_sealed (by decide) ⟨by decide, by decide⟩ wireMaxBytes le_rfl (by decide +kernel)
  exact ⟨bytes, hencode, hdecode _ (fun _ _ => rfl)⟩

end Codec

end Yvex.ProviderRoundTrip
