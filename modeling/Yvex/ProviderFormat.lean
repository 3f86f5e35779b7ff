import Yvex.ProviderWire

/-!
# The format of a provider request

The bytes of a request, piece by piece, and what the decoder admits of each
piece. Every reader is shown to accept exactly the admitted values in their
format, and every writer to produce that format.
-/

set_option autoImplicit false

namespace Yvex.ProviderFormat
open WireWords WireCodecs ProviderRequest SequentialWire ProviderWire Parses Sampling

variable (s : UInt32)

def textBytes {capacity : ℕ} (text : CText capacity) : List UInt8 := spanBytes text.bytes

def intBytes (value : Int32) : List UInt8 := u32Bytes value.toUInt32

def callBytes (call : ToolCall) : List UInt8 :=
  [textBytes call.callId, textBytes call.name, spanBytes call.argumentsJson].flatten

def messageBytes (schema : UInt32) (message : Message) : List UInt8 :=
  [u32Bytes message.role, spanBytes message.content,
    if schema ≠ schemaV1 then spanBytes message.reasoningContent else [].flatten,
    textBytes message.toolCallId, countedBytes callBytes message.toolCalls].flatten

def presenceBytes (presence : Int32 × Int32) : List UInt8 :=
  [intBytes presence.1, intBytes presence.2].flatten

def toolBytes (schema : UInt32) (tool : FunctionTool) : List UInt8 :=
  [textBytes tool.name, spanBytes tool.description, spanBytes tool.parametersJson,
    intBytes tool.strict,
    if schema ≠ schemaV1 then presenceBytes (tool.descriptionPresent, tool.strictPresent)
      else [].flatten].flatten

def toolChoiceBytes (choice : ToolChoice) : List UInt8 :=
  [u32Bytes choice.kind, textBytes choice.functionName, intBytes choice.parallelCalls].flatten

def reasoningBytes (reasoning : UInt32 × Int32) : List UInt8 :=
  [u32Bytes reasoning.1, intBytes reasoning.2].flatten

def samplingBytes (sampling : Sampling) : List UInt8 :=
  [intBytes sampling.stochastic, intBytes sampling.seedPresent, bytes64 sampling.seed,
    bytes64 sampling.topK, bytes64 sampling.temperature, bytes64 sampling.topP,
    bytes64 sampling.minP, bytes64 sampling.typicalP].flatten

def bodyPieces (schema : UInt32) (request : Request) (claimed : CText 65) : List (List UInt8) :=
  [textBytes request.model, countedBytes (messageBytes schema) request.messages,
    countedBytes (toolBytes schema) request.tools, countedBytes spanBytes request.stopStrings,
    toolChoiceBytes request.toolChoice, u32Bytes request.responseFormat,
    if schema ≠ schemaV1 then reasoningBytes (request.reasoningPolicy, request.dropThinking)
      else [].flatten,
    if schema = schemaV4 then u32Bytes request.reasoningHistoryPolicy else [].flatten,
    samplingBytes request.sampling, bytes64 request.maximumOutputTokens, intBytes request.stream,
    intBytes request.includeUsage, textBytes request.adapter,
    textBytes request.previousResponseId, textBytes request.externalCorrelationId,
    textBytes claimed]

def requestBytes (request : Request) (claimed : CText 65) : List UInt8 :=
  (u32Bytes wireMagic :: u32Bytes request.schemaVersion ::
    bodyPieces request.schemaVersion request claimed).flatten

def CallAdmitted (call : ToolCall) : Prop := call.argumentsJson.length ≤ maxToolSchemaBytes

structure MessageAdmitted (schema : UInt32) (message : Message) : Prop where
  role : message.role ≤ ProviderRole.tool.code
  content : message.content.length ≤ maxMessageBytes
  reasoning : if schema ≠ schemaV1 then message.reasoningContent.length ≤ maxMessageBytes
    else message.reasoningContent = []
  calls : message.toolCalls.length ≤ callLimit schema ∧
    ∀ call ∈ message.toolCalls, CallAdmitted call

structure ToolAdmitted (schema : UInt32) (tool : FunctionTool) : Prop where
  description : tool.description.length ≤ maxMessageBytes
  parameters : tool.parametersJson.length ≤ maxToolSchemaBytes
  strict : isFlag tool.strict = true
  presence : if schema ≠ schemaV1 then
      isFlag tool.descriptionPresent = true ∧ isFlag tool.strictPresent = true
    else (tool.descriptionPresent, tool.strictPresent) = (0, 0)

structure ChoiceAdmitted (choice : ToolChoice) : Prop where
  kind : choice.kind ≤ ToolChoiceKind.function.code
  parallel : isFlag choice.parallelCalls = true

structure SamplingAdmitted (sampling : Sampling) : Prop where
  stochastic : isFlag sampling.stochastic = true
  seedPresent : isFlag sampling.seedPresent = true

structure WireAdmitted (request : Request) : Prop where
  schema : schemaV1 ≤ request.schemaVersion ∧ request.schemaVersion ≤ schemaV4
  messages : request.messages.length ≤ maxMessages ∧
    ∀ message ∈ request.messages, MessageAdmitted request.schemaVersion message
  tools : request.tools.length ≤ maxTools ∧
    ∀ tool ∈ request.tools, ToolAdmitted request.schemaVersion tool
  stops : request.stopStrings.length ≤ maxStops ∧
    ∀ stop ∈ request.stopStrings, stop.length ≤ maxStopBytes
  choice : ChoiceAdmitted request.toolChoice
  format : request.responseFormat ≤ ResponseFormat.jsonObject.code
  reasoning : if request.schemaVersion ≠ schemaV1 then
      policyAdmitted request.schemaVersion request.reasoningPolicy = true ∧
        isFlag request.dropThinking = true
    else (request.reasoningPolicy, request.dropThinking) = (ReasoningPolicy.disabled.code, 1)
  history : if request.schemaVersion = schemaV4 then
      request.reasoningHistoryPolicy ≤ ReasoningHistoryPolicy.preserve.code
    else request.reasoningHistoryPolicy = ReasoningHistoryPolicy.sourceDefault.code
  sampling : SamplingAdmitted request.sampling
  stream : isFlag request.stream = true
  usage : isFlag request.includeUsage = true

theorem parses_text {c : ℕ} (hpos : 0 < c) (hc : c < 2 ^ 32) :
    Parses (readText c) textBytes (fun _ => True) := by
  apply single
  refine field (fun t : CText c => t.bytes)
    (parses_span (lt_of_le_of_lt (Nat.sub_le c 1) hc)) ?_ (fun t _ => t.fits)
  intro sp hlen
  by_cases h : sp.length < c ∧ (0 : UInt8) ∉ sp
  · rw [dif_pos h]
    apply pure_of
    rintro ⟨bytes, fits, ht⟩
    simp
  rw [dif_neg h]
  intro input o t next hoff
  constructor
  · nofun
  · rintro ⟨⟨rfl, _⟩, _⟩
    exact absurd ⟨by have := t.fits; omega, t.terminated⟩ h

theorem parses_code (l : UInt32) : Parses (readCode l) u32Bytes (fun v => v ≤ l) := by
  apply single
  refine field (fun v : UInt32 => v) parses_u32 ?_ (fun _ _ => trivial)
  intro v _
  apply Parses.require
  · intro hl
    apply pure_of
    intro o
    constructor
    · exact And.left
    · rintro rfl
      exact ⟨rfl, of_decide_eq_true hl⟩
  · rintro o ⟨rfl, hl⟩
    exact decide_eq_true hl

theorem flag_iff (v : Int32) : isFlag v = true ↔ v.toUInt32 ≤ 1 := by
  have hin : v.toUInt32.toInt32 = v := by simp
  have hw : v.toUInt32 ≤ 1 ↔ v.toUInt32 = 0 ∨ v.toUInt32 = 1 := by
    rw [UInt32.le_iff_toNat_le, ← UInt32.toNat_inj, ← UInt32.toNat_inj]
    simp
    omega
  rw [hw]
  constructor
  · intro h
    simp only [isFlag, Bool.or_eq_true, beq_iff_eq] at h
    rcases h with rfl | rfl
    · exact .inl rfl
    · exact .inr rfl
  · rintro (h | h)
    · rw [← hin, h]
      rfl
    · rw [← hin, h]
      rfl

theorem parses_flag : Parses readFlag intBytes (fun v => isFlag v = true) := by
  apply single
  refine field (fun v : Int32 => v.toUInt32) parses_u32 ?_ (fun _ _ => trivial)
  intro word _
  apply Parses.require
  · intro hw
    apply pure_of
    intro v
    constructor
    · rintro ⟨rfl, _⟩
      simp
    · rintro rfl
      rw [flag_iff]
      simpa using hw
  · rintro v ⟨rfl, hf⟩
    exact decide_eq_true ((flag_iff v).mp hf)

theorem parses_id : Parses (readText 65) textBytes (fun _ => True) :=
  parses_text (by decide) (by decide)

theorem parses_call : Parses readCall callBytes CallAdmitted := by
  refine field ToolCall.callId parses_id (fun callId _ => ?_) (fun _ _ => trivial)
  refine field ToolCall.name parses_id (fun n _ => ?_) (fun _ _ => trivial)
  refine field ToolCall.argumentsJson (parses_span (by decide)) (fun a h => ?_) (fun _ ha => ha.2.2)
  apply pure_of
  rintro ⟨_, _, _⟩
  constructor
  · rintro ⟨rfl, rfl, rfl, _⟩
    rfl
  · rintro ⟨⟩
    exact ⟨rfl, rfl, rfl, h⟩

theorem parses_content :
    Parses (readSpan maxMessageBytes) spanBytes (fun sp => sp.length ≤ maxMessageBytes) :=
  parses_span (by decide)

theorem parses_json : Parses (readSpan maxToolSchemaBytes) spanBytes
      (fun sp => sp.length ≤ maxToolSchemaBytes) :=
  parses_span (by decide)

theorem callLimit_lt : callLimit s < 2 ^ 32 := by
  unfold callLimit
  split <;> decide

theorem parses_message : Parses (readMessage s) (messageBytes s) (MessageAdmitted s) := by
  refine field Message.role (parses_code _) (fun role hr => ?_) (fun _ ha => ha.role)
  refine field Message.content parses_content (fun cn hc => ?_) (fun _ ha => ha.2.content)
  refine field Message.reasoningContent
    (optional (s ≠ schemaV1) [] parses_content) (fun r hrs => ?_) (fun _ ha => ha.2.2.reasoning)
  refine field Message.toolCallId parses_id (fun callId _ => ?_) (fun _ _ => trivial)
  refine field Message.toolCalls (parses_counted (callLimit_lt s) parses_call)
    (fun c hh => ?_) (fun _ ha => ha.2.2.2.2.calls)
  apply pure_of
  rintro ⟨_, _, _, _, _⟩
  constructor
  · rintro ⟨rfl, rfl, rfl, rfl, rfl, _⟩
    rfl
  · rintro ⟨⟩
    exact ⟨rfl, rfl, rfl, rfl, rfl, hr, hc, hrs, hh⟩

theorem parses_presence : Parses readPresence presenceBytes
    (fun pair => isFlag pair.1 = true ∧ isFlag pair.2 = true) := by
  refine field Prod.fst parses_flag (fun f hf => ?_) (fun _ ha => ha.1)
  refine field Prod.snd parses_flag (fun se hs => ?_) (fun _ ha => ha.2.2)
  apply pure_of
  rintro ⟨_, _⟩
  constructor
  · rintro ⟨rfl, rfl, _⟩
    rfl
  · rintro ⟨⟩
    exact ⟨rfl, rfl, hf, hs⟩

theorem parses_tool : Parses (readTool s) (toolBytes s) (ToolAdmitted s) := by
  refine field FunctionTool.name parses_id (fun n _ => ?_) (fun _ _ => trivial)
  refine field FunctionTool.description parses_content (fun d hdes => ?_)
    (fun _ ha => ha.2.description)
  refine field FunctionTool.parametersJson parses_json (fun p hpar => ?_)
    (fun _ ha => ha.2.2.parameters)
  refine field FunctionTool.strict parses_flag (fun strict hs => ?_) (fun _ ha => ha.2.2.2.strict)
  refine field (fun t : FunctionTool => (t.descriptionPresent, t.strictPresent))
    (optional (s ≠ schemaV1) (0, 0) parses_presence) (fun hpr hp => ?_)
    (fun _ ha => ha.2.2.2.2.presence)
  apply pure_of
  rintro ⟨_, _, _, _, _, _⟩
  constructor
  · rintro ⟨rfl, rfl, rfl, rfl, rfl, _⟩
    rfl
  · rintro ⟨⟩
    exact ⟨rfl, rfl, rfl, rfl, rfl, hdes, hpar, hs, hp⟩

theorem parses_choice : Parses readToolChoice toolChoiceBytes ChoiceAdmitted := by
  refine field ToolChoice.kind (parses_code _) (fun k hk => ?_) (fun _ ha => ha.kind)
  refine field ToolChoice.functionName parses_id (fun n _ => ?_) (fun _ _ => trivial)
  refine field ToolChoice.parallelCalls parses_flag (fun hpr hp => ?_) (fun _ ha => ha.2.2.parallel)
  apply pure_of
  rintro ⟨_, _, _⟩
  constructor
  · rintro ⟨rfl, rfl, rfl, _⟩
    rfl
  · rintro ⟨⟩
    exact ⟨rfl, rfl, rfl, hk, hp⟩

theorem parses_reasoning : Parses (readReasoning s) reasoningBytes
    (fun r => policyAdmitted s r.1 = true ∧ isFlag r.2 = true) := by
  refine field Prod.fst parses_u32 (fun policy _ => ?_)
    (fun _ _ => trivial)
  apply Parses.require
  · intro hpol
    refine field Prod.snd parses_flag (fun drop hd => ?_)
      (fun _ ha => ha.2.2)
    apply pure_of
    rintro ⟨_, _⟩
    constructor
    · rintro ⟨rfl, rfl, _⟩
      rfl
    · rintro ⟨⟩
      exact ⟨rfl, rfl, hpol, hd⟩
  · rintro r ⟨rfl, ha⟩
    exact ha.1

theorem parses_sampling : Parses readSampling samplingBytes SamplingAdmitted := by
  refine field stochastic parses_flag (fun stochastic hs => ?_) (fun _ ha => ha.stochastic)
  refine field seedPresent parses_flag (fun seedPresent hseed => ?_) (fun _ ha => ha.2.seedPresent)
  refine field seed parses_u64 (fun seed _ => ?_) (fun _ _ => trivial)
  refine field topK parses_u64 (fun topK _ => ?_) (fun _ _ => trivial)
  refine field temperature parses_u64 (fun temperature _ => ?_) (fun _ _ => trivial)
  refine field topP parses_u64 (fun topP _ => ?_) (fun _ _ => trivial)
  refine field minP parses_u64 (fun minP _ => ?_) (fun _ _ => trivial)
  refine field typicalP parses_u64 (fun typicalP _ => ?_) (fun _ _ => trivial)
  apply pure_of
  rintro ⟨_, _, _, _, _, _, _, _⟩
  constructor
  · rintro ⟨rfl, rfl, rfl, rfl, rfl, rfl, rfl, rfl, _⟩
    rfl
  · rintro ⟨⟩
    exact ⟨rfl, rfl, rfl, rfl, rfl, rfl, rfl, rfl, hs, hseed⟩

structure BodyAdmitted (schema : UInt32) (request : Request) : Prop where
  version : request.schemaVersion = schema
  wire : WireAdmitted request
  bare : unsealed request = request

abbrev Sent := Request × CText 65

/-- The body reader accepts the encodings of admitted bodies and nothing else. -/
theorem parses_body {s : UInt32} (hs : schemaV1 ≤ s ∧ s ≤ schemaV4) :
    Parses (readBody s) (fun w => (bodyPieces s w.1 w.2).flatten)
      (fun w => BodyAdmitted s w.1) := by
  refine field (fun w : Sent => w.1.model)
    (parses_text (by decide) (by decide)) (fun model _ => ?_) (fun _ _ => trivial)
  refine field (fun w : Sent => w.1.messages)
    (parses_counted (by decide) (parses_message s)) (fun ms hm => ?_)
    (fun _ ha => ha.2.version ▸ ha.2.wire.messages)
  refine field (fun w : Sent => w.1.tools)
    (parses_counted (by decide) (parses_tool s)) (fun t ht => ?_)
    (fun _ ha => ha.2.2.version ▸ ha.2.2.wire.tools)
  refine field (fun w : Sent => w.1.stopStrings)
    (parses_counted (by decide) (parses_span (by decide))) (fun stops hh => ?_)
    (fun _ ha => ha.2.2.2.wire.stops)
  refine field (fun w : Sent => w.1.toolChoice)
    parses_choice (fun choice hcho => ?_) (fun _ ha => ha.2.2.2.2.wire.choice)
  refine field (fun w : Sent => w.1.responseFormat)
    (parses_code _) (fun format hf => ?_) (fun _ ha => ha.2.2.2.2.2.wire.format)
  refine field (fun w : Sent => (w.1.reasoningPolicy, w.1.dropThinking))
    (optional (s ≠ schemaV1) _ (parses_reasoning s))
    (fun rs hrs => ?_)
    (fun _ ha => ha.2.2.2.2.2.2.version ▸ ha.2.2.2.2.2.2.wire.reasoning)
  refine field (fun w : Sent => w.1.reasoningHistoryPolicy)
    (optional (s = schemaV4) _ (parses_code _)) (fun h hhis => ?_)
    (fun _ ha => ha.2.2.2.2.2.2.2.version ▸ ha.2.2.2.2.2.2.2.wire.history)
  refine field (fun w : Sent => w.1.sampling) parses_sampling (fun sm hsam => ?_)
    (fun _ ha => ha.2.2.2.2.2.2.2.2.wire.sampling)
  refine field (fun w : Sent => w.1.maximumOutputTokens)
    parses_u64 (fun tokens _ => ?_) (fun _ _ => trivial)
  refine field (fun w : Sent => w.1.stream) parses_flag (fun st hhs => ?_)
    (fun _ ha => ha.2.2.2.2.2.2.2.2.2.2.wire.stream)
  refine field (fun w : Sent => w.1.includeUsage) parses_flag (fun usage hu => ?_)
    (fun _ ha => ha.2.2.2.2.2.2.2.2.2.2.2.wire.usage)
  refine field (fun w : Sent => w.1.adapter)
    (parses_text (by decide) (by decide)) (fun a _ => ?_) (fun _ _ => trivial)
  refine field (fun w : Sent => w.1.previousResponseId)
    parses_id (fun p _ => ?_) (fun _ _ => trivial)
  refine field (fun w : Sent => w.1.externalCorrelationId)
    parses_id (fun c _ => ?_) (fun _ _ => trivial)
  refine field (fun w : Sent => w.2) parses_id (fun hc _ => ?_) (fun _ _ => trivial)
  apply pure_of
  rintro ⟨r, i⟩
  constructor
  · rintro ⟨rfl, rfl, rfl, rfl, rfl, rfl, rfl, rfl, rfl, rfl, rfl, rfl, rfl, rfl, rfl, rfl, ha⟩
    obtain ⟨rfl, _, hb⟩ := ha
    exact Prod.ext hb.symm rfl
  · rintro ⟨⟩
    exact ⟨rfl, rfl, rfl, rfl, rfl, rfl, rfl, rfl, rfl, rfl, rfl, rfl, rfl, rfl, rfl, rfl,
      rfl, ⟨hs, hm, ht, hh, hcho, hf, hrs, hhis, hsam, hhs, hu⟩, rfl⟩

theorem parses_request : Parses readRequest (fun w => requestBytes w.1 w.2)
    (fun w => WireAdmitted w.1 ∧ unsealed w.1 = w.1) := by
  refine field (fun _ : Sent => wireMagic) parses_u32 (fun magic _ => ?_)
    (fun _ _ => trivial)
  refine field (fun w : Sent => w.1.schemaVersion) parses_u32
    (fun s _ => ?_) (fun _ _ => trivial)
  apply Parses.require
  · intro hh
    simp only [Bool.and_eq_true, beq_iff_eq, decide_eq_true_eq] at hh
    obtain ⟨⟨rfl, hl⟩, hhi⟩ := hh
    apply (parses_body ⟨hl, hhi⟩).congr
    · intro w
      constructor
      · rintro ⟨hv, hw, hb⟩
        exact ⟨hv, rfl, hw, hb⟩
      · rintro ⟨hv, _, hw, hb⟩
        exact ⟨hv, hw, hb⟩
    · rintro w ⟨hv, _⟩
      rw [← hv]
  · rintro ⟨r, hc⟩ ⟨rfl, rfl, ha, _⟩
    have hs := ha.schema
    simp [hs.1, hs.2]

structure Writable (request : Request) : Prop where
  messages : ∀ message ∈ request.messages, message.content.length < 2 ^ 32 ∧
    message.reasoningContent.length < 2 ^ 32 ∧
    ∀ call ∈ message.toolCalls, call.argumentsJson.length < 2 ^ 32
  tools : ∀ tool ∈ request.tools,
    tool.description.length < 2 ^ 32 ∧ tool.parametersJson.length < 2 ^ 32
  stops : ∀ stop ∈ request.stopStrings, stop.length < 2 ^ 32

theorem writes_text {c : ℕ} (hcap : c < 2 ^ 32) (t : CText c) :
    Writes (writeText t) (textBytes t) :=
  writes_span (by have := t.fits; omega)

theorem writes_id {t : CText 65} : Writes (writeText t) (textBytes t) := writes_text (by decide) t

theorem writes_int {v : Int32} : Writes (writeInt v) (intBytes v) := writes_u32

theorem writes_call {c : ToolCall} (h : c.argumentsJson.length < 2 ^ 32) :
    Writes (writeCall c) (callBytes c) :=
  writes_id.next (writes_id.next (writes_span h).last)

theorem writes_message {m : Message} (hc : m.content.length < 2 ^ 32)
    (hrs : m.reasoningContent.length < 2 ^ 32)
    (hh : ∀ c ∈ m.toolCalls, c.argumentsJson.length < 2 ^ 32) :
    Writes (writeMessage s m) (messageBytes s m) := by
  apply writes_u32.next
  apply (writes_span hc).next
  apply (Writes.optional _ fun _ => writes_span hrs).next
  apply writes_id.next
  exact (writes_counted fun c hca => writes_call (hh c hca)).last

theorem writes_tool {t : FunctionTool} (hdes : t.description.length < 2 ^ 32)
    (hpar : t.parametersJson.length < 2 ^ 32) :
    Writes (writeTool s t) (toolBytes s t) := by
  apply writes_id.next
  apply (writes_span hdes).next
  apply (writes_span hpar).next
  apply writes_int.next
  exact (Writes.optional _ fun _ => writes_int.next writes_int.last).last

theorem writes_choice (c : ToolChoice) : Writes (writeToolChoice c) (toolChoiceBytes c) :=
  writes_u32.next (writes_id.next writes_int.last)

theorem writes_sampling (sm : Sampling) : Writes (writeSampling sm) (samplingBytes sm) := by
  apply writes_int.next
  apply writes_int.next
  apply writes_u64.next
  apply writes_u64.next
  apply writes_u64.next
  apply writes_u64.next
  apply writes_u64.next
  exact writes_u64.last

/-- A request that fits is written in its wire format. -/
theorem writes_request {r : Request} (hsch : r.schemaVersion ≤ schemaV4) (h : Writable r) :
    Writes (writeRequest r) (requestBytes r r.requestIdentity) := by
  have hver : requestWireSchema r.schemaVersion = r.schemaVersion := if_pos hsch
  unfold writeRequest
  rw [hver]
  apply writes_u32.next
  apply writes_u32.next
  apply (writes_text (by decide) _).next
  apply (writes_counted fun m hm =>
    writes_message _ (h.messages m hm).1 (h.messages m hm).2.1 (h.messages m hm).2.2).next
  apply (writes_counted fun t ht => writes_tool _ (h.tools t ht).1 (h.tools t ht).2).next
  apply (writes_counted fun st hs => writes_span (h.stops st hs)).next
  apply (writes_choice _).next
  apply writes_u32.next
  apply (Writes.optional _ fun _ => writes_u32.next writes_int.last).next
  apply (Writes.optional _ fun _ => writes_u32).next
  apply (writes_sampling _).next
  apply writes_u64.next
  apply writes_int.next
  apply writes_int.next
  apply (writes_text (by decide) _).next
  apply writes_id.next
  apply writes_id.next
  exact writes_id.last

end Yvex.ProviderFormat
