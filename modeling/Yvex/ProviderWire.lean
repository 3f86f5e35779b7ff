import Yvex.ProviderRequest
import Yvex.SequentialWire

/-!
# The wire form of a provider request

The encoder writes a sealed request field by field into a bounded buffer; the
decoder reads it back, checks each field as it goes, seals what it has read and
compares the identity it derived with the one transmitted. Schema 1 omits the
fields that schema 2 introduced, and only schema 4 carries the history policy.
-/

set_option autoImplicit false

namespace Yvex.ProviderWire
open AttentionData RefusableStep WireWords WireCodecs ProviderRequest SequentialWire

def wireMaxBytes : ℕ := 1048576

def wireMagic : UInt32 := 0x59505231

def writeText {capacity : ℕ} (text : CText capacity) : Write := writeSpan text.bytes

def writeInt (value : Int32) : Write := writeU32 value.toUInt32

def writeCall (call : ToolCall) : Write := do
  writeText call.callId
  writeText call.name
  writeSpan call.argumentsJson

def writeMessage (schema : UInt32) (message : Message) : Write := do
  writeU32 message.role
  writeSpan message.content
  writeOptional (schema ≠ schemaV1) (writeSpan message.reasoningContent)
  writeText message.toolCallId
  writeCounted writeCall message.toolCalls

def writePresence (tool : FunctionTool) : Write := do
  writeInt tool.descriptionPresent
  writeInt tool.strictPresent

def writeTool (schema : UInt32) (tool : FunctionTool) : Write := do
  writeText tool.name
  writeSpan tool.description
  writeSpan tool.parametersJson
  writeInt tool.strict
  writeOptional (schema ≠ schemaV1) (writePresence tool)

def writeToolChoice (choice : ToolChoice) : Write := do
  writeU32 choice.kind
  writeText choice.functionName
  writeInt choice.parallelCalls

def writeReasoning (request : Request) : Write := do
  writeU32 request.reasoningPolicy
  writeInt request.dropThinking

def writeSampling (sampling : Sampling) : Write := do
  writeInt sampling.stochastic
  writeInt sampling.seedPresent
  writeU64 sampling.seed
  writeU64 sampling.topK
  writeU64 sampling.temperature
  writeU64 sampling.topP
  writeU64 sampling.minP
  writeU64 sampling.typicalP

def requestWireSchema (schema : UInt32) : UInt32 := if schema ≤ schemaV4 then schema else 0

def writeRequest (request : Request) : Write := do
  writeU32 wireMagic
  writeU32 (requestWireSchema request.schemaVersion)
  writeText request.model
  writeCounted (writeMessage request.schemaVersion) request.messages
  writeCounted (writeTool request.schemaVersion) request.tools
  writeCounted writeSpan request.stopStrings
  writeToolChoice request.toolChoice
  writeU32 request.responseFormat
  writeOptional (request.schemaVersion ≠ schemaV1) (writeReasoning request)
  writeOptional (request.schemaVersion = schemaV4) (writeU32 request.reasoningHistoryPolicy)
  writeSampling request.sampling
  writeU64 request.maximumOutputTokens
  writeInt request.stream
  writeInt request.includeUsage
  writeText request.adapter
  writeText request.previousResponseId
  writeText request.externalCorrelationId
  writeText request.requestIdentity

def wireEncode (services : Services) (request : Request) (capacity : ℕ) :
    Except Refusal (List UInt8) :=
  if capacity > wireMaxBytes ∨ (requestValidate services request).isOk = false then
    .error (providerRefuse .invalidArg "sealed request and bounded wire output are required")
  else if requestWireSchema request.schemaVersion = 0 then
    .error (providerRefuse .unsupported "provider request schema has no wire projection")
  else match writeRequest request ⟨capacity, []⟩ with
    | none => .error (providerRefuse .bounds "provider request exceeds wire capacity")
    | some (_, writer) => .ok writer.bytes

def readText (capacity : ℕ) : Read (CText capacity) := do
  let span ← readSpan (capacity - 1)
  if h : span.length < capacity ∧ (0 : UInt8) ∉ span then
    return ⟨span, Nat.le_sub_one_of_lt h.1, h.2⟩
  else refuse

def readCode (last : UInt32) : Read UInt32 := do
  let value ← readU32
  require (decide (value ≤ last))
  return value

def readFlag : Read Int32 := do
  let value ← readU32
  require (decide (value ≤ 1))
  return value.toInt32

def readCall : Read ToolCall := do
  let callId ← readText 65
  let name ← readText 65
  let argumentsJson ← readSpan maxToolSchemaBytes
  return ⟨callId, name, argumentsJson⟩

def readMessage (schema : UInt32) : Read Message := do
  let role ← readCode ProviderRole.tool.code
  let content ← readSpan maxMessageBytes
  let reasoningContent ← readOptional (schema ≠ schemaV1) (readSpan maxMessageBytes) []
  let toolCallId ← readText 65
  let toolCalls ← readCounted (callLimit schema) readCall
  return ⟨role, content, reasoningContent, toolCallId, toolCalls⟩

def readPresence : Read (Int32 × Int32) := do
  let descriptionPresent ← readFlag
  let strictPresent ← readFlag
  return (descriptionPresent, strictPresent)

def readTool (schema : UInt32) : Read FunctionTool := do
  let name ← readText 65
  let description ← readSpan maxMessageBytes
  let parametersJson ← readSpan maxToolSchemaBytes
  let strict ← readFlag
  let presence ← readOptional (schema ≠ schemaV1) readPresence (0, 0)
  return ⟨name, description, parametersJson, presence.1, strict, presence.2⟩

def readToolChoice : Read ToolChoice := do
  let kind ← readCode ToolChoiceKind.function.code
  let functionName ← readText 65
  let parallelCalls ← readFlag
  return ⟨kind, functionName, parallelCalls⟩

def readReasoning (schema : UInt32) : Read (UInt32 × Int32) := do
  let policy ← readU32
  require (policyAdmitted schema policy)
  let dropThinking ← readFlag
  return (policy, dropThinking)

def readSampling : Read Sampling := do
  let stochastic ← readFlag
  let seedPresent ← readFlag
  let seed ← readU64
  let topK ← readU64
  let temperature ← readU64
  let topP ← readU64
  let minP ← readU64
  let typicalP ← readU64
  return ⟨stochastic, seedPresent, seed, topK, temperature, topP, minP, typicalP⟩

def readBody (schema : UInt32) : Read (Request × CText 65) := do
  let model ← readText 128
  let messages ← readCounted maxMessages (readMessage schema)
  let tools ← readCounted maxTools (readTool schema)
  let stopStrings ← readCounted maxStops (readSpan maxStopBytes)
  let toolChoice ← readToolChoice
  let responseFormat ← readCode ResponseFormat.jsonObject.code
  let reasoning ← readOptional (schema ≠ schemaV1) (readReasoning schema)
    (ReasoningPolicy.disabled.code, 1)
  let history ← readOptional (schema = schemaV4) (readCode ReasoningHistoryPolicy.preserve.code)
    ReasoningHistoryPolicy.sourceDefault.code
  let sampling ← readSampling
  let maximumOutputTokens ← readU64
  let stream ← readFlag
  let includeUsage ← readFlag
  let adapter ← readText 32
  let previousResponseId ← readText 65
  let externalCorrelationId ← readText 65
  let claimed ← readText 65
  return (⟨schema, model, messages, tools, stopStrings, toolChoice, responseFormat, reasoning.1,
    history, sampling, maximumOutputTokens, stream, includeUsage, reasoning.2, adapter,
    previousResponseId, externalCorrelationId, CText.empty 65, false⟩, claimed)

def readRequest : Read (Request × CText 65) := do
  let magic ← readU32
  let schema ← readU32
  require (magic == wireMagic && decide (schemaV1 ≤ schema) && decide (schema ≤ schemaV4))
  readBody schema

def malformed : Except Refusal Request :=
  .error (providerRefuse .format "provider wire request is malformed or unauthenticated")

def wireDecode (services : Services) (memory : Memory) (count : ℕ) : Except Refusal Request :=
  if count = 0 ∨ count > wireMaxBytes then
    .error (providerRefuse .invalidArg "bounded provider wire bytes are required")
  else match readRequest ⟨memory, count⟩ 0 with
    | none => malformed
    | some ((request, claimed), offset) =>
      if offset ≠ count then malformed
      else match requestSeal services request with
        | .refused _ _ => malformed
        | .done done => if claimed = done.requestIdentity then .ok done else malformed

end Yvex.ProviderWire
