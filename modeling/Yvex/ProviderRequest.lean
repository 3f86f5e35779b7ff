import Yvex.CheckedSteps
import Yvex.RefusableStep
import Yvex.StateRecipe
import Yvex.WireCodecs

/-!
# Provider requests

The transport-neutral request, its field checks in their order, and sealing: a
request is sealed by the digest of its fields, and a sealed request is valid
when its fields pass the checks and give the identity it carries. The digest and
the JSON reader are external.
-/

set_option autoImplicit false

namespace Yvex.ProviderRequest
open AttentionData StateRecipe RefusableStep WireCodecs

inductive ProviderRole where
  | developer | system | user | assistant | tool

inductive ToolChoiceKind where
  | none | auto | required | function

inductive ResponseFormat where
  | text | jsonObject

inductive ReasoningPolicy where
  | disabled | enabled | maximum | low | sourceDefault

inductive ReasoningHistoryPolicy where
  | sourceDefault | drop | preserve

def ProviderRole.code (role : ProviderRole) : UInt32 := UInt32.ofNat role.ctorIdx

def ToolChoiceKind.code (kind : ToolChoiceKind) : UInt32 := UInt32.ofNat kind.ctorIdx

def ResponseFormat.code (format : ResponseFormat) : UInt32 := UInt32.ofNat format.ctorIdx

def ReasoningPolicy.code (policy : ReasoningPolicy) : UInt32 := UInt32.ofNat policy.ctorIdx

def ReasoningHistoryPolicy.code (policy : ReasoningHistoryPolicy) : UInt32 :=
  UInt32.ofNat policy.ctorIdx

structure ToolCall where
  callId : CText 65
  name : CText 65
  argumentsJson : List UInt8
  deriving DecidableEq

structure Message where
  role : UInt32
  content : List UInt8
  reasoningContent : List UInt8
  toolCallId : CText 65
  toolCalls : List ToolCall
  deriving DecidableEq

structure FunctionTool where
  name : CText 65
  description : List UInt8
  parametersJson : List UInt8
  descriptionPresent : Int32
  strict : Int32
  strictPresent : Int32
  deriving DecidableEq

structure ToolChoice where
  kind : UInt32
  functionName : CText 65
  parallelCalls : Int32
  deriving DecidableEq

structure Sampling where
  stochastic : Int32
  seedPresent : Int32
  seed : UInt64
  topK : UInt64
  temperature : Double
  topP : Double
  minP : Double
  typicalP : Double
  deriving DecidableEq

structure Request where
  schemaVersion : UInt32
  model : CText 128
  messages : List Message
  tools : List FunctionTool
  stopStrings : List (List UInt8)
  toolChoice : ToolChoice
  responseFormat : UInt32
  reasoningPolicy : UInt32
  reasoningHistoryPolicy : UInt32
  sampling : Sampling
  maximumOutputTokens : UInt64
  stream : Int32
  includeUsage : Int32
  dropThinking : Int32
  adapter : CText 32
  previousResponseId : CText 65
  externalCorrelationId : CText 65
  requestIdentity : CText 65
  sealed : Bool
  deriving DecidableEq

def schemaV1 : UInt32 := 1

def schemaV2 : UInt32 := 2

def schemaV3 : UInt32 := 3

def schemaV4 : UInt32 := 4

def maxMessages : ℕ := 128

def maxTools : ℕ := 32

def maxStops : ℕ := 4

def maxMessageBytes : ℕ := 262144

def maxContentBytes : ℕ := 1048576

def maxToolSchemaBytes : ℕ := 65536

def maxStopBytes : ℕ := 256

structure Services where
  digest : List HashField → Option (CText 65)
  completeValue : List UInt8 → Bool

def providerRefuse (status : Status) (reason : String) : Refusal :=
  errorOnly status "provider.request" reason

def check (condition : Bool) (status : Status) (reason : String) : Except Refusal Unit :=
  if condition then .ok () else .error (providerRefuse status reason)

def spanValid (span : List UInt8) (maximum : ℕ) (allowEmpty : Bool) : Bool :=
  decide (span.length ≤ maximum) && (allowEmpty || !span.isEmpty)

def identifierByte (byte : UInt8) : Bool :=
  (decide (97 ≤ byte) && decide (byte ≤ 122)) || (decide (65 ≤ byte) && decide (byte ≤ 90)) ||
    (decide (48 ≤ byte) && decide (byte ≤ 57)) || byte == 95 || byte == 45 || byte == 46 ||
    byte == 58

def identifierValid {capacity : ℕ} (text : CText capacity) (allowEmpty : Bool) : Bool :=
  (allowEmpty || !text.isEmpty) && text.bytes.all identifierByte

def isFlag (value : Int32) : Bool := value == 0 || value == 1

def isJsonSpace (byte : UInt8) : Bool := byte == 32 || byte == 9 || byte == 13 || byte == 10

def jsonValueValidate (services : Services) (bytes : List UInt8) (requireObject : Bool) :
    Except Refusal Unit := do
  check (!bytes.isEmpty && decide (bytes.length ≤ maxToolSchemaBytes)) .bounds
    "bounded JSON bytes are required"
  let first := (bytes.dropWhile isJsonSpace).head?
  check (first.isSome && (!requireObject || first == some 123)) .format
    "JSON object syntax is required"
  check (services.completeValue bytes) .format "one complete JSON value is required"

def toolFieldsValid (schema : UInt32) (tool : FunctionTool) : Bool :=
  identifierValid tool.name false && spanValid tool.description maxMessageBytes true &&
    spanValid tool.parametersJson maxToolSchemaBytes false && isFlag tool.strict &&
    (schema == schemaV1 ||
      (isFlag tool.descriptionPresent && isFlag tool.strictPresent &&
        (tool.descriptionPresent != 0 || tool.description.isEmpty) &&
        (tool.strictPresent != 0 || tool.strict == 0)))

def toolValid (services : Services) (schema : UInt32) (tool : FunctionTool) :
    Except Refusal Unit := do
  check (toolFieldsValid schema tool) .invalidArg "function tool fields are invalid or oversized"
  jsonValueValidate services tool.parametersJson true

def callLimit (schema : UInt32) : ℕ := if schema = schemaV1 then 1 else maxTools

def messageFieldsValid (schema : UInt32) (message : Message) : Bool :=
  decide (message.role ≤ ProviderRole.tool.code) &&
    spanValid message.content maxMessageBytes (message.role == ProviderRole.assistant.code) &&
    spanValid message.reasoningContent maxMessageBytes true &&
    (schema != schemaV1 || message.reasoningContent.isEmpty) &&
    (message.reasoningContent.isEmpty || message.role == ProviderRole.assistant.code) &&
    decide (message.toolCalls.length ≤ callLimit schema)

def callFieldsValid (call : ToolCall) : Bool :=
  identifierValid call.callId false && identifierValid call.name false &&
    spanValid call.argumentsJson maxToolSchemaBytes false

def callsValid (services : Services) : List ToolCall → List ToolCall → Except Refusal Unit
  | _, [] => .ok ()
  | prior, call :: calls => do
    check (callFieldsValid call) .invalidArg "assistant tool-call fields are invalid"
    check (prior.all fun other => other.callId != call.callId) .invalidArg
      "assistant tool-call IDs must be unique"
    jsonValueValidate services call.argumentsJson true
    callsValid services (prior ++ [call]) calls

def messageValid (services : Services) (schema : UInt32) (message : Message) :
    Except Refusal Unit := do
  check (messageFieldsValid schema message) .invalidArg
    "provider message fields are invalid or oversized"
  if message.role = ProviderRole.tool.code then
    check (identifierValid message.toolCallId false && message.toolCalls.isEmpty) .invalidArg
      "tool results require exactly one call ID"
  else
    check message.toolCallId.isEmpty .invalidArg "only tool-result messages carry tool_call_id"
  check (message.toolCalls.isEmpty || message.role == ProviderRole.assistant.code) .invalidArg
    "only assistant messages carry tool calls"
  callsValid services [] message.toolCalls

def reasoningPolicyValid (policy : UInt32) : Bool := decide (policy ≤ ReasoningPolicy.low.code)

def reasoningRequestPolicyValid (policy : UInt32) : Bool :=
  reasoningPolicyValid policy || policy == ReasoningPolicy.sourceDefault.code

def policyAdmitted (schema policy : UInt32) : Bool :=
  if schema = schemaV4 then reasoningRequestPolicyValid policy else reasoningPolicyValid policy

def requestFieldsComplete (request : Request) : Bool :=
  decide (schemaV1 ≤ request.schemaVersion) && decide (request.schemaVersion ≤ schemaV4) &&
    identifierValid request.model false && !request.messages.isEmpty &&
    decide (request.messages.length ≤ maxMessages) &&
    decide (request.tools.length ≤ maxTools) &&
    decide (request.stopStrings.length ≤ maxStops) &&
    decide (request.toolChoice.kind ≤ ToolChoiceKind.function.code) &&
    isFlag request.toolChoice.parallelCalls &&
    (request.schemaVersion != schemaV1 || request.toolChoice.parallelCalls == 0) &&
    decide (request.responseFormat ≤ ResponseFormat.jsonObject.code) &&
    policyAdmitted request.schemaVersion request.reasoningPolicy &&
    decide (request.reasoningHistoryPolicy ≤ ReasoningHistoryPolicy.preserve.code) &&
    (request.schemaVersion == schemaV4 ||
      request.reasoningHistoryPolicy == ReasoningHistoryPolicy.sourceDefault.code) &&
    isFlag request.dropThinking &&
    (request.schemaVersion != schemaV1 ||
      request.reasoningPolicy == ReasoningPolicy.disabled.code) &&
    (decide (schemaV3 ≤ request.schemaVersion) || request.maximumOutputTokens != 0) &&
    decide (request.maximumOutputTokens ≤ 4294967295) && isFlag request.stream &&
    isFlag request.includeUsage && isFinite request.sampling.temperature &&
    isFinite request.sampling.topP && isFinite request.sampling.minP &&
    isFinite request.sampling.typicalP

def within (value last : Double) : Bool := doubleLe 0 value && doubleLe value last

def samplingInRange (sampling : Sampling) : Bool :=
  within sampling.temperature doubleTwo && within sampling.topP doubleOne &&
    within sampling.minP doubleOne && within sampling.typicalP doubleOne

def messagesValid (services : Services) (schema : UInt32) :
    ℕ → List Message → Except Refusal Unit
  | _, [] => .ok ()
  | total, message :: messages => do
    messageValid services schema message
    check (decide (total ≤ maxContentBytes - message.content.length)) .bounds
      "aggregate message bytes exceed the request limit"
    check (decide (total + message.content.length ≤
      maxContentBytes - message.reasoningContent.length)) .bounds
      "aggregate reasoning bytes exceed the request limit"
    messagesValid services schema
      (total + message.content.length + message.reasoningContent.length) messages

def toolsValid (services : Services) (schema : UInt32) :
    List FunctionTool → List FunctionTool → Except Refusal Unit
  | _, [] => .ok ()
  | prior, tool :: tools => do
    toolValid services schema tool
    check (prior.all fun other => tool.name != other.name) .format
      "function tool names must be unique"
    toolsValid services schema (prior ++ [tool]) tools

def namedFound (request : Request) : Bool :=
  request.tools.any fun tool => request.toolChoice.functionName == tool.name

def requestFieldsValidate (services : Services) (request : Request) : Except Refusal Unit := do
  check (requestFieldsComplete request) .invalidArg
    "complete bounded provider request fields are required"
  check (samplingInRange request.sampling) .invalidArg
    "sampling values are outside the admitted range"
  messagesValid services request.schemaVersion 0 request.messages
  toolsValid services request.schemaVersion [] request.tools
  check (!(request.toolChoice.kind == ToolChoiceKind.required.code ||
    request.toolChoice.kind == ToolChoiceKind.function.code) || !request.tools.isEmpty) .invalidArg
    "required tool choice needs a tool definition"
  check (request.toolChoice.kind != ToolChoiceKind.function.code ||
    (identifierValid request.toolChoice.functionName false && namedFound request)) .invalidArg
    "named tool choice does not match a definition"
  check (request.stopStrings.all fun stop => spanValid stop maxStopBytes false) .invalidArg
    "stop string is empty or oversized"
  check (identifierValid request.adapter true) .invalidArg
    "provider adapter identifier is invalid"
  check (identifierValid request.previousResponseId true) .invalidArg
    "previous response ID is invalid"
  check (identifierValid request.externalCorrelationId true) .invalidArg
    "external correlation ID is invalid"

section Identity

def hashText {capacity : ℕ} (text : CText capacity) : HashField :=
  .text (text.bytes.map fun byte => Char.ofNat byte.toNat)

def hashSpan (span : List UInt8) : List HashField := [.word span.length, .bytes span]

def hashCode (value : UInt32) : HashField := .word value.toNat

-- An `int` is widened with its sign before it is hashed.
def hashInt (value : Int32) : HashField := .word value.toInt64.toUInt64.toNat

def hashDouble (value : Double) : HashField := .word value.toNat

def schemaLabel (schema : UInt32) : HashField :=
  textField (if schema = schemaV4 then "yvex.provider.request.v4"
    else if schema = schemaV3 then "yvex.provider.request.v3"
    else if schema = schemaV2 then "yvex.provider.request.v2"
    else "yvex.provider.request.v1")

def callIdentityFields (call : ToolCall) : List HashField :=
  hashText call.callId :: hashText call.name :: hashSpan call.argumentsJson

def messageIdentityFields (schema : UInt32) (message : Message) : List HashField :=
  hashCode message.role :: hashSpan message.content ++
    (if schema = schemaV1 then [] else hashSpan message.reasoningContent) ++
    [hashText message.toolCallId, .word message.toolCalls.length] ++
    message.toolCalls.flatMap callIdentityFields

def toolIdentityFields (schema : UInt32) (tool : FunctionTool) : List HashField :=
  hashText tool.name :: hashSpan tool.description ++ hashSpan tool.parametersJson ++
    (if schema = schemaV1 then []
      else [hashInt tool.descriptionPresent, hashInt tool.strictPresent]) ++
    [hashInt tool.strict]

def identityFields (request : Request) : List HashField :=
  let schema := request.schemaVersion
  [schemaLabel schema, hashCode schema, hashText request.model, .word request.messages.length] ++
    request.messages.flatMap (messageIdentityFields schema) ++
    .word request.tools.length :: request.tools.flatMap (toolIdentityFields schema) ++
    .word request.stopStrings.length :: request.stopStrings.flatMap hashSpan ++
    [hashCode request.toolChoice.kind, hashText request.toolChoice.functionName,
      hashInt request.toolChoice.parallelCalls, hashCode request.responseFormat] ++
    (if schema = schemaV1 then []
      else [hashCode request.reasoningPolicy, hashInt request.dropThinking]) ++
    (if schema = schemaV4 then [hashCode request.reasoningHistoryPolicy] else []) ++
    [hashInt request.sampling.stochastic, hashInt request.sampling.seedPresent,
      .word request.sampling.seed.toNat, .word request.sampling.topK.toNat,
      hashDouble request.sampling.temperature, hashDouble request.sampling.topP,
      hashDouble request.sampling.minP, hashDouble request.sampling.typicalP,
      .word request.maximumOutputTokens.toNat, hashInt request.stream,
      hashInt request.includeUsage, hashText request.adapter,
      hashText request.previousResponseId, hashText request.externalCorrelationId]

def requestIdentity (services : Services) (request : Request) : Option (CText 65) :=
  services.digest (identityFields request)

def unsealed (request : Request) : Request :=
  { request with requestIdentity := CText.empty 65, sealed := false }

def requestSeal (services : Services) (request : Request) : Outcome Refusal Request :=
  match requestFieldsValidate services request with
  | .error refusal => .refused refusal (unsealed request)
  | .ok () =>
    match requestIdentity services request with
    | none => .refused (providerRefuse .state "provider request identity derivation failed") request
    | some identity => .done { request with requestIdentity := identity, sealed := true }

def requestValidate (services : Services) (request : Request) : Except Refusal Unit := do
  check request.sealed .state "sealed provider request is required"
  let candidate := unsealed request
  check ((requestFieldsValidate services candidate).isOk &&
    requestIdentity services candidate == some request.requestIdentity) .state
    "provider request identity mismatch"

structure Sealed (services : Services) (request : Request) : Prop where
  fields : requestFieldsValidate services request = .ok ()
  identity : requestIdentity services request = some request.requestIdentity
  marked : request.sealed = true

theorem fieldsValidate_unsealed (services : Services) (r : Request) :
    requestFieldsValidate services (unsealed r) = requestFieldsValidate services r :=
  rfl

theorem requestIdentity_unsealed (services : Services) (r : Request) :
    requestIdentity services (unsealed r) = requestIdentity services r := rfl

variable {services : Services} {r : Request}

theorem requestSeal_done {d : Request} (h : requestSeal services r = .done d) :
    Sealed services d ∧ unsealed d = unsealed r := by
  unfold requestSeal at h
  split at h
  · cases h
  rename_i hf
  split at h
  · cases h
  · rename_i hide
    cases h
    exact ⟨⟨hf, hide, rfl⟩, rfl⟩

theorem requestSeal_of {identity : CText 65} (hf : requestFieldsValidate services r = .ok ())
    (hide : requestIdentity services r = some identity) :
    requestSeal services r = .done { r with requestIdentity := identity, sealed := true } := by
  unfold requestSeal
  rw [hf, hide]

theorem Sealed.seal_unsealed (h : Sealed services r) :
    requestSeal services (unsealed r) = .done r := by
  have hs := requestSeal_of ((fieldsValidate_unsealed services r).trans h.fields)
    ((requestIdentity_unsealed services r).trans h.identity)
  have hmar : { r with sealed := true } = r := by
    have hsea := h.marked
    cases r
    cases hsea
    rfl
  exact hs.trans (congrArg Outcome.done hmar)

theorem check_ok_iff {c : Bool} {st : Status} {re : String} :
    check c st re = .ok () ↔ c = true := by
  cases c <;> simp [check]

/-- A request validates exactly when it carries the identity of its own fields. -/
theorem requestValidate_iff : requestValidate services r = .ok () ↔ Sealed services r := by
  simp only [requestValidate, CheckedSteps.andThen_ok, check_ok_iff, fieldsValidate_unsealed,
    requestIdentity_unsealed, Bool.and_eq_true, beq_iff_eq]
  constructor
  · rintro ⟨hmar, hok, hide⟩
    cases hf : requestFieldsValidate services r with
    | error =>
      rw [hf] at hok
      cases hok
    | ok => exact ⟨hf, hide, hmar⟩
  · intro h
    exact ⟨h.marked, by rw [h.fields]; rfl, h.identity⟩

end Identity

end Yvex.ProviderRequest
