import Yvex.StateRecipe

/-!
# The event stream of a response

The daemon's messages of one turn become server-sent events. An output item is the message
of the response or one tool call; its output index is computed from the text seen so far,
when a fragment arrives and again when the turn is complete.
-/

set_option autoImplicit false

namespace Yvex.ResponseStream

open AttentionData CheckedArithmetic StateRecipe

inductive OutputKind where
  | assistantText
  | functionCall
  | usage
  | terminal
  | error
  | explicitReasoning
  deriving DecidableEq, Repr

inductive FinishClass where
  | stop
  | length
  | toolCalls
  | cancelled
  | failed
  deriving DecidableEq, Repr

structure Fragment where
  outputKind : OutputKind
  byteCount : ℕ
  toolCallId : Text
  toolName : Text

inductive Message where
  | turnStarted
  | fragment (fragment : Fragment)
  | turnComplete (finish : FinishClass)
  | error
  | other

structure ToolCall where
  callId : Text
  name : Text
  argumentsCount : ℕ

structure GenerationResult where
  reasoningCount : ℕ
  textCount : ℕ
  toolCalls : List ToolCall
  finish : FinishClass
  complete : Bool

inductive EventKind where
  | created
  | outputItemAdded
  | contentPartAdded
  | reasoningDelta
  | reasoningDone
  | outputTextDelta
  | outputTextDone
  | contentPartDone
  | functionArgumentsDelta
  | functionArgumentsDone
  | outputItemDone
  | completed
  | incomplete
  | failed
  deriving DecidableEq, Repr

inductive Item where
  | message
  | call (callId : Text)
  deriving DecidableEq, Repr

structure Event where
  kind : EventKind
  sequence : ℕ
  output : Option (ℕ × Item)
  deriving DecidableEq, Repr

structure Stream where
  headersSent : Bool
  responseSequence : ℕ
  responseItemMask : ℕ
  result : GenerationResult
  written : List Event

def EventKind.namesItem : EventKind → Bool
  | .outputItemAdded | .contentPartAdded | .outputTextDelta | .outputTextDone | .contentPartDone
  | .functionArgumentsDelta | .functionArgumentsDone | .outputItemDone => true
  | _ => false

def firstTool (result : GenerationResult) : ℕ := if result.textCount = 0 then 0 else 1

def responseItem (result : GenerationResult) (outputIndex : ℕ) : Item :=
  if outputIndex < firstTool result then .message
  else match result.toolCalls[outputIndex - firstTool result]? with
  | some call => .call call.callId
  | none => .message

def Stream.emit (s : Stream) (kind : EventKind) (outputIndex : ℕ) : Stream :=
  { s with
    responseSequence := s.responseSequence + 1
    written := s.written ++ [⟨kind, s.responseSequence,
      if kind.namesItem then some (outputIndex, responseItem s.result outputIndex) else none⟩] }

def providerMaxTools : ℕ := 32

def providerMaxContentBytes : ℕ := 1048576

def resultAppend (count fragmentCount : ℕ) : Except Refusal ℕ :=
  -- The count after a fragment; the difference of the bound is one of words.
  if (providerMaxContentBytes + wordLimit - fragmentCount) % wordLimit < count then
    .error ⟨.bounds, "", "", none⟩
  else .ok (count + fragmentCount)

def toolRefuse (status : Status) (reason : String) : Refusal :=
  errorOnly status "server.openai.tool" reason

def generationToolCall (result : GenerationResult) (fragment : Fragment) :
    Except Refusal (GenerationResult × ℕ) :=
  if fragment.toolCallId = [] ∨ fragment.toolName = [] then
    .error (toolRefuse .format "typed tool fragments require call and function identities")
  else match result.toolCalls.findIdx? fun call => call.callId = fragment.toolCallId with
  | some index =>
    if (result.toolCalls[index]?.map ToolCall.name) ≠ some fragment.toolName then
      .error (toolRefuse .format "one tool-call identity changed function name")
    else .ok (result, index)
  | none =>
    if providerMaxTools ≤ result.toolCalls.length then
      .error (toolRefuse .bounds "tool-call result exceeds provider capacity")
    else .ok ({ result with
      toolCalls := result.toolCalls ++ [⟨fragment.toolCallId, fragment.toolName, 0⟩] },
      result.toolCalls.length)

def appendArguments (result : GenerationResult) (tool fragmentCount : ℕ) :
    Except Refusal GenerationResult :=
  (resultAppend ((result.toolCalls[tool]?.map ToolCall.argumentsCount).getD 0) fragmentCount).map
    fun count => { result with
      toolCalls := result.toolCalls.modify tool fun call => { call with argumentsCount := count } }

def Stream.announce (s : Stream) (outputIndex : ℕ) (call : Bool) : Stream :=
  if s.responseItemMask.testBit outputIndex then s
  else
    let added := s.emit .outputItemAdded outputIndex
    let opened := if call then added else added.emit .contentPartAdded outputIndex
    { opened with responseItemMask := s.responseItemMask ||| 1 <<< outputIndex }

def generationFragment (s : Stream) (fragment : Fragment) : Except Refusal Stream :=
  match fragment.outputKind with
  | .functionCall =>
    match generationToolCall s.result fragment with
    | .error refusal => .error refusal
    | .ok (result, tool) =>
      (appendArguments result tool fragment.byteCount).map fun result =>
        ({ s with result := result }.announce (firstTool result + tool) true).emit
          .functionArgumentsDelta (firstTool result + tool)
  | .explicitReasoning =>
    (resultAppend s.result.reasoningCount fragment.byteCount).map fun count =>
      { s with result := { s.result with reasoningCount := count } }.emit .reasoningDelta 0
  | _ =>
    (resultAppend s.result.textCount fragment.byteCount).map fun count =>
      ({ s with result := { s.result with textCount := count } }.announce 0 false).emit
        .outputTextDelta 0

def Stream.closeText (s : Stream) : Stream :=
  ((s.emit .outputTextDone 0).emit .contentPartDone 0).emit .outputItemDone 0

def Stream.closeTool (s : Stream) (index : ℕ) : Stream :=
  (s.emit .functionArgumentsDone (firstTool s.result + index)).emit .outputItemDone
    (firstTool s.result + index)

def responseTerminalEmit (s : Stream) : Stream :=
  let s := if s.result.reasoningCount = 0 then s else s.emit .reasoningDone 0
  let s := if s.result.textCount ≠ 0 ∨ s.result.toolCalls = [] then s.closeText else s
  let s := (List.range s.result.toolCalls.length).foldl Stream.closeTool s
  s.emit (if s.result.finish = .length then .incomplete else .completed) 0

def responseStreamComplete (s : Stream) : Stream :=
  responseTerminalEmit
    (if s.responseItemMask = 0 ∧ s.result.toolCalls = [] then
      { (s.emit .outputItemAdded 0).emit .contentPartAdded 0 with responseItemMask := 1 }
    else s)

def generationExecute (s : Stream) : List Message → Stream × Bool
  | [] => (s, false)
  | message :: rest =>
    match message with
    | .error => (s, false)
    | .other => generationExecute s rest
    | .turnStarted =>
      if s.headersSent then generationExecute s rest
      else generationExecute ({ s with headersSent := true }.emit .created 0) rest
    | .turnComplete finish =>
      ({ s with result := { s.result with finish := finish, complete := true } }, true)
    | .fragment fragment =>
      match generationFragment s fragment with
      | .error _ => (s, false)
      | .ok s => generationExecute s rest

def emptyStream : Stream := ⟨false, 0, 0, ⟨0, 0, [], .stop, false⟩, []⟩

def handleGeneration (messages : List Message) (retained : Bool) : List Event :=
  let (s, complete) := generationExecute emptyStream messages
  if complete && retained then (responseStreamComplete s).written
  else if s.headersSent then (s.emit .failed 0).written
  else s.written

def EventKind.delta : EventKind → Bool
  | .outputTextDelta | .functionArgumentsDelta => true
  | _ => false

def EventKind.ending : EventKind → Bool
  | .completed | .incomplete | .failed => true
  | _ => false

def itemsOf (kind : EventKind) (events : List Event) : List Item :=
  (events.filter fun event => event.kind = kind).filterMap fun event => event.output.map Prod.snd

structure Grammar (events : List Event) : Prop where
  consecutive : events.map Event.sequence = List.range events.length
  announcedOnce : ∀ event ∈ events, ∀ output ∈ event.output,
    (itemsOf .outputItemAdded events).count output.2 = 1
  announcedFirst : ∀ before event after, events = before ++ event :: after →
    event.kind.delta = true → ∃ output ∈ event.output, output.2 ∈ itemsOf .outputItemAdded before
  oneIndex : ∀ first ∈ events, ∀ second ∈ events, ∀ a ∈ first.output, ∀ b ∈ second.output,
    a.1 = b.1 ↔ a.2 = b.2
  oneEnd : ∃ front last, events = front ++ [last] ∧ last.kind.ending = true ∧
    ∀ event ∈ front, event.kind.ending = false

def AllClosed (events : List Event) : Prop :=
  ∀ item ∈ itemsOf .outputItemAdded events, (itemsOf .outputItemDone events).count item = 1

end Yvex.ResponseStream
