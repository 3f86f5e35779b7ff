import Yvex.AttentionData
import Yvex.CheckedSteps
import Yvex.DelimiterScan

/-!
# The reasoning stream and the completion parser

A completion is the bytes of its reasoning, a delimiter and the final text. The
stream separates them while the bytes arrive, in calls of any size; the parser
searches the whole completion. What the stream hands to its sink is recorded in
order, and the sink answers each call by what it has been given before.
-/

set_option autoImplicit false

namespace Yvex.ReasoningStream
open AttentionData CheckedSteps DelimiterScan List

inductive ReasoningPolicy where
  | disabled | enabled | maximum | low | sourceDefault
  deriving DecidableEq

inductive Segment where
  | finalText | explicit
  deriving DecidableEq

structure Conversation where
  thinkingStart : List UInt8
  thinkingEndPrefix : List UInt8
  thinkingEnd : List UInt8
  thinkingEndSuffix : List UInt8
  bos : List UInt8
  eos : List UInt8
  dsml : List UInt8
  xmlElements : Bool
  toolInvokeStart : List UInt8
  toolCallsStart : List UInt8
  defaultReasoningPolicy : ReasoningPolicy

structure Tokenizer where
  isSealed : Bool
  conversationAdmitted : Bool
  explicitReasoningSupported : Bool
  maximumReasoningSupported : Bool
  lowReasoningSupported : Bool
  conversation : Conversation

def emitCap : ℕ := 4096

def delimiterCap : ℕ := 64

def delimiter (conversation : Conversation) : Option (List UInt8) :=
  [conversation.thinkingEndPrefix, conversation.thinkingEnd,
    conversation.thinkingEndSuffix].foldlM (fun taken part =>
      if part.length > delimiterCap - taken.length then none else some (taken ++ part)) []

abbrev Emission := Segment × List UInt8

structure Stream where
  reasoningEnd : List UInt8
  pending : List UInt8
  reasoning : Bool
  finished : Bool
  out : List Emission

def streamOpen (tokenizer : Tokenizer) (policy : ReasoningPolicy) : Except Status Stream :=
  if !tokenizer.isSealed || !tokenizer.conversationAdmitted || policy == .sourceDefault ||
      (policy != .disabled && !tokenizer.explicitReasoningSupported) ||
      (policy == .maximum && !tokenizer.maximumReasoningSupported) ||
      (policy == .low && !tokenizer.lowReasoningSupported) then .error .unsupported
  else match delimiter tokenizer.conversation with
    | none => .error .bounds
    | some [] => .error .bounds
    | some reasoningEnd => .ok ⟨reasoningEnd, [], policy != .disabled, false, []⟩

section Stream

variable (sink : List Emission → Option Status)

def reasoningEmit (stream : Stream) (segment : Segment) (bytes : List UInt8) :
    Option Status × Stream :=
  if bytes = [] then (none, stream)
  else (sink stream.out, { stream with out := stream.out ++ [(segment, bytes)] })

structure Pushing where
  stream : Stream
  emitted : List UInt8
  rc : Option Status

def flush (pushing : Pushing) : Pushing :=
  let answer := reasoningEmit sink pushing.stream .explicit pushing.emitted
  ⟨answer.2, [], answer.1⟩

def shiftPending : Pushing → List UInt8 → Pushing
  | pushing, [] => { pushing with stream := { pushing.stream with pending := [] } }
  | pushing, first :: rest =>
    if first :: rest <+: pushing.stream.reasoningEnd then
      { pushing with stream := { pushing.stream with pending := first :: rest } }
    else
      let longer : Pushing := { pushing with emitted := pushing.emitted ++ [first] }
      shiftPending (if longer.emitted.length = emitCap then flush sink longer else longer) rest

def pushByte (pushing : Pushing) (byte : UInt8) : Pushing :=
  let shifted := shiftPending sink pushing (pushing.stream.pending ++ [byte])
  if shifted.stream.pending.length = shifted.stream.reasoningEnd.length then
    let flushed := if shifted.emitted = [] then shifted else flush sink shifted
    { flushed with stream := { flushed.stream with pending := [], reasoning := false } }
  else shifted

def pushLoop : Pushing → List UInt8 → Pushing × List UInt8
  | pushing, [] => (pushing, [])
  | pushing, byte :: rest =>
    if pushing.rc.isNone && pushing.stream.reasoning then
      pushLoop (pushByte sink pushing byte) rest
    else (pushing, byte :: rest)

def streamPush (stream : Stream) (bytes : List UInt8) : Option Status × Stream :=
  if stream.finished then (some .invalidArg, stream)
  else if !stream.reasoning then reasoningEmit sink stream .finalText bytes
  else
    let looped := pushLoop sink ⟨stream, [], none⟩ bytes
    let flushed := if looped.1.rc.isNone then flush sink looped.1 else looped.1
    if flushed.rc.isNone then reasoningEmit sink flushed.stream .finalText looped.2
    else (flushed.rc, flushed.stream)

def streamFinish (stream : Stream) : Option Status × Stream :=
  if stream.finished then (some .state, stream)
  else
    let answer := reasoningEmit sink stream (if stream.reasoning then .explicit else .finalText)
      stream.pending
    (if answer.1.isNone && stream.reasoning then some .format else answer.1,
      { answer.2 with pending := [], finished := true })

def pushAll : Stream → List (List UInt8) → Option Status × Stream
  | stream, [] => (none, stream)
  | stream, bytes :: rest =>
    match streamPush sink stream bytes with
    | (none, after) => pushAll after rest
    | failed => failed

end Stream

def findBytes (bytes marker : List UInt8) : Option ℕ :=
  if marker = [] ∨ bytes.length < marker.length then none
  else (List.range (bytes.length - marker.length + 1)).find? fun place =>
    marker.isPrefixOf (bytes.drop place)

structure OutputView where
  reasoning : List UInt8
  final : List UInt8

def completionSpecialValid (conversation : Conversation) (view : OutputView) : Bool :=
  (findBytes view.reasoning conversation.dsml).isNone &&
    [conversation.bos, conversation.eos, conversation.thinkingStart,
      conversation.thinkingEnd].all fun forbidden =>
        (findBytes view.reasoning forbidden).isNone && (findBytes view.final forbidden).isNone

def resolvePolicy (tokenizer : Tokenizer) (policy : ReasoningPolicy) : ReasoningPolicy :=
  if policy = .sourceDefault then tokenizer.conversation.defaultReasoningPolicy else policy

def splitOutput (conversation : Conversation) (policy : ReasoningPolicy) (bytes : List UInt8) :
    Except Status OutputView :=
  if policy = .disabled then .ok ⟨[], bytes⟩
  else match delimiter conversation with
    | none => .error .bounds
    | some marker =>
      match findBytes bytes marker with
      | none => .error .format
      | some place => .ok ⟨bytes.take place, bytes.drop (place + marker.length)⟩

structure ParserAnswers (γ : Type) where
  requestValid : Bool
  utf8Valid : List UInt8 → Bool
  allocates : List UInt8 → Bool
  parseCalls : List UInt8 → Except Status γ
  identified : Bool

def conversationOutputParse {γ : Type} (tokenizer : Tokenizer) (answers : ParserAnswers γ)
    (request : ReasoningPolicy) (bytes : List UInt8) : Except Status OutputView := do
  ensure (tokenizer.isSealed ∧ tokenizer.conversationAdmitted ∧ answers.utf8Valid bytes)
    .invalidArg
  ensure (resolvePolicy tokenizer request ≠ .sourceDefault) .unsupported
  let view ← splitOutput tokenizer.conversation (resolvePolicy tokenizer request) bytes
  ensure (completionSpecialValid tokenizer.conversation view) .format
  return view

structure ProviderResult (γ : Type) where
  reasoningContent : List UInt8
  content : List UInt8
  toolBlock : List UInt8
  toolCalls : Option γ

def toolStart (conversation : Conversation) : List UInt8 :=
  if conversation.xmlElements then conversation.toolInvokeStart else conversation.toolCallsStart

def parseProviderCompletion {γ : Type} (tokenizer : Tokenizer) (answers : ParserAnswers γ)
    (request : ReasoningPolicy) (bytes : List UInt8) : Except Status (ProviderResult γ) := do
  ensure (answers.requestValid ∧ answers.utf8Valid bytes) .invalidArg
  let view ← conversationOutputParse tokenizer answers request bytes
  let tool := findBytes view.final (toolStart tokenizer.conversation)
  let contentCount := tool.getD view.final.length
  let content := view.final.take contentCount
  ensure ((view.reasoning = [] ∨ answers.allocates view.reasoning) ∧
    (content = [] ∨ answers.allocates content)) .nomem
  ensure ((findBytes content tokenizer.conversation.dsml).isNone) .format
  let toolBlock := view.final.drop contentCount
  let toolCalls ← tool.mapM fun _ => answers.parseCalls toolBlock
  ensure answers.identified .state
  return ⟨view.reasoning, content, toolBlock, toolCalls⟩

def said (segment : Segment) (out : List Emission) : List UInt8 :=
  (out.filter (·.1 = segment)).flatMap Prod.snd

def accepting : List Emission → Option Status := fun _ => none

variable {d x e f bs : List UInt8} {s : Stream} {p : Pushing}

theorem emit_spec (s : Stream) (g : Segment) (bs : List UInt8) :
    ∃ out, reasoningEmit accepting s g bs = (none, { s with out := out }) ∧
      ∀ g', said g' out = said g' s.out ++ if g = g' then bs else [] := by
  unfold reasoningEmit
  split_ifs with h
  · exact ⟨s.out, rfl, by simp [h]⟩
  · refine ⟨_, rfl, fun g' => ?_⟩
    by_cases hg : g = g' <;> simp [said, hg]

structure Says (d e : List UInt8) (p : Pushing) : Prop where
  rc : p.rc = none
  ending : p.stream.reasoningEnd = d
  finished : p.stream.finished = false
  reasoning : p.stream.reasoning = true
  explicit : said .explicit p.stream.out ++ p.emitted = e
  final : said .finalText p.stream.out = []

theorem says_flush (h : Says d e p) : ∃ s, flush accepting p = ⟨s, [], none⟩ ∧
    Says d e ⟨s, [], none⟩ ∧ s.pending = p.stream.pending := by
  obtain ⟨out, he, hs⟩ := emit_spec p.stream .explicit p.emitted
  refine ⟨{ p.stream with out := out }, by rw [flush, he],
    ⟨rfl, h.ending, h.finished, h.reasoning, ?_, ?_⟩, rfl⟩
  · simpa [hs] using h.explicit
  · simpa [hs] using h.final

theorem says_shift (h : Says d e p) (l : List UInt8) :
    (shiftPending accepting p l).stream.pending = pendingOf d l ∧
      ∃ e', Says d e' (shiftPending accepting p l) ∧ e' ++ pendingOf d l = e ++ l := by
  induction l generalizing p e with
  | nil => exact ⟨rfl, e, ⟨h.rc, h.ending, h.finished, h.reasoning, h.explicit, h.final⟩, rfl⟩
  | cons b l ih =>
    rw [shiftPending, h.ending, pendingOf]
    split_ifs with hp
    · exact ⟨rfl, e, ⟨h.rc, h.ending, h.finished, h.reasoning, h.explicit, h.final⟩, rfl⟩
    have hl : Says d (e ++ [b]) { p with emitted := p.emitted ++ [b] } :=
      ⟨h.rc, h.ending, h.finished, h.reasoning, by rw [← h.explicit, append_assoc], h.final⟩
    have hf : Says d (e ++ [b]) (if (p.emitted ++ [b]).length = emitCap then
        flush accepting { p with emitted := p.emitted ++ [b] }
        else { p with emitted := p.emitted ++ [b] }) := by
      split_ifs
      · obtain ⟨s, hf, hs, -⟩ := says_flush hl
        rwa [hf]
      · exact hl
    obtain ⟨hpe, e', hs, he⟩ := ih hf
    exact ⟨hpe, e', hs, by rw [he, append_assoc, singleton_append]⟩

def Inside (d x : List UInt8) (p : Pushing) : Prop :=
  Absent d x ∧ p.stream.pending = pendingOf d x ∧ ∃ e, Says d e p ∧ e ++ pendingOf d x = x

structure Behind (e f : List UInt8) (s : Stream) : Prop where
  finished : s.finished = false
  reasoning : s.reasoning = false
  pending : s.pending = []
  explicit : said .explicit s.out = e
  final : said .finalText s.out = f

/-- Both channels hold what the first occurrence of the delimiter separates. -/
def Split (d x : List UInt8) (s : Stream) : Prop :=
  ∃ k, FirstAt d x k ∧ Behind (x.take k) (x.drop (k + d.length)) s

def Done (d x : List UInt8) (p : Pushing) : Prop :=
  p.rc = none ∧ p.emitted = [] ∧ Split d x p.stream

/-- One more byte stays inside the reasoning or completes the delimiter. -/
theorem inside_byte (h : Inside d x p) (b : UInt8) :
    Inside d (x ++ [b]) (pushByte accepting p b) ∨ Done d (x ++ [b]) (pushByte accepting p b) := by
  obtain ⟨hab, hp, e, hs, hx⟩ := h
  obtain ⟨hp', e', hs', he'⟩ := says_shift hs (p.stream.pending ++ [b])
  rw [← append_assoc, hp, hx, pendingOf_append] at he'
  rw [hp, pendingOf_append] at hp'
  rw [hp] at hs'
  unfold pushByte
  rw [hp]
  generalize shiftPending accepting p (pendingOf d x ++ [b]) = q at hp' hs'
  dsimp only
  rw [hs'.ending, hp']
  by_cases hh : d <:+ x ++ [b]
  · have hl := (pendingOf_length _).mpr hh
    have hlen := congrArg length he'
    have hq : Says d e' (if q.emitted = [] then q else flush accepting q) ∧
        (if q.emitted = [] then q else flush accepting q).emitted = [] := by
      split_ifs with hem
      · exact ⟨hs', hem⟩
      · obtain ⟨s, hf, hs, -⟩ := says_flush hs'
        exact ⟨hf ▸ hs, by rw [hf]⟩
    rw [if_pos hl]
    have hex := hq.1.explicit
    rw [hq.2, append_nil] at hex
    simp only [length_append, length_singleton, hl] at hlen
    refine .inr ⟨hq.1.rc, hq.2, _, hab.first hh, hq.1.finished, rfl, rfl, ?_, ?_⟩
    · rw [← he', take_left' (by omega)]
      exact hex
    · rw [drop_eq_nil_of_le (by rw [length_append, length_singleton]; omega)]
      exact hq.1.final
  · rw [if_neg (mt (pendingOf_length _).mp hh)]
    exact .inl ⟨fun k hk => hh (hab.suffix hk), hp', e', hs', he'⟩

/-- Where the loop stops: at the end of the bytes, or behind the delimiter. -/
theorem inside_loop (h : Inside d x p) (bs : List UInt8) :
    ∃ r, bs = r ++ (pushLoop accepting p bs).2 ∧
      (Inside d (x ++ r) (pushLoop accepting p bs).1 ∧ (pushLoop accepting p bs).2 = [] ∨
        Done d (x ++ r) (pushLoop accepting p bs).1) := by
  induction bs generalizing p x with
  | nil => exact ⟨[], rfl, .inl ⟨by rwa [append_nil], rfl⟩⟩
  | cons b bs ih =>
    obtain ⟨-, -, e, hs, -⟩ := id h
    rw [pushLoop, hs.rc, hs.reasoning]
    rcases inside_byte h b with hin | hsp
    · obtain ⟨r, hbs, hr⟩ := ih hin
      refine ⟨b :: r, ?_, by simpa [append_assoc] using hr⟩
      exact congrArg (b :: ·) hbs
    have hst : pushLoop accepting (pushByte accepting p b) bs = (pushByte accepting p b, bs) := by
      obtain ⟨-, -, k, -, hb⟩ := hsp
      cases bs with
      | nil => rfl
      | cons => simp [pushLoop, hb.reasoning]
    exact ⟨[b], by simp [hst], .inr (by simpa [hst] using hsp)⟩

theorem behind_emit (h : Behind e f s) (bs : List UInt8) :
    (reasoningEmit accepting s .finalText bs).1 = none ∧
      Behind e (f ++ bs) (reasoningEmit accepting s .finalText bs).2 := by
  obtain ⟨out, he, hs⟩ := emit_spec s .finalText bs
  rw [he]
  refine ⟨rfl, h.finished, h.reasoning, h.pending, ?_, ?_⟩
  · simpa [hs] using h.explicit
  · simp [hs, h.final]

theorem behind_push (h : Behind e f s) (bs : List UInt8) :
    (streamPush accepting s bs).1 = none ∧ Behind e (f ++ bs) (streamPush accepting s bs).2 := by
  simp only [streamPush, h.finished, h.reasoning]
  exact behind_emit h bs

theorem behind_finish (h : Behind e f s) : (streamFinish accepting s).1 = none ∧
    said .explicit (streamFinish accepting s).2.out = e ∧
      said .finalText (streamFinish accepting s).2.out = f := by
  simp only [streamFinish, h.finished, h.reasoning, h.pending, reasoningEmit]
  exact ⟨rfl, h.explicit, h.final⟩

theorem split_longer {k : ℕ} (hk : FirstAt d x k) (hd : d ≠ [])
    (h : Behind (x.take k) (x.drop (k + d.length) ++ bs) s) : Split d (x ++ bs) s := by
  have hl := hk.1.length_le
  have hpos := length_pos_of_ne_nil hd
  rw [length_drop] at hl
  rw [← drop_append_of_le_length (by omega), ← @take_append_of_le_length _ x bs _ (by omega)] at h
  exact ⟨k, hk.append hd bs, h⟩

def Separates (d x : List UInt8) (s : Stream) : Prop := Inside d x ⟨s, [], none⟩ ∨ Split d x s

theorem separates_push (h : Separates d x s) (hd : d ≠ []) (bs : List UInt8) :
    (streamPush accepting s bs).1 = none ∧ Separates d (x ++ bs) (streamPush accepting s bs).2 := by
  rcases h with h | h
  · obtain ⟨-, -, e, hs, -⟩ := id h
    have hfin : s.finished = false := hs.finished
    have hre : s.reasoning = true := hs.reasoning
    obtain ⟨read, hh, hr⟩ := inside_loop h bs
    simp only [streamPush, hfin, hre, Bool.not_true, Bool.false_eq_true, if_false]
    generalize pushLoop accepting ⟨s, [], none⟩ bs = o at hh hr
    obtain ⟨q, r⟩ := o
    dsimp only at hh hr ⊢
    rcases hr with ⟨⟨hab, hpe, e, hs, hx⟩, rfl⟩ | ⟨hrc, hem, hsp⟩
    · obtain ⟨s', hf, hs', hp'⟩ := says_flush hs
      rw [append_nil] at hh
      subst hh
      rw [hs.rc, Option.isNone_none, if_pos rfl, hf]
      exact ⟨rfl, .inl ⟨hab, hp'.trans hpe, e, hs', hx⟩⟩
    · obtain ⟨k, hk, hb⟩ := hsp
      have hf : flush accepting q = ⟨q.stream, [], none⟩ := by simp [flush, hem, reasoningEmit]
      rw [hrc, Option.isNone_none, if_pos rfl, hf, hh, ← append_assoc]
      exact (behind_emit hb r).imp_right fun h => .inr (split_longer hk hd h)
  · obtain ⟨k, hk, hb⟩ := h
    exact (behind_push hb bs).imp_right fun h => .inr (split_longer hk hd h)

theorem separates_finish (h : Separates d x s) :
    let ended := streamFinish accepting s
    (∃ k, FirstAt d x k ∧ ended.1 = none ∧ said .explicit ended.2.out = x.take k ∧
        said .finalText ended.2.out = x.drop (k + d.length)) ∨
      Absent d x ∧ ended.1 = some .format ∧ said .explicit ended.2.out = x ∧
        said .finalText ended.2.out = [] := by
  rcases h with ⟨hab, hpe, e, hs, hx⟩ | ⟨k, hk, hb⟩
  · obtain ⟨out, he, ho⟩ := emit_spec s .explicit s.pending
    have hf : s.finished = false := hs.finished
    have hre : s.reasoning = true := hs.reasoning
    have hex := hs.explicit
    simp only [append_nil] at hex
    refine .inr ⟨hab, ?_⟩
    simp only [streamFinish, hf, hre, he, if_true, Bool.false_eq_true, if_false]
    refine ⟨rfl, ?_, by simpa [ho] using hs.final⟩
    rw [ho, if_pos rfl, hex, show s.pending = _ from hpe, hx]
  · exact .inl ⟨k, hk, behind_finish hb⟩

theorem pushAll_keeps {I : List UInt8 → Stream → Prop}
    (hs : ∀ x s bs, I x s → (streamPush accepting s bs).1 = none ∧
      I (x ++ bs) (streamPush accepting s bs).2) (h : I x s) (c : List (List UInt8)) :
    (pushAll accepting s c).1 = none ∧ I (x ++ c.flatten) (pushAll accepting s c).2 := by
  induction c generalizing x s with
  | nil => exact ⟨rfl, by simpa [pushAll] using h⟩
  | cons bs r ih =>
    obtain ⟨hrc, hn⟩ := hs x s bs h
    rw [pushAll]
    generalize streamPush accepting s bs = o at hrc hn
    obtain ⟨_, s'⟩ := o
    obtain rfl := hrc
    simpa [append_assoc] using ih hn

theorem findBytes_first {m : List UInt8} {k : ℕ} (h : findBytes bs m = some k) :
    FirstAt m bs k := by
  unfold findBytes at h
  split_ifs at h
  obtain ⟨hk, -, hb⟩ := find?_range_eq_some.mp h
  exact ⟨ isPrefixOf_iff_prefix.mp hk, fun j hj hp => by
    simpa [ isPrefixOf_iff_prefix.mpr hp] using hb j hj⟩

variable {q : ReasoningPolicy} {t : Tokenizer}

theorem streamOpen_ok (h : streamOpen t q = .ok s) :
    delimiter t.conversation = some s.reasoningEnd ∧ s.reasoningEnd ≠ [] ∧
      s = ⟨s.reasoningEnd, [], q != .disabled, false, []⟩ := by
  unfold streamOpen at h
  split_ifs at h
  split at h
  · cases h
  · cases h
  · rename_i hne hd
    cases h
    exact ⟨hd, hne, rfl⟩

/-- The parser cuts the completion where it splits the output. -/
theorem parse_split {γ : Type} {a : ParserAnswers γ}
    {r : ProviderResult γ} (h : parseProviderCompletion t a q bs = .ok r) :
    splitOutput t.conversation (resolvePolicy t q) bs =
      .ok ⟨r.reasoningContent, r.content ++ r.toolBlock⟩ := by
  simp only [parseProviderCompletion, conversationOutputParse, bind_ok, ensure_ok, pure_ok] at h
  obtain ⟨-, -, v, ⟨-, -, -, -, v', hv, -, -, rfl⟩, -, -, -, -, tc, -, -, -, rfl⟩ := h
  rw [hv, take_append_drop]

/-- However the text is cut into pushes, the stream separates it where the parser does. -/
theorem reasoning_stream_agrees (tokenizer : Tokenizer) (policy : ReasoningPolicy)
    (stream : Stream) (opened : streamOpen tokenizer policy = .ok stream)
    (chunks : List (List UInt8)) :
    let text := chunks.flatten
    let pushed := pushAll accepting stream chunks
    let ended := streamFinish accepting pushed.2
    let reasoning := said .explicit ended.2.out
    let final := said .finalText ended.2.out
    pushed.1 = none ∧
    (policy ≠ .disabled →
      (∀ place, FirstAt stream.reasoningEnd text place → reasoning = text.take place ∧
        final = text.drop (place + stream.reasoningEnd.length) ∧ ended.1 = none) ∧
      (Absent stream.reasoningEnd text →
        reasoning = text ∧ final = [] ∧ ended.1 = some .format)) ∧
    ∀ (γ : Type) (answers : ParserAnswers γ) (request : ReasoningPolicy)
      (result : ProviderResult γ), resolvePolicy tokenizer request = policy →
      parseProviderCompletion tokenizer answers request text = .ok result →
      reasoning = result.reasoningContent ∧ final = result.content ++ result.toolBlock ∧
        ended.1 = none := by
  intro text pushed ended reasoning final
  obtain ⟨hdel, hd, hs⟩ := streamOpen_ok opened
  by_cases hp : policy = .disabled
  · have hst : Behind [] [] stream := by
      rw [hs, hp]
      exact ⟨rfl, rfl, rfl, rfl, rfl⟩
    obtain ⟨hrc, hb⟩ := pushAll_keeps (I := fun x s => Behind [] x s)
      (fun _ _ bs h => behind_push h bs) hst chunks
    obtain ⟨hed, hex, hfi⟩ := behind_finish hb
    refine ⟨hrc, fun h => absurd hp h, fun γ answers request result hr hok => ?_⟩
    have hsp := parse_split hok
    rw [hr, splitOutput, if_pos hp, Except.ok.injEq, OutputView.mk.injEq] at hsp
    exact ⟨hex.trans hsp.1, hfi.trans hsp.2, hed⟩
  · have hst : Separates stream.reasoningEnd [] stream := by
      refine .inl ⟨fun k hk => hd (by simpa using hk), ?_, [], ?_, rfl⟩ <;> rw [hs]
      · rfl
      · exact ⟨rfl, rfl, rfl, by simpa using hp, rfl, rfl⟩
    obtain ⟨hrc, hsep⟩ := pushAll_keeps (I := Separates stream.reasoningEnd)
      (fun _ _ bs h => separates_push h hd bs) hst chunks
    have hf : ∀ k, FirstAt stream.reasoningEnd text k → reasoning = text.take k ∧
        final = text.drop (k + stream.reasoningEnd.length) ∧ ended.1 = none := by
      intro k hk
      rcases separates_finish hsep with ⟨k', hk', hed, hex, hfi⟩ | ⟨hab, -⟩
      · obtain rfl := hk.unique hk'
        exact ⟨hex, hfi, hed⟩
      · exact absurd hk.1 (hab k)
    refine ⟨hrc, fun _ => ⟨hf, fun hab => ?_⟩, fun γ answers request result hr hok => ?_⟩
    · rcases separates_finish hsep with ⟨k, hk, -⟩ | ⟨-, hed, hex, hfi⟩
      · exact absurd hk.1 (hab k)
      · exact ⟨hex, hfi, hed⟩
    · have hsp := parse_split hok
      rw [hr, splitOutput, if_neg hp, hdel] at hsp
      dsimp only at hsp
      split at hsp
      · cases hsp
      rename_i k hk
      rw [Except.ok.injEq, OutputView.mk.injEq] at hsp
      rw [← hsp.1, ← hsp.2]
      exact hf k (findBytes_first hk)

def plainConversation : Conversation :=
  ⟨[1], [], [2, 2], [], [3], [4], [5], false, [6], [7], .enabled⟩

/-- The delimiter comes in two pushes, behind a byte that looks like its beginning. -/
theorem split_delimiter_agrees :
    let s : Stream := ⟨[2, 2], [], true, false, []⟩
    let ended := streamFinish accepting (pushAll accepting s [[8, 2, 9, 2], [2, 8]]).2
    said .explicit ended.2.out = [8, 2, 9] ∧ said .finalText ended.2.out = [8] := by
  have h := reasoning_stream_agrees ⟨true, true, true, true, true, plainConversation⟩ .enabled
    ⟨[2, 2], [], true, false, []⟩ rfl [[8, 2, 9, 2], [2, 8]]
  have hf : FirstAt ([2, 2] : List UInt8) [8, 2, 9, 2, 2, 8] 3 := by
    refine ⟨by decide, ?_⟩
    decide
  obtain ⟨hex, hfi, -⟩ := (h.2.1 (by decide)).1 3 hf
  exact ⟨hex, hfi⟩

end Yvex.ReasoningStream
