import Yvex.ResponseStream

/-!
# The grammar of the response stream

Items get consecutive output indices. The invariant names the items that were announced so
far; their indices stay valid while no tool call arrives between the announcement of the
message and its first text, and no text after a tool call that came without text.
-/

set_option autoImplicit false

namespace Yvex.ResponseStream

open AttentionData List

variable {s s' : Stream} {xs c : List Item} {tx : Bool} {fg : Fragment}

theorem itemsOf_append (k : EventKind) (a b : List Event) :
    itemsOf k (a ++ b) = itemsOf k a ++ itemsOf k b := by
  simp [itemsOf, filter_append, filterMap_append]

structure Announced (s : Stream) (items closed : List Item) : Prop where
  numbered : s.written.map Event.sequence = List.range s.written.length
  next : s.responseSequence = s.written.length
  distinct : items.Nodup
  named : ∀ event ∈ s.written, ∀ output ∈ event.output, items[output.1]? = some output.2
  added : itemsOf .outputItemAdded s.written = items
  early : ∀ before event after, s.written = before ++ event :: after →
    event.kind.delta = true → ∃ output ∈ event.output, output.2 ∈ itemsOf .outputItemAdded before
  done : itemsOf .outputItemDone s.written = closed
  running : ∀ event ∈ s.written, event.kind.ending = false

theorem Announced.of_same (han : Announced s xs c) (hw : s'.written = s.written)
    (sq : s'.responseSequence = s.responseSequence) : Announced s' xs c := by
  obtain ⟨hnm, next, hd, hn, a, her, done, hr⟩ := han
  refine ⟨?_, ?_, hd, ?_, ?_, ?_, ?_, ?_⟩
  all_goals rw [hw]
  all_goals first | assumption | exact sq.trans next

theorem split_snoc {α : Type} {front b a : List α} {l x : α} (hsp : front ++ [l] = b ++ x :: a) :
    (b = front ∧ x = l ∧ a = []) ∨ ∃ rs, a = rs ++ [l] ∧ front = b ++ x :: rs := by
  rcases eq_nil_or_concat a with rfl | ⟨rs, y, rfl⟩
  · obtain ⟨rfl, hs⟩ := append_inj' hsp rfl
    exact .inl ⟨rfl, (cons.inj hs).1.symm, rfl⟩
  have hr : front ++ [l] = (b ++ x :: rs) ++ [y] := by
    rw [hsp]
    simp
  obtain ⟨rfl, hs⟩ := append_inj' hr rfl
  exact .inr ⟨rs, by rw [(cons.inj hs).1]; simp, rfl⟩

def nextEvent (s : Stream) (kind : EventKind) (index : ℕ) : Event :=
  ⟨kind, s.responseSequence,
    if kind.namesItem then some (index, responseItem s.result index) else none⟩

theorem emit_written (k : EventKind) (j : ℕ) :
    (s.emit k j).written = s.written ++ [nextEvent s k j] := rfl

theorem emit_result (kd : EventKind) (j : ℕ) : (s.emit kd j).result = s.result := rfl

theorem itemsOf_next {w k : EventKind} {j : ℕ} (hn : w.namesItem = true) :
    itemsOf w [nextEvent s k j] =
      if k = w then [responseItem s.result j] else [] := by
  by_cases hs : k = w
  · subst hs
    simp [itemsOf, nextEvent, hn]
  · simp [itemsOf, nextEvent, hs]

theorem Announced.named_append (han : Announced s xs c) (m : List Item)
    {e : Event} (hm : e ∈ s.written) {o : ℕ × Item}
    (ho : o ∈ e.output) : (xs ++ m)[o.1]? = some o.2 := by
  have hf := han.named e hm o ho
  rw [List.getElem?_append_left (List.getElem?_eq_some_iff.mp hf).1]
  exact hf

theorem Announced.numbered_next (han : Announced s xs c) (k : EventKind)
    (j : ℕ) : (s.emit k j).written.map Event.sequence = List.range (s.emit k j).written.length := by
  rw [emit_written, map_append, han.numbered, length_append,
    length_singleton, range_succ, ← han.next]
  rfl

/-- One more event. What it adds to the items and to the closed ones depends on its kind. -/
theorem Announced.emit (ha : Announced s xs c) (k : EventKind) (j : ℕ) (m shut : List Item)
    (hmr : m = if k = .outputItemAdded then [responseItem s.result j] else [])
    (hs : shut = if k = .outputItemDone then [responseItem s.result j] else [])
    (hq : k.ending = false) (hfr : (xs ++ m).Nodup)
    (hn : k.namesItem = true → (xs ++ m)[j]? = some (responseItem s.result j)) :
    Announced (s.emit k j) (xs ++ m) (c ++ shut) where
  numbered := ha.numbered_next k j
  next := by
    rw [emit_written, length_append, length_singleton, ← ha.next]
    rfl
  distinct := hfr
  named := by
    intro e hm ou o
    rw [emit_written, mem_append, mem_singleton] at hm
    rcases hm with ho | rfl
    · exact ha.named_append m ho o
    by_cases it : k.namesItem = true
    · simp only [nextEvent, it, if_true, Option.mem_def, Option.some.injEq] at o
      subst o
      exact hn it
    · simp [nextEvent, it] at o
  added := by rw [emit_written, itemsOf_append, ha.added, itemsOf_next rfl, hmr]
  early := by
    intro b e a hsp d
    rw [emit_written] at hsp
    rcases split_snoc hsp with ⟨rfl, rfl, rfl⟩ | ⟨rs, -, ho⟩
    · have it : k.namesItem = true ∧ k ≠ .outputItemAdded := by
        cases k <;> simp_all [nextEvent, EventKind.delta, EventKind.namesItem]
      have hf := hn it.1
      rw [hmr, if_neg it.2, append_nil] at hf
      refine ⟨(j, responseItem s.result j), by simp [nextEvent, it.1], ?_⟩
      rw [ha.added]
      exact mem_of_getElem? hf
    · exact ha.early b e rs ho d
  done := by rw [emit_written, itemsOf_append, ha.done, itemsOf_next rfl, hs]
  running := by
    intro e hm
    rw [emit_written, mem_append, mem_singleton] at hm
    rcases hm with ho | rfl
    · exact ha.running e ho
    · exact hq

variable {kd : EventKind}

theorem Announced.plain (han : Announced s xs c) (hn : kd.namesItem = false)
    (hq : kd.ending = false) (j : ℕ) :
    Announced (s.emit kd j) xs c := by
  have m : kd ≠ .outputItemAdded ∧ kd ≠ .outputItemDone := by
    constructor <;> rintro rfl <;> cases hn
  have em := han.emit kd j [] [] (by simp [m]) (by simp [m]) hq
    (by simpa using han.distinct) (by simp [hn])
  simpa using em

variable {j : ℕ}

theorem Announced.add (han : Announced s xs c) (hbh : j = xs.length)
    (hfr : responseItem s.result j ∉ xs) :
    Announced (s.emit .outputItemAdded j) (xs ++ [responseItem s.result j]) c := by
  have em := han.emit .outputItemAdded j [responseItem s.result j] [] rfl rfl rfl (by
      rw [nodup_append]
      refine ⟨han.distinct, nodup_singleton _, ?_⟩
      rintro a old b new rfl
      exact hfr (mem_singleton.mp new ▸ old))
    (fun _ => by simp [hbh])
  simpa using em

theorem Announced.item (han : Announced s xs c)
    (ho : kd ≠ .outputItemAdded ∧ kd ≠ .outputItemDone) (hq : kd.ending = false)
    (hf : xs[j]? = some (responseItem s.result j)) :
    Announced (s.emit kd j) xs c := by
  have em := han.emit kd j [] [] (by simp [ho]) (by simp [ho]) hq
    (by simpa using han.distinct) (fun _ => by simpa using hf)
  simpa using em

theorem Announced.close (han : Announced s xs c) (hf : xs[j]? = some (responseItem s.result j)) :
    Announced (s.emit .outputItemDone j) xs (c ++ [responseItem s.result j]) := by
  have em := han.emit .outputItemDone j [] [responseItem s.result j] rfl rfl rfl
    (by simpa using han.distinct) (fun _ => by simpa using hf)
  simpa using em

def toolItems (result : GenerationResult) : List Item :=
  result.toolCalls.map fun call => .call call.callId

variable {r : GenerationResult}

theorem responseItem_tool {k : ℕ} (hi : k < r.toolCalls.length) :
    (toolItems r)[k]? = some (responseItem r (firstTool r + k)) := by
  simp [toolItems, responseItem, hi]

theorem responseItem_message (h1 : r.textCount ≠ 0 ∨ r.toolCalls = []) :
    responseItem r 0 = .message := by
  rcases h1 with hs | hal
  · simp [responseItem, firstTool, hs]
  · simp [responseItem, hal]

structure Shaped (result : GenerationResult) (items : List Item) (textual : Bool) : Prop where
  items : items = (if textual then [Item.message] else []) ++ toolItems result
  text : textual = true → result.textCount ≠ 0 ∨ result.toolCalls = []
  silent : textual = false → result.textCount = 0

variable {r : GenerationResult}

/-- A tool call has its place behind the message, once text was seen or none was announced. -/
theorem Shaped.tool (hs : Shaped r xs tx) (hsp : tx = true → r.textCount ≠ 0) (k : ℕ) :
    xs[firstTool r + k]? = (toolItems r)[k]? := by
  rw [hs.items]
  cases tx with
  | true => simp [firstTool, hsp rfl, Nat.add_comm 1 k]
  | false => simp [firstTool, hs.silent rfl]

theorem Shaped.spoken (hs : Shaped r xs tx) (some : r.toolCalls ≠ []) :
    tx = true → r.textCount ≠ 0 :=
  fun han => (hs.text han).resolve_right some

theorem Shaped.length (hs : Shaped r xs tx) (hsp : tx = true → r.textCount ≠ 0) :
    xs.length = firstTool r + r.toolCalls.length := by
  rw [hs.items]
  cases tx with
  | true => simp [firstTool, hsp rfl, toolItems]; omega
  | false => simp [firstTool, hs.silent rfl, toolItems]

theorem Shaped.message (hs : Shaped r xs true) : xs[0]? = some .message := by
  rw [hs.items]
  rfl

def Fragment.isText (fragment : Fragment) : Bool :=
  fragment.outputKind != .functionCall && fragment.outputKind != .explicitReasoning

theorem resultAppend_ok {m a next : ℕ} (ok : resultAppend m a = .ok next) : next = m + a := by
  unfold resultAppend at ok
  split_ifs at ok
  exact (Except.ok.inj ok).symm

def Masked (s : Stream) (items : List Item) : Prop :=
  ∀ i, s.responseItemMask.testBit i = decide (i < items.length)

theorem announce_result (j : ℕ) (c : Bool) : (s.announce j c).result = s.result := by
  unfold Stream.announce
  split_ifs <;> rfl

theorem announce_headersSent (j : ℕ) (c : Bool) : (s.announce j c).headersSent = s.headersSent := by
  unfold Stream.announce
  split_ifs <;> rfl

theorem known_step (han : Announced s xs []) (hm : Masked s xs)
    (hf : xs[j]? = some (responseItem s.result j)) (k : EventKind)
    (d : k.delta = true) (c : Bool) :
    Announced ((s.announce j c).emit k j) xs [] ∧ Masked ((s.announce j c).emit k j) xs := by
  have bit : s.responseItemMask.testBit j = true := by
    rw [hm, decide_eq_true (List.getElem?_eq_some_iff.mp hf).1]
  rw [Stream.announce, if_pos bit]
  refine ⟨han.item ?_ ?_ hf, hm⟩
  · constructor <;> rintro rfl <;> cases d
  · cases k <;> first | rfl | cases d

theorem new_step (han : Announced s xs []) (hm : Masked s xs) {it : Item}
    (hi : responseItem s.result xs.length = it) (hfr : it ∉ xs) (k : EventKind)
    (d : k.delta = true) (c : Bool) :
    Announced ((s.announce xs.length c).emit k xs.length) (xs ++ [it]) [] ∧
      Masked ((s.announce xs.length c).emit k xs.length) (xs ++ [it]) := by
  have hu : s.responseItemMask.testBit xs.length = false := by simp [hm xs.length]
  have l : (xs ++ [it])[xs.length]? = some (responseItem s.result xs.length) := by
    rw [hi, getElem?_concat_length]
  have a : Announced (s.emit .outputItemAdded xs.length) (xs ++ [it]) [] := by
    rw [← hi] at hfr ⊢
    exact han.add rfl hfr
  have hop : Announced (s.announce xs.length c) (xs ++ [it]) [] := by
    rw [Stream.announce, if_neg (by simp [hu])]
    cases c with
    | true => exact a.of_same rfl rfl
    | false => exact Announced.of_same (a.item ⟨by decide, by decide⟩ rfl l) rfl rfl
  refine ⟨hop.item ?_ ?_ ?_, fun i => ?_⟩
  · constructor <;> rintro rfl <;> cases d
  · cases k <;> first | rfl | cases d
  · rw [announce_result]
    exact l
  · rw [Stream.announce, if_neg (by simp [hu])]
    change (s.responseItemMask ||| 1 <<< xs.length).testBit i = _
    rw [Nat.testBit_or, hm, Nat.one_shiftLeft, Nat.testBit_two_pow, ← Bool.decide_or,
      decide_eq_decide, length_append, length_singleton]
    omega

theorem text_step (han : Announced s xs []) (hm : Masked s xs) (hs : Shaped s.result xs tx)
    (all : tx = true ∨ s.result.toolCalls = []) (ad : ℕ) :
    let next := { s.result with textCount := s.result.textCount + ad }
    let af := ({ s with result := next }.announce 0 false).emit .outputTextDelta 0
    ∃ xs', Announced af xs' [] ∧ Masked af xs' ∧ Shaped next xs' true := by
  intro next af
  have ha : Announced { s with result := next } xs [] := han.of_same rfl rfl
  cases tx with
  | true =>
    have h1 : next.textCount ≠ 0 ∨ next.toolCalls = [] := by
      rcases hs.text rfl with hsp | hh
      · exact .inl (by simp [next]; omega)
      · exact .inr hh
    have hf : xs[0]? = some (responseItem next 0) := by
      rw [responseItem_message h1]
      exact hs.message
    obtain ⟨a, m⟩ := known_step ha hm hf .outputTextDelta rfl false
    exact ⟨xs, a, m, hs.items, fun _ => h1, nofun⟩
  | false =>
    have hh : s.result.toolCalls = [] := all.resolve_left (by simp)
    have none : xs = [] := by
      rw [hs.items, toolItems, hh]
      rfl
    subst none
    have it : responseItem next 0 = .message := responseItem_message (.inr hh)
    obtain ⟨a, m⟩ := new_step ha hm it (by simp) .outputTextDelta rfl false
    refine ⟨[.message], a, m, ?_, fun _ => .inr hh, nofun⟩
    simp [toolItems, next, hh]

theorem generationToolCall_ok {t : ℕ} (ok : generationToolCall s.result fg = .ok (r, t)) :
    r.textCount = s.result.textCount ∧
      ((t < s.result.toolCalls.length ∧ toolItems r = toolItems s.result) ∨
        (t = s.result.toolCalls.length ∧ Item.call fg.toolCallId ∉ toolItems s.result ∧
          toolItems r = toolItems s.result ++ [.call fg.toolCallId])) := by
  unfold generationToolCall at ok
  split at ok
  · cases ok
  split at ok
  · rename_i hf
    split_ifs at ok
    obtain ⟨rfl, rfl⟩ := Prod.mk.inj (Except.ok.inj ok)
    exact ⟨rfl, .inl ⟨(findIdx?_eq_some_iff_getElem.mp hf).1, rfl⟩⟩
  rename_i hu
  split_ifs at ok
  obtain ⟨rfl, rfl⟩ := Prod.mk.inj (Except.ok.inj ok)
  refine ⟨rfl, .inr ⟨rfl, ?_, by simp [toolItems]⟩⟩
  intro hm
  obtain ⟨c, hi, hs⟩ := mem_map.mp hm
  simp_all

theorem appendArguments_ok {next : GenerationResult} {t a : ℕ}
    (ok : appendArguments r t a = .ok next) :
    next.textCount = r.textCount ∧ toolItems next = toolItems r := by
  unfold appendArguments at ok
  cases m : resultAppend ((r.toolCalls[t]?.map ToolCall.argumentsCount).getD 0) a with
  | error => simp [m, Except.map] at ok
  | ok =>
    simp only [m, Except.map, Except.ok.injEq] at ok
    subst ok
    refine ⟨rfl, ?_⟩
    apply ext_getElem?
    intro k
    simp only [toolItems, getElem?_map, getElem?_modify]
    cases r.toolCalls[k]? with
    | none => rfl
    | some => by_cases hh : t = k <;> simp [hh]

theorem toolItems_length (r : GenerationResult) : (toolItems r).length = r.toolCalls.length := by
  simp [toolItems]

theorem tool_step (han : Announced s xs []) (hm : Masked s xs)
    (hsh : Shaped s.result xs tx) (allowed : tx = true → s.result.textCount ≠ 0)
    {next : GenerationResult} {tl ad : ℕ}
    (hc : generationToolCall s.result fg = .ok (r, tl))
    (hap : appendArguments r tl ad = .ok next) :
    let after := ({ s with result := next }.announce (firstTool next + tl) true).emit
      .functionArgumentsDelta (firstTool next + tl)
    ∃ xs', Announced after xs' [] ∧ Masked after xs' ∧ Shaped next xs' tx := by
  obtain ⟨te, ca⟩ := generationToolCall_ok hc
  obtain ⟨textNext, hs⟩ := appendArguments_ok hap
  have m : next.textCount = s.result.textCount := textNext.trans te
  have h1 : firstTool next = firstTool s.result := by simp [firstTool, m]
  have ha : Announced { s with result := next } xs [] := han.of_same rfl rfl
  have hsp (han : tx = true) : next.textCount ≠ 0 ∨ next.toolCalls = [] :=
    .inl (by rw [m]; exact allowed han)
  have hsi (unspoken : tx = false) : next.textCount = 0 := m.trans (hsh.silent unspoken)
  rcases ca with ⟨hkn, hk⟩ | ⟨hbh, hfr, hg⟩
  · -- A known call keeps its index.
    have t : toolItems next = toolItems s.result := hs.trans hk
    have lengths : next.toolCalls.length = s.result.toolCalls.length := by
      rw [← toolItems_length, t, toolItems_length]
    have hf : xs[firstTool next + tl]? = some (responseItem next (firstTool next + tl)) := by
      rw [← responseItem_tool (show tl < next.toolCalls.length by omega), t, h1, hsh.tool allowed]
    obtain ⟨a, ma⟩ := known_step ha hm hf .functionArgumentsDelta rfl true
    exact ⟨xs, a, ma, t ▸ hsh.items, hsp, hsi⟩
  · have t : toolItems next = toolItems s.result ++ [.call fg.toolCallId] := hs.trans hg
    have lengths : next.toolCalls.length = s.result.toolCalls.length + 1 := by
      rw [← toolItems_length, t, length_append, toolItems_length]
      rfl
    have last : firstTool next + tl = xs.length := by rw [h1, hbh, hsh.length allowed]
    have it : responseItem next xs.length = .call fg.toolCallId := by
      have hf := responseItem_tool (show tl < next.toolCalls.length by omega)
      rw [t, hbh, ← toolItems_length, getElem?_concat_length, toolItems_length, ← hbh, last] at hf
      exact (Option.some.inj hf).symm
    have hmi : Item.call fg.toolCallId ∉ xs := by
      rw [hsh.items]
      simp [hfr]
    obtain ⟨a, ma⟩ := new_step ha hm it hmi .functionArgumentsDelta rfl true
    rw [last]
    refine ⟨_, a, ma, ?_, hsp, hsi⟩
    rw [t, ← append_assoc, ← hsh.items]

theorem map_ok {α β : Type} {f : α → β} {x : Except Refusal α} {y : β} (ok : x.map f = .ok y) :
    ∃ a, x = .ok a ∧ f a = y := by
  cases x with
  | error => cases ok
  | ok a => exact ⟨a, rfl, Except.ok.inj ok⟩

theorem generationFragment_text (text : fg.isText = true) : generationFragment s fg =
      (resultAppend s.result.textCount fg.byteCount).map fun m =>
        ({ s with result := { s.result with textCount := m } }.announce 0 false).emit
          .outputTextDelta 0 := by
  unfold generationFragment
  split
  · simp_all [Fragment.isText]
  · simp_all [Fragment.isText]
  · rfl

/-- A fragment is announced before it is written, and its item only once. -/
theorem fragment_step (han : Announced s xs []) (hm : Masked s xs) (hs : Shaped s.result xs tx)
    (text : fg.isText = true → tx = true ∨ s.result.toolCalls = [])
    (tool : fg.outputKind = .functionCall → tx = true → s.result.textCount ≠ 0)
    (ok : generationFragment s fg = .ok s') :
    ∃ xs', Announced s' xs' [] ∧ Masked s' xs' ∧
      Shaped s'.result xs' (tx || fg.isText) ∧ s'.headersSent = s.headersSent ∧
      s'.result.textCount = s.result.textCount + (if fg.isText then fg.byteCount else 0) ∧
      (fg.outputKind ≠ .functionCall → s'.result.toolCalls = s.result.toolCalls) := by
  by_cases ht : fg.isText = true
  · rw [generationFragment_text ht] at ok
    obtain ⟨m, hap, rfl⟩ := map_ok ok
    obtain rfl := resultAppend_ok hap
    obtain ⟨xs', a, ma, shaped'⟩ := text_step han hm hs (text ht) fg.byteCount
    rw [ht, Bool.or_true, if_pos rfl]
    simp only [emit_result, announce_result]
    exact ⟨xs', a, ma, shaped', announce_headersSent 0 false, trivial, fun _ => trivial⟩
  have unspoken : (tx || fg.isText) = tx := by simp [ht]
  rw [if_neg ht, unspoken, Nat.add_zero]
  unfold generationFragment at ok
  split at ok
  · rename_i hc
    split at ok
    · cases ok
    rename_i hf
    obtain ⟨next, hap, rfl⟩ := map_ok ok
    obtain ⟨xs', a, ma, shaped'⟩ := tool_step han hm hs (tool hc) hf hap
    simp only [emit_result, announce_result]
    exact ⟨xs', a, ma, shaped', announce_headersSent _ true,
      (appendArguments_ok hap).1.trans (generationToolCall_ok hf).1,
      fun ho => absurd hc ho⟩
  · obtain ⟨m, -, rfl⟩ := map_ok ok
    have ha : Announced { s with result := { s.result with reasoningCount := m } }
        xs [] := han.of_same rfl rfl
    exact ⟨xs, ha.plain rfl rfl 0, hm, ⟨hs.items, hs.text, hs.silent⟩, rfl, rfl, fun _ => rfl⟩
  · rename_i uncalled unreasoned
    exact absurd (by simpa [Fragment.isText] using ⟨uncalled, unreasoned⟩) ht

def TextFirst (messages : List Message) : Prop :=
  -- Text and tool calls only mix when some text comes before the first tool call.
  ∀ before fragment after, messages = before ++ .fragment fragment :: after →
    fragment.outputKind = .functionCall →
      (∃ text, .fragment text ∈ before ∧ text.isText = true ∧ 0 < text.byteCount) ∨
        ∀ text, .fragment text ∈ messages → text.isText = false

structure Heard (earlier : List Message) (s : Stream) (textual : Bool) : Prop where
  texts : textual = true ↔ ∃ text, .fragment text ∈ earlier ∧ text.isText = true
  spoken : ∀ text, .fragment text ∈ earlier → text.isText = true → 0 < text.byteCount →
    s.result.textCount ≠ 0
  calls : s.result.toolCalls ≠ [] →
    ∃ call, .fragment call ∈ earlier ∧ call.outputKind = .functionCall

section Hearing

variable {e rs : List Message}

theorem Heard.text_allowed (hh : Heard e s tx)
    (h1 : TextFirst (e ++ .fragment fg :: rs)) (text : fg.isText = true) :
    tx = true ∨ s.result.toolCalls = [] := by
  by_contra neither
  push Not at neither
  obtain ⟨c, hm, hc⟩ := hh.calls neither.2
  obtain ⟨b, a, rfl⟩ := append_of_mem hm
  rcases h1 b c (a ++ .fragment fg :: rs) (by simp) hc with
    ⟨hsp, hi, ht, -⟩ | none
  · exact neither.1 (hh.texts.mpr ⟨hsp, by simp [hi], ht⟩)
  · have hs := none fg (by simp)
    rw [text] at hs
    cases hs

theorem Heard.tool_allowed (hh : Heard e s tx) (h1 : TextFirst (e ++ .fragment fg :: rs))
    (hc : fg.outputKind = .functionCall) (han : tx = true) :
    s.result.textCount ≠ 0 := by
  rcases h1 e fg rs rfl hc with ⟨t, hi, ht, some⟩ | none
  · exact hh.spoken t hi ht some
  obtain ⟨t, hi, ht⟩ := hh.texts.mp han
  have hs := none t (by simp [hi])
  rw [ht] at hs
  cases hs

theorem Heard.hear (hh : Heard e s tx)
    (m : s'.result.textCount = s.result.textCount + (if fg.isText then fg.byteCount else 0))
    (cl : fg.outputKind ≠ .functionCall → s'.result.toolCalls = s.result.toolCalls) :
    Heard (e ++ [.fragment fg]) s' (tx || fg.isText) where
  texts := by
    rw [Bool.or_eq_true, hh.texts]
    constructor
    · rintro (⟨t, hi, ht⟩ | ht)
      · exact ⟨t, by simp [hi], ht⟩
      · exact ⟨fg, by simp, ht⟩
    · rintro ⟨t, hi, ht⟩
      rcases mem_append.mp hi with old | hn
      · exact .inl ⟨t, old, ht⟩
      · simp only [mem_singleton, Message.fragment.injEq] at hn
        exact .inr (hn ▸ ht)
  spoken := by
    intro t hi ht some
    rcases mem_append.mp hi with old | hn
    · have b := hh.spoken t old ht some
      omega
    simp only [mem_singleton, Message.fragment.injEq] at hn
    subst hn
    rw [if_pos ht] at m
    omega
  calls := by
    intro hne
    by_cases hc : fg.outputKind = .functionCall
    · exact ⟨fg, by simp, hc⟩
    · rw [cl hc] at hne
      obtain ⟨c, hi, kd⟩ := hh.calls hne
      exact ⟨c, by simp [hi], kd⟩

theorem Heard.skip (hh : Heard e s tx) {msg : Message}
    (hsi : ∀ fg, msg ≠ .fragment fg) (r : s'.result = s.result) :
    Heard (e ++ [msg]) s' tx := by
  have hs (fg : Fragment) : .fragment fg ∈ e ++ [msg] ↔ .fragment fg ∈ e := by
    simp [(hsi fg).symm]
  obtain ⟨t, hsp, ca⟩ := hh
  exact ⟨by simp only [hs]; exact t, by simp only [hs, r]; exact hsp,
    by simp only [hs, r]; exact ca⟩

/-- The messages of a turn in a valid order leave every announced item at its index. -/
theorem execute_announced (ha : Announced s xs []) (hm : Masked s xs)
    (hs : Shaped s.result xs tx) (hh : Heard e s tx)
    (h1 : TextFirst (e ++ rs)) :
    let after := (generationExecute s rs).1
    ∃ xs' tx', Announced after xs' [] ∧ Masked after xs' ∧ Shaped after.result xs' tx' ∧
      (s.headersSent = true → after.headersSent = true) := by
  induction rs generalizing s xs tx e with
  | nil => exact ⟨xs, tx, ha, hm, hs, id⟩
  | cons msg rs ih =>
    have hr : TextFirst ((e ++ [msg]) ++ rs) := by simpa using h1
    cases msg with
    | error => exact ⟨xs, tx, ha, hm, hs, id⟩
    | other => exact ih ha hm hs (hh.skip (by simp) rfl) hr
    | turnComplete => exact ⟨xs, tx, ha.of_same rfl rfl, hm, ⟨hs.items, hs.text, hs.silent⟩, id⟩
    | turnStarted =>
      rw [generationExecute]
      split_ifs with sent
      · exact ih ha hm hs (hh.skip (by simp) rfl) hr
      have hb : Announced { s with headersSent := true } xs [] := ha.of_same rfl rfl
      have hc : Announced ({ s with headersSent := true }.emit .created 0) xs [] :=
        hb.plain rfl rfl 0
      obtain ⟨xs', tx', hl, ma, hpl, h⟩ := ih hc hm hs (hh.skip (by simp) rfl) hr
      exact ⟨xs', tx', hl, ma, hpl, fun _ => h rfl⟩
    | fragment fg =>
      rw [generationExecute]
      split
      · exact ⟨xs, tx, ha, hm, hs, id⟩
      rename_i ok
      obtain ⟨xs', a, ma, hs', h, m, ca⟩ := fragment_step
        ha hm hs (hh.text_allowed h1) (hh.tool_allowed h1) ok
      obtain ⟨hf, tx', hl⟩ := ih a ma hs' (hh.hear m ca) hr
      rw [h] at hl
      exact ⟨hf, tx', hl⟩

end Hearing

/-- A last event makes what was written a grammatical stream. -/
theorem Announced.ended (ha : Announced s xs c) (he : kd.ending = true)
    (j : ℕ) : Grammar (s.emit kd j).written := by
  have it : kd.namesItem = false := by cases kd <;> first | rfl | cases he
  have hst : kd.delta = false := by cases kd <;> first | rfl | cases he
  have ot : kd ≠ .outputItemAdded := by rintro rfl; cases he
  have last : (nextEvent s kd j).output = none := by simp [nextEvent, it]
  have ad : itemsOf .outputItemAdded (s.emit kd j).written = xs := by
    rw [emit_written, itemsOf_append, ha.added, itemsOf_next rfl, if_neg ot, append_nil]
  have hn : ∀ e ∈ (s.emit kd j).written, ∀ ou ∈ e.output, xs[ou.1]? = some ou.2 := by
    intro e hm ou o
    rw [emit_written, mem_append, mem_singleton] at hm
    rcases hm with old | rfl
    · exact ha.named e old ou o
    · rw [last] at o
      cases o
  refine ⟨ha.numbered_next kd j, ?_, ?_, ?_, s.written, _, rfl, he, ha.running⟩
  · intro e hm ou o
    rw [ad]
    exact count_eq_one_of_mem ha.distinct (mem_of_getElem? (hn e hm ou o))
  · intro be e af split d
    rcases split_snoc split with ⟨-, rfl, -⟩ | ⟨rs, -, old⟩
    · rw [hst] at d
      cases d
    · exact ha.early be e rs old d
  · intro first hm se hm' a oa b ob
    have f := hn first hm a oa
    have found := hn se hm' b ob
    constructor
    · intro hs
      rw [hs, found] at f
      exact (Option.some.inj f).symm
    · intro hs
      rw [hs, ← found] at f
      exact (List.getElem?_inj (List.getElem?_eq_some_iff.mp (f.trans found)).1 ha.distinct).mp f

theorem Announced.all_closed (han : Announced s xs xs) (hen : kd.ending = true)
    (j : ℕ) : AllClosed (s.emit kd j).written := by
  have ho : kd ≠ .outputItemAdded ∧ kd ≠ .outputItemDone := by
    constructor <;> rintro rfl <;> cases hen
  intro it hm
  rw [emit_written, itemsOf_append, itemsOf_next rfl, if_neg ho.1, append_nil, han.added] at hm
  rw [emit_written, itemsOf_append, itemsOf_next rfl, if_neg ho.2, append_nil, han.done]
  exact count_eq_one_of_mem han.distinct hm

theorem closeText_closed (han : Announced s xs c) (msg : xs[0]? = some (responseItem s.result 0)) :
    Announced s.closeText xs (c ++ [responseItem s.result 0]) := by
  have done : Announced (s.emit .outputTextDone 0) xs c := han.item ⟨by decide, by decide⟩ rfl msg
  have p : Announced ((s.emit .outputTextDone 0).emit .contentPartDone 0) xs c :=
    done.item ⟨by decide, by decide⟩ rfl msg
  exact p.close msg

theorem closeTools_closed (han : Announced s xs c) (m : ℕ) (hi : m ≤ s.result.toolCalls.length)
    (hpl : ∀ k < s.result.toolCalls.length,
      xs[firstTool s.result + k]? = some (responseItem s.result (firstTool s.result + k))) :
    let after := (range m).foldl Stream.closeTool s
    Announced after xs (c ++ (toolItems s.result).take m) ∧ after.result = s.result := by
  induction m with
  | zero => exact ⟨by simpa using han, rfl⟩
  | succ m ih =>
    obtain ⟨hl, hs⟩ := ih (by omega)
    simp only [range_succ, foldl_append, foldl_cons, foldl_nil]
    generalize (range m).foldl Stream.closeTool s = t at hl hs
    have hf := hpl m (by omega)
    rw [← hs] at hf
    have done : Announced (t.emit .functionArgumentsDone (firstTool t.result + m)) xs
        (c ++ (toolItems s.result).take m) :=
      hl.item ⟨by decide, by decide⟩ rfl hf
    have shut := done.close hf
    refine ⟨?_, hs⟩
    have it := responseItem_tool (show m < s.result.toolCalls.length by omega)
    have v : responseItem s.result (firstTool s.result + m) =
        responseItem t.result (firstTool t.result + m) := by rw [hs]
    rw [take_add_one, it, v, ← append_assoc]
    exact shut

theorem text_closed (han : Announced s xs []) (hs : Shaped s.result xs tx)
    (some : tx = true ∨ s.result.toolCalls ≠ []) :
    let a := if s.result.textCount ≠ 0 ∨ s.result.toolCalls = [] then s.closeText else s
    Announced a xs (if tx then [.message] else []) ∧ a.result = s.result := by
  intro a
  cases tx with
  | true =>
    have h1 := hs.text rfl
    have it := responseItem_message h1
    have hsh := closeText_closed han (by rw [it]; exact hs.message)
    rw [it] at hsh
    simp only [a, if_pos h1]
    exact ⟨hsh, rfl⟩
  | false =>
    have hsi : ¬(s.result.textCount ≠ 0 ∨ s.result.toolCalls = []) := by
      simpa [hs.silent rfl] using some
    simp only [a, if_neg hsi]
    exact ⟨han, trivial⟩

theorem terminal_closed (han : Announced s xs []) (hs : Shaped s.result xs tx)
    (some : tx = true ∨ s.result.toolCalls ≠ []) :
    Grammar (responseTerminalEmit s).written ∧ AllClosed (responseTerminalEmit s).written := by
  have hr : ∃ t, (if s.result.reasoningCount = 0 then s else s.emit .reasoningDone 0) = t ∧
      Announced t xs [] ∧ t.result = s.result := by
    split_ifs
    · exact ⟨_, rfl, han, rfl⟩
    · exact ⟨_, rfl, han.plain rfl rfl 0, rfl⟩
  obtain ⟨t, isT, ha, rt⟩ := hr
  rw [← rt] at some hs
  obtain ⟨te, ru⟩ := text_closed ha hs some
  unfold responseTerminalEmit
  rw [isT]
  dsimp only
  generalize (if t.result.textCount ≠ 0 ∨ t.result.toolCalls = [] then t.closeText else t) = u
    at te ru
  have hpl : ∀ k < u.result.toolCalls.length, xs[firstTool u.result + k]? =
      Option.some (responseItem u.result (firstTool u.result + k)) := by
    rw [ru]
    intro k hi
    have hne : t.result.toolCalls ≠ [] := by
      rintro none
      simp [none] at hi
    rw [hs.tool (hs.spoken hne), responseItem_tool hi]
  obtain ⟨ts, -⟩ := closeTools_closed te u.result.toolCalls.length le_rfl hpl
  rw [← toolItems_length, take_length, ru, ← hs.items] at ts
  have hen : ∀ v : Stream,
      (if v.result.finish = .length then EventKind.incomplete else .completed).ending = true := by
    intro v
    split_ifs <;> rfl
  rw [toolItems_length] at ts
  rw [← ru] at ts
  exact ⟨ts.ended (hen _) 0, ts.all_closed (hen _) 0⟩

theorem complete_closed (han : Announced s xs []) (hm : Masked s xs) (hs : Shaped s.result xs tx) :
    Grammar (responseStreamComplete s).written ∧ AllClosed (responseStreamComplete s).written := by
  unfold responseStreamComplete
  split_ifs with he
  · -- Nothing was announced: the empty message is added before it is closed.
    have none : xs = [] := by
      have hz := hm 0
      rw [he.1, Nat.zero_testBit] at hz
      simpa using hz.symm
    subst none
    have it : responseItem s.result 0 = .message := responseItem_message (.inr he.2)
    have a : Announced (s.emit .outputItemAdded 0) ([] ++ [responseItem s.result 0]) [] :=
      han.add rfl (by simp)
    rw [it, nil_append] at a
    have p : Announced ((s.emit .outputItemAdded 0).emit .contentPartAdded 0) [.message] [] :=
      a.item ⟨by decide, by decide⟩ rfl (congrArg some it.symm)
    have hs' : Shaped s.result [.message] true :=
      ⟨by simp [toolItems, he.2], fun _ => .inr he.2, nofun⟩
    exact terminal_closed (p.of_same rfl rfl) hs' (.inl rfl)
  · refine terminal_closed han hs ?_
    by_contra neither
    push Not at neither
    have hno : xs = [] := by
      rw [hs.items]
      simpa [toolItems] using neither
    refine he ⟨Nat.eq_of_testBit_eq fun i => ?_, neither.2⟩
    simp [hm i, hno]

/-- The events of a turn whose text comes before its tool calls. -/
theorem response_stream_grammar (messages : List Message) (retained : Bool)
    (first : TextFirst (.turnStarted :: messages)) :
    Grammar (handleGeneration (.turnStarted :: messages) retained) ∧
      ((∃ event ∈ handleGeneration (.turnStarted :: messages) retained, event.kind = .failed) ∨
        AllClosed (handleGeneration (.turnStarted :: messages) retained)) := by
  have empty : Announced { emptyStream with headersSent := true } [] [] :=
    ⟨rfl, rfl, nodup_nil, by simp [emptyStream], rfl, by simp [emptyStream], rfl,
      by simp [emptyStream]⟩
  have created : Announced ({ emptyStream with headersSent := true }.emit .created 0) [] [] :=
    empty.plain rfl rfl 0
  have masked : Masked ({ emptyStream with headersSent := true }.emit .created 0) [] := by
    simp [Masked, emptyStream, Stream.emit]
  have shaped : Shaped emptyStream.result [] false := ⟨rfl, by simp, fun _ => rfl⟩
  have heard : Heard [.turnStarted] ({ emptyStream with headersSent := true }.emit .created 0)
      false := ⟨by simp, by simp, fun some => absurd rfl some⟩
  obtain ⟨items, textual, later, bits, placed, headers⟩ := execute_announced created masked shaped
    heard (show TextFirst ([.turnStarted] ++ messages) from first)
  have begun : generationExecute emptyStream (.turnStarted :: messages) =
      generationExecute ({ emptyStream with headersSent := true }.emit .created 0) messages := rfl
  simp only [handleGeneration, begun, headers rfl, if_true]
  split_ifs with complete
  · obtain ⟨grammar, closed⟩ := complete_closed later bits placed
    exact ⟨grammar, .inr closed⟩
  · refine ⟨later.ended rfl 0, .inl ?_⟩
    exact ⟨_, mem_append_right _ (mem_singleton_self _), rfl⟩

theorem response_stream_grammar_mixed :
    let messages := [.fragment ⟨.assistantText, 1, [], []⟩,
      .fragment ⟨.functionCall, 2, ['c'], ['f']⟩, .turnComplete .toolCalls]
    Grammar (handleGeneration (.turnStarted :: messages) true) ∧
      ((∃ event ∈ handleGeneration (.turnStarted :: messages) true, event.kind = .failed) ∨
        AllClosed (handleGeneration (.turnStarted :: messages) true)) := by
  refine response_stream_grammar _ true ?_
  rintro before fragment after split called
  rcases before with _ | ⟨started, _ | ⟨text, before⟩⟩
  · simp at split
  · simp only [cons_append, nil_append, cons.injEq, Message.fragment.injEq] at split
    rw [← split.2.1] at called
    cases called
  · simp only [cons_append, cons.injEq] at split
    refine .inl ⟨⟨.assistantText, 1, [], []⟩, ?_, by decide, by decide⟩
    rw [← split.2.1]
    simp

/-- A tool call and the text behind it share an index, and a failed turn closes nothing. -/
theorem response_stream_ungrammatical :
    ¬ Grammar (handleGeneration [.turnStarted, .fragment ⟨.functionCall, 2, ['c'], ['f']⟩,
      .fragment ⟨.assistantText, 1, [], []⟩, .turnComplete .stop] true) ∧
    ¬ AllClosed (handleGeneration [.turnStarted, .fragment ⟨.assistantText, 1, [], []⟩,
      .error] true) := by
  constructor
  · intro grammar
    have shared := grammar.oneIndex ⟨.outputItemAdded, 1, some (0, .call ['c'])⟩ (by decide)
      ⟨.outputTextDelta, 3, some (0, .message)⟩ (by decide) _ rfl _ rfl
    exact absurd (shared.mp rfl) (by decide)
  · intro closed
    exact absurd (closed .message (by decide)) (by decide)

end Yvex.ResponseStream
