import Yvex.HttpHeaders

/-!
# Reading one HTTP request

The reader fills a bounded buffer until it holds the end of the headers, parses
them, refuses bytes that stand in the buffer behind the declared body, and
receives the rest of the body. Bytes behind the body that are still on their way
are not looked at. The outcome is a function of the byte stream up to this: the
same surplus bytes are refused when they arrive together with the end of the
headers and ignored when they arrive later.
-/

set_option autoImplicit false

namespace Yvex.HttpRead
open AttentionData StateRecipe ReceivedStream HttpHeaders List

structure HttpRequest where
  method : List UInt8
  path : List UInt8
  body : List UInt8
  deriving DecidableEq

def incomplete : Refusal :=
  errorOnly .io "gateway.http.read" "HTTP client closed before the request completed"

def extentExceeded : Refusal :=
  errorOnly .bounds "gateway.http.headers" "HTTP header extent exceeds the gateway limit"

def surplus : Refusal :=
  errorOnly .format "gateway.http.body" "bytes beyond Content-Length are refused"

def noMemory : Refusal := errorOnly .nomem "gateway.http.body" "HTTP body allocation failed"

def readBody (allocates : ℕ → Bool) (line : RequestLine) (declared : ℕ) (copied : List UInt8)
    (segments : List Receive) : Except Refusal HttpRequest :=
  if declared ≠ 0 ∧ allocates declared = false then .error noMemory
  else match takeExactly declared copied segments with
    | none => .error incomplete
    | some body => .ok ⟨line.method, line.path, body⟩

def httpRead (allocates : ℕ → Bool) (segments : List Receive) : Except Refusal HttpRequest :=
  match receiveUntil headerMax headerEnd [] segments with
  | .closed => .error incomplete
  | .full => .error extentExceeded
  | .found header bodyOffset rest =>
    match parseHeaders header bodyOffset with
    | .error refusal => .error refusal
    | .ok (line, declared) =>
      if header.length - bodyOffset > declared then .error surplus
      else readBody allocates line declared (header.drop bodyOffset) rest

section Stream

variable (allocates a : ℕ → Bool)

structure Splits (segments : List Receive) (stream : List UInt8) : Prop where
  proper : Proper segments
  whole : received segments = stream

def streamOutcome (stream : List UInt8) : Except Refusal HttpRequest :=
  match headerEnd (stream.take headerMax) with
  | none => if stream.length < headerMax then .error incomplete else .error extentExceeded
  | some bodyOffset =>
    match parseHeaders (stream.take bodyOffset) bodyOffset with
    | .error refusal => .error refusal
    | .ok (line, declared) =>
      if declared ≠ 0 ∧ allocates declared = false then .error noMemory
      else match firstBytes declared (stream.drop bodyOffset) with
        | none => .error incomplete
        | some body => .ok ⟨line.method, line.path, body⟩

def Declares (stream : List UInt8) (bodyOffset : ℕ) (line : RequestLine) (declared : ℕ) : Prop :=
  headerEnd (stream.take headerMax) = some bodyOffset ∧
    parseHeaders (stream.take bodyOffset) bodyOffset = .ok (line, declared)

def Surplus (stream : List UInt8) : Prop :=
  ∃ bodyOffset line declared, Declares stream bodyOffset line declared ∧
    bodyOffset + declared < min stream.length headerMax

variable {s : List UInt8}

theorem headerEnd_bound {p : ℕ} (h : headerEnd (s.take headerMax) = some p) :
    4 ≤ p ∧ p ≤ s.length ∧ p ≤ headerMax := by
  have hwit := headerEnd_within h
  rw [length_take] at hwit
  omega

theorem parseHeaders_filled {f m : List UInt8} {p : ℕ}
    (hp : headerEnd (s.take headerMax) = some p) (hle : p ≤ f.length)
    (hm : f.length ≤ headerMax) (hs : f ++ m = s) :
    parseHeaders f p = parseHeaders (s.take p) p := by
  have hh : s.take f.length = f := by rw [← hs, take_left]
  have hf := headerEnd_stable.take_eq hp hle hm
  rw [hh] at hf
  rw [parseHeaders_take hf, ← hh, take_take, Nat.min_eq_left hle]

variable {ss : List Receive}

/-- Either surplus bytes stand in the header buffer, or the outcome is that of
the stream. -/
theorem httpRead_cases (h : Splits ss s) : httpRead a ss = streamOutcome a s ∨
      (Surplus s ∧ httpRead a ss = .error surplus) := by
  have hem : ([] : List UInt8).length < headerMax := by decide
  have hd := receiveUntil_describes headerEnd_stable hem rfl h.proper h.whole
  unfold httpRead streamOutcome
  generalize receiveUntil headerMax headerEnd [] ss = r at hd
  cases r with
  | closed =>
    left
    rw [hd.1]
    simp only [hd.2, if_true]
  | full =>
    have hl : ¬s.length < headerMax := Nat.not_lt.mpr hd.2
    left
    rw [hd.1]
    simp only [hl, if_false]
  | found hf p rt =>
    obtain ⟨hp, hle, hm, hs, hpro⟩ := hd
    have hh := parseHeaders_filled hp hle hm hs
    simp only [hp, hh]
    cases hhea : parseHeaders (s.take p) p with
    | error =>
      left
      rfl
    | ok r =>
      obtain ⟨l, hdc⟩ := r
      dsimp only
      by_cases hhs : hf.length - p > hdc
      · right
        rw [if_pos hhs]
        refine ⟨⟨p, l, hdc, ⟨hp, hhea⟩, ?_⟩, rfl⟩
        rw [← hs, length_append]
        omega
      · left
        have hcop : (hf.drop p).length ≤ hdc := by
          rw [length_drop]
          omega
        have hr : hf.drop p ++ received rt = s.drop p := by
          rw [← hs, drop_append, Nat.sub_eq_zero_of_le hle, drop_zero]
        rw [if_neg hhs, readBody, takeExactly_eq hcop hpro, hr]

/-- An accepted request has the body its headers declare. -/
theorem streamOutcome_ok {r : HttpRequest} (h : streamOutcome a s = .ok r) :
    ∃ bodyOffset l d, Declares s bodyOffset l d ∧
      r = ⟨l.method, l.path, (s.drop bodyOffset).take d⟩ ∧
      r.body.length = d := by
  unfold streamOutcome at h
  split at h
  · split at h <;> cases h
  rename_i p hp
  split at h
  · cases h
  rename_i l d hhea
  split at h
  · cases h
  split at h
  · cases h
  rename_i hb
  cases h
  unfold firstBytes at hb
  split at hb
  · cases hb
    refine ⟨p, l, d, ⟨hp, hhea⟩, rfl, ?_⟩
    rw [length_take]
    omega
  · cases hb

theorem readBody_not_surplus {l : RequestLine} {declared : ℕ} {copied : List UInt8} :
    readBody a l declared copied ss ≠ .error surplus := by
  unfold readBody
  intro h
  split at h
  · cases h
  · split at h <;> cases h

/-- Surplus bytes that arrive with the headers are refused. -/
theorem httpRead_at_once (h : Surplus s) : httpRead a [.data s] = .error surplus := by
  obtain ⟨p, l, d, ⟨hp, hhea⟩, hbeh⟩ := h
  have hb := headerEnd_bound hp
  have hs : s ≠ [] := by
    intro hem
    subst hem
    simp at hb
    omega
  have hh : parseHeaders (s.take headerMax) p = .ok (l, d) := by
    rw [← hhea]
    exact parseHeaders_filled hp (by rw [length_take]; omega)
      (by rw [length_take]; omega) (take_append_drop _ _)
  have hl : (s.take headerMax).length - p > d := by
    rw [length_take]
    omega
  unfold httpRead
  rw [receiveUntil_data [] s [] hs]
  simp only [nil_append, length_nil, Nat.sub_zero, hp, hh, hl, if_true]

/-- The same bytes are not looked at when they arrive after the headers. -/
theorem httpRead_in_two (h : Surplus s) : ∃ ss, Splits ss s ∧ httpRead a ss ≠ .error surplus := by
  obtain ⟨p, l, d, ⟨hp, hhea⟩, hbeh⟩ := h
  have hb := headerEnd_bound hp
  have hl : (s.take p).length = p := by
    rw [length_take]
    omega
  have hf : headerEnd (s.take p) = some p := headerEnd_stable.take_eq hp le_rfl hb.2.2
  have hs : s.take p ≠ [] := by
    intro hem
    rw [hem] at hl
    simp at hl
    omega
  refine ⟨[.data (s.take p), .data (s.drop p)], ⟨⟨hs, ?_, trivial⟩, ?_⟩, ?_⟩
  · intro hem
    have hd := congrArg length hem
    rw [length_drop, length_nil] at hd
    omega
  · simp [received]
  · have hr : (s.take p).take headerMax = s.take p := take_of_length_le (by omega)
    have hfi : ¬p - p > d := by omega
    unfold httpRead
    rw [receiveUntil_data [] _ _ hs]
    simp only [nil_append, length_nil, Nat.sub_zero, hr, hf, hhea, hl, hfi, if_false]
    exact readBody_not_surplus a

structure StreamOnly (stream : List UInt8) : Prop where
  same : ∀ first second, Splits first stream → Splits second stream →
    httpRead allocates first = httpRead allocates second
  exact : ∀ segments request, Splits segments stream →
    httpRead allocates segments = .ok request →
    ∃ bodyOffset line declared, Declares stream bodyOffset line declared ∧
      request = ⟨line.method, line.path, (stream.drop bodyOffset).take declared⟩ ∧
      request.body.length = declared

/-- The outcome depends on the stream alone exactly when no surplus byte can
reach the header buffer. -/
theorem streamOnly_iff (stream : List UInt8) :
    StreamOnly allocates stream ↔ ¬Surplus stream := by
  constructor
  · intro honly hsurplus
    obtain ⟨segments, hsplits, hlate⟩ := httpRead_in_two allocates hsurplus
    have hsome : stream ≠ [] := by
      rintro rfl
      obtain ⟨place, line, declared, _, hbehind⟩ := hsurplus
      simp at hbehind
    have honce : Splits [.data stream] stream := ⟨⟨hsome, trivial⟩, append_nil stream⟩
    rw [honly.same _ _ hsplits honce, httpRead_at_once allocates hsurplus] at hlate
    exact hlate rfl
  · intro hnone
    have hread : ∀ segments, Splits segments stream →
        httpRead allocates segments = streamOutcome allocates stream := by
      intro segments hsplits
      rcases httpRead_cases allocates hsplits with hsame | ⟨hsurplus, _⟩
      · exact hsame
      · exact absurd hsurplus hnone
    constructor
    · intro first second hfirst hsecond
      rw [hread first hfirst, hread second hsecond]
    · intro segments request hsplits hok
      rw [hread segments hsplits] at hok
      exact streamOutcome_ok allocates hok

def getHeaders : List UInt8 :=
  ascii ['G', 'E', 'T', ' ', '/', ' ', 'H', 'T', 'T', 'P', '/', '1', '.', '1'] ++ endMark

/-- One surplus byte is refused or ignored according to when it arrives. -/
theorem surplus_byte_depends :
    httpRead (fun _ => true) [.data (getHeaders ++ [88])] = .error surplus ∧
      httpRead (fun _ => true) [.data getHeaders, .data [88]] =
        .ok ⟨ascii ['G', 'E', 'T'], ascii ['/'], []⟩ :=
  ⟨rfl, rfl⟩

end Stream

end Yvex.HttpRead
