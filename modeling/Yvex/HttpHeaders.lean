import Yvex.ReceivedStream
import Yvex.StateRecipe

/-!
# HTTP request headers

The header parser works in place on the buffer the request was received in, so
bytes of the body can stand behind the headers while it runs. Its result
depends on the bytes up to the end of the headers only.
-/

set_option autoImplicit false

namespace Yvex.HttpHeaders
open AttentionData StateRecipe ReceivedStream List

def headerMax : ℕ := 32768

def headerCountMax : ℕ := 64

def bodyMax : ℕ := 1048576

def cstring (buffer : List UInt8) : List UInt8 := buffer.takeWhile (· != 0)

def endMark : List UInt8 := [13, 10, 13, 10]

def headerEnd : List UInt8 → Option ℕ
  | [] => none
  | byte :: rest =>
    if endMark.isPrefixOf (byte :: rest) then some 4
    else if byte = 0 then none
    else (headerEnd rest).map (· + 1)

def splitLines : List UInt8 → List (List UInt8)
  | [] => [[]]
  | 13 :: 10 :: rest => [] :: splitLines rest
  | byte :: rest =>
    match splitLines rest with
    | [] => [[byte]]
    | line :: lines => (byte :: line) :: lines

def contentLengthFrom : ℕ → List UInt8 → Option ℕ
  | parsed, [] => some parsed
  | parsed, byte :: rest =>
    if byte < 48 ∨ byte > 57 ∨ parsed > (2 ^ 64 - 1 - (byte.toNat - 48)) / 10 then none
    else contentLengthFrom (parsed * 10 + (byte.toNat - 48)) rest

def contentLength (text : List UInt8) : Option ℕ :=
  if text = [] then none else contentLengthFrom 0 text

def lower (byte : UInt8) : UInt8 := if 65 ≤ byte ∧ byte ≤ 90 then byte + 32 else byte

def ascii (text : List Char) : List UInt8 := text.map fun c => UInt8.ofNat c.toNat

def contentLengthName : List UInt8 :=
  ascii ['c', 'o', 'n', 't', 'e', 'n', 't', '-', 'l', 'e', 'n', 'g', 't', 'h']

def transferEncodingName : List UInt8 :=
  ascii ['t', 'r', 'a', 'n', 's', 'f', 'e', 'r', '-', 'e', 'n', 'c', 'o', 'd', 'i', 'n', 'g']

def headerName (name expected : List UInt8) : Bool := name.map lower == expected

def isBlank (byte : UInt8) : Bool := byte == 32 || byte == 9

def tooLarge : Refusal :=
  errorOnly .bounds "gateway.http.headers" "HTTP headers or body exceed the gateway limit"

def malformed : Refusal :=
  errorOnly .format "gateway.http.headers" "malformed bounded HTTP/1.1 request"

def transferEncoding : Refusal :=
  errorOnly .unsupported "gateway.http.headers" "Transfer-Encoding requests are unsupported"

def parseFields : ℕ → Option ℕ → List (List UInt8) → Except Refusal (Option ℕ)
  | _, seen, [] => .ok seen
  | _, seen, [last] => if last = [] then .ok seen else .error malformed
  | fields, seen, line :: next :: rest =>
    if line = [] then .ok seen
    else if fields + 1 > headerCountMax then .error tooLarge
    else
      let name := line.takeWhile (· != 58)
      let behind := (line.drop (name.length + 1)).dropWhile isBlank
      let value := (behind.reverse.dropWhile isBlank).reverse
      if name.length = line.length ∨ name = [] then .error malformed
      else if headerName name contentLengthName then
        match seen, contentLength value with
        | none, some declared => parseFields (fields + 1) (some declared) (next :: rest)
        | _, _ => .error malformed
      else if headerName name transferEncodingName then .error transferEncoding
      else parseFields (fields + 1) seen (next :: rest)

structure RequestLine where
  method : List UInt8
  path : List UInt8
  deriving DecidableEq

def requestLine (line : List UInt8) : Except Refusal RequestLine :=
  let method := line.takeWhile (· != 32)
  let behind := line.drop (method.length + 1)
  let path := behind.takeWhile (· != 32)
  let version := behind.drop (path.length + 1)
  if method.length = line.length ∨ method = [] ∨ method.length ≥ 8 then .error malformed
  else if path.length = behind.length ∨ path = [] ∨ path.length ≥ 256 then .error malformed
  else if version ≠ ascii ['H', 'T', 'T', 'P', '/', '1', '.', '1'] ∨ path.head? ≠ some 47 then
    .error malformed
  else .ok ⟨method, path⟩

def parseLines : List (List UInt8) → Except Refusal (RequestLine × ℕ)
  | first :: second :: rest => do
    let line ← requestLine first
    let seen ← parseFields 0 none (second :: rest)
    if line.method = ascii ['P', 'O', 'S', 'T'] ∧ seen = none then .error malformed
    else if seen.getD 0 > bodyMax then .error tooLarge
    else .ok (line, seen.getD 0)
  | _ => .error malformed

def parseHeaders (buffer : List UInt8) (count : ℕ) : Except Refusal (RequestLine × ℕ) :=
  if count < 4 ∨ 0 ∈ buffer.take count then .error malformed
  else parseLines (splitLines (cstring buffer))

variable {p : ℕ}

section Search

theorem headerEnd_cons (b : UInt8) (rs : List UInt8) : headerEnd (b :: rs) =
      if endMark.isPrefixOf (b :: rs) then some 4
      else if b = 0 then none else (headerEnd rs).map (· + 1) := rfl

variable {bs : List UInt8}

theorem endMark_append (h : 4 ≤ bs.length) (m : List UInt8) :
    endMark.isPrefixOf (bs ++ m) = endMark.isPrefixOf bs := by
  match bs, h with
  | a :: b :: c :: d :: rs, _ => simp [endMark, isPrefixOf]

theorem headerEnd_split (h : headerEnd bs = some p) :
    ∃ pre rs, bs = pre ++ (endMark ++ rs) ∧ p = pre.length + 4 ∧ (0 : UInt8) ∉ pre := by
  induction bs generalizing p with
  | nil => cases h
  | cons be rs ih =>
    rw [headerEnd_cons] at h
    split at h
    · rename_i hm
      obtain ⟨b, hbeh⟩ := isPrefixOf_iff_prefix.mp hm
      cases h
      exact ⟨[], b, hbeh.symm, rfl, by simp⟩
    split at h
    · cases h
    rename_i hb
    obtain ⟨i, hin, rfl⟩ := Option.map_eq_some_iff.mp h
    obtain ⟨pre, b, hs, hp, hz⟩ := ih hin
    refine ⟨be :: pre, b, by rw [hs]; rfl, by simp [hp], ?_⟩
    intro hmem
    rcases mem_cons.mp hmem with hh | ht
    · exact hb hh.symm
    · exact hz ht

theorem headerEnd_within (h : headerEnd bs = some p) : 4 ≤ p ∧ p ≤ bs.length := by
  obtain ⟨pre, rs, rfl, rfl, _⟩ := headerEnd_split h
  simp [endMark]

theorem headerEnd_stays (h : headerEnd bs = some p) (m : List UInt8) :
    headerEnd (bs ++ m) = some p := by
  induction bs generalizing p with
  | nil => cases h
  | cons b rs ih =>
    have hlen := headerEnd_within h
    rw [cons_append, headerEnd_cons, ← cons_append, endMark_append (by omega)]
    rw [headerEnd_cons] at h
    split at h
    · rename_i hm
      rw [if_pos hm, h]
    rename_i hm
    rw [if_neg hm]
    split at h
    · cases h
    rename_i hb
    obtain ⟨i, hin, rfl⟩ := Option.map_eq_some_iff.mp h
    rw [if_neg hb, ih hin]
    rfl

theorem headerEnd_seen {m : List UInt8} (h : headerEnd (bs ++ m) = some p)
    (hp : p ≤ bs.length) : headerEnd bs = some p := by
  induction bs generalizing p with
  | nil =>
    have hl := (headerEnd_within h).1
    simp at hp
    omega
  | cons b rs ih =>
    have hl := (headerEnd_within h).1
    rw [cons_append, headerEnd_cons, ← cons_append, endMark_append (by omega)] at h
    rw [headerEnd_cons]
    split at h
    · rename_i hm
      rw [if_pos hm, h]
    rename_i hm
    rw [if_neg hm]
    split at h
    · cases h
    rename_i hb
    obtain ⟨i, hin, rfl⟩ := Option.map_eq_some_iff.mp h
    rw [length_cons] at hp
    rw [if_neg hb, ih hin (by omega)]
    rfl

theorem headerEnd_stable : Stable headerEnd where
  within _ _ h := (headerEnd_within h).2
  stays _ more _ h := headerEnd_stays h more
  seen _ _ _ h hplace := headerEnd_seen h hplace

end Search

theorem splitLines_ne_nil (bs : List UInt8) : splitLines bs ≠ [] := by
  fun_cases splitLines bs <;> simp_all

theorem splitLines_append (front rs : List UInt8) :
    splitLines (front ++ 13 :: 10 :: rs) = splitLines front ++ splitLines rs := by
  fun_induction splitLines front with
  | case1 => rfl
  | case2 front ih => rw [cons_append, cons_append, splitLines, ih]; rfl
  | case3 be front hn hl => exact absurd hl (splitLines_ne_nil _)
  | case4 be front hn l ls hl ih =>
    rw [cons_append, splitLines, ih, hl]
    · rfl
    · rintro b rfl hh
      cases front with
      | nil => cases hh
      | cons next front =>
        cases hh
        exact hn front rfl rfl

theorem parseFields_cons {f : ℕ} {s : Option ℕ} {l : List UInt8}
    {t : List (List UInt8)} (ht : t ≠ []) :
    parseFields f s (l :: t) =
      if l = [] then .ok s
      else if f + 1 > headerCountMax then .error tooLarge
      else
        let name := l.takeWhile (· != 58)
        let hbh := (l.drop (name.length + 1)).dropWhile isBlank
        let value := (hbh.reverse.dropWhile isBlank).reverse
        if name.length = l.length ∨ name = [] then .error malformed
        else if headerName name contentLengthName then
          match s, contentLength value with
          | none, some declared => parseFields (f + 1) (some declared) t
          | _, _ => .error malformed
        else if headerName name transferEncodingName then .error transferEncoding
        else parseFields (f + 1) s t := by
  cases t with
  | nil => exact absurd rfl ht
  | cons => rw [parseFields]

theorem parseFields_local (ls : List (List UInt8)) {behind others : List (List UInt8)}
    (hb : behind ≠ []) (hot : others ≠ []) (f : ℕ) (s : Option ℕ) :
    parseFields f s (ls ++ [] :: behind) = parseFields f s (ls ++ [] :: others) := by
  induction ls generalizing f s with
  | nil =>
    rw [nil_append, nil_append, parseFields_cons hb, parseFields_cons hot]
    rfl
  | cons l ls ih =>
    rw [cons_append, cons_append, parseFields_cons (by simp), parseFields_cons (by simp)]
    simp only [ih]

theorem parseLines_local {ls : List (List UInt8)} (hl : ls ≠ [])
    {behind others : List (List UInt8)} (hb : behind ≠ []) (hot : others ≠ []) :
    parseLines (ls ++ [] :: behind) = parseLines (ls ++ [] :: others) := by
  cases ls with
  | nil => exact absurd rfl hl
  | cons f ls =>
    have hf := parseFields_local ls hb hot 0 none
    cases ls with
    | nil =>
      simp only [nil_append] at hf
      simp only [cons_append, nil_append, parseLines, hf]
    | cons =>
      simp only [cons_append] at hf
      simp only [cons_append, parseLines, hf]

/-- The headers do not depend on what the buffer holds behind them. -/
theorem parseHeaders_take {buf : List UInt8} (h : headerEnd buf = some p) :
    parseHeaders buf p = parseHeaders (buf.take p) p := by
  obtain ⟨pre, rs, rfl, rfl, hz⟩ := headerEnd_split h
  have hc : ∀ b : List UInt8, cstring (pre ++ (endMark ++ b)) = pre ++ (endMark ++ cstring b) := by
    intro b
    have hma : ∀ be ∈ endMark, (be != 0) = true := by decide +kernel
    have hp : ∀ be ∈ pre ++ endMark, (be != 0) = true := by
      intro be hb
      rcases mem_append.mp hb with hm | hm
      · exact bne_iff_ne.mpr (fun he => hz (he ▸ hm))
      · exact hma be hm
    rw [← append_assoc, ← append_assoc, cstring, takeWhile_append_of_pos hp]
    rfl
  have hl : ∀ b : List UInt8, splitLines (pre ++ (endMark ++ b)) =
      splitLines pre ++ [] :: splitLines b := by
    intro b
    have hend : endMark ++ b = 13 :: 10 :: 13 :: 10 :: b := rfl
    rw [hend, splitLines_append, splitLines]
  have ht : (pre ++ (endMark ++ rs)).take (pre.length + 4) = pre ++ (endMark ++ []) := by
    rw [take_append, take_of_length_le (by omega), Nat.add_sub_cancel_left]
    rfl
  have ha : (pre ++ (endMark ++ [])).take (pre.length + 4) = pre ++ (endMark ++ []) := by
    simp [endMark]
  unfold parseHeaders
  rw [ht, ha, hc, hc, hl, hl,
    parseLines_local (splitLines_ne_nil pre) (splitLines_ne_nil _) (splitLines_ne_nil (cstring []))]

end Yvex.HttpHeaders
