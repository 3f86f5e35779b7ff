import Mathlib.Data.List.TakeWhile
import Yvex.CheckedSteps
import Yvex.HttpRead

/-!
# Framing of accepted HTTP requests

Two readers of one byte stream agree on where a request ends when its length is
declared once, in decimal, and no line announces a transfer encoding. The header
parser compares whole names: a name with a blank before its colon is a field it
does not know, so a transfer encoding written that way is accepted.
-/

set_option autoImplicit false

namespace Yvex.HttpFraming
open AttentionData StateRecipe ReceivedStream CheckedSteps HttpHeaders HttpRead List

def headerLines (stream : List UInt8) : List (List UInt8) :=
  match headerEnd (stream.take headerMax) with
  | none => []
  | some bodyOffset =>
    ((splitLines (stream.take bodyOffset)).drop 1).takeWhile (fun line => line ≠ [])

def fieldName (line : List UInt8) : List UInt8 := line.takeWhile (· != 58)

def fieldValue (line : List UInt8) : List UInt8 :=
  let behind := (line.drop ((fieldName line).length + 1)).dropWhile isBlank
  (behind.reverse.dropWhile isBlank).reverse

def isSpace (byte : UInt8) : Bool := byte == 32 || (9 ≤ byte && byte ≤ 13)

def stripped (name : List UInt8) : List UInt8 :=
  ((name.dropWhile isSpace).reverse.dropWhile isSpace).reverse

def lengthLines (lines : List (List UInt8)) : List (List UInt8) :=
  lines.filter fun line => headerName (fieldName line) contentLengthName

def decimalFrom (start : ℕ) (digits : List UInt8) : ℕ :=
  digits.foldl (fun value byte => value * 10 + (byte.toNat - 48)) start

structure IsDecimal (digits : List UInt8) (value : ℕ) : Prop where
  some_digit : digits ≠ []
  digit : ∀ byte ∈ digits, 48 ≤ byte ∧ byte ≤ 57
  read : decimalFrom 0 digits = value
  fits : value < 2 ^ 64

def Formed (line : List UInt8) : Prop :=
  ∃ name value, name ≠ [] ∧ 58 ∉ name ∧ line = name ++ 58 :: value

structure Framed (request : HttpRequest) (lines : List (List UInt8)) : Prop where
  no_transfer : ∀ line ∈ lines, headerName (stripped (fieldName line)) transferEncodingName = false
  formed : ∀ line ∈ lines, Formed line
  once : (lengthLines lines).length ≤ 1
  declared : ∀ line ∈ lengthLines lines, IsDecimal (fieldValue line) request.body.length
  posted : request.method = ascii ['P', 'O', 'S', 'T'] → (lengthLines lines).length = 1

def PaddedTransfer (line : List UInt8) : Prop :=
  stripped (fieldName line) ≠ fieldName line ∧
    headerName (stripped (fieldName line)) transferEncodingName = true

instance : DecidablePred PaddedTransfer := fun _ => inferInstanceAs (Decidable (_ ∧ _))

variable {ds l : List UInt8}

theorem contentLengthFrom_decimal {p n : ℕ}
    (h : contentLengthFrom p ds = some n) (hp : p < 2 ^ 64) :
    (∀ b ∈ ds, 48 ≤ b ∧ b ≤ 57) ∧ decimalFrom p ds = n ∧ n < 2 ^ 64 := by
  induction ds generalizing p with
  | nil =>
    cases h
    exact ⟨nofun, rfl, hp⟩
  | cons b ds ih =>
    rw [contentLengthFrom] at h
    split at h
    · cases h
    rename_i hhd
    simp only [not_or, UInt8.not_lt, not_lt] at hhd
    obtain ⟨hl, hh, hr⟩ := hhd
    have hb : b.toNat ≤ 57 := UInt8.le_iff_toNat_le.mp hh
    obtain ⟨hd, hre, hf⟩ := ih h (by omega)
    exact ⟨forall_mem_cons.mpr ⟨⟨hl, hh⟩, hd⟩, hre, hf⟩

theorem contentLength_decimal {n : ℕ} (h : contentLength ds = some n) :
    IsDecimal ds n := by
  rw [contentLength] at h
  split at h
  · cases h
  · rename_i hs
    obtain ⟨hd, hr, hf⟩ := contentLengthFrom_decimal h (by norm_num)
    exact ⟨hs, hd, hr, hf⟩

theorem line_formed (h : ¬((fieldName l).length = l.length ∨ fieldName l = [])) :
    ∃ n v, n ≠ [] ∧ 58 ∉ n ∧ l = n ++ 58 :: v := by
  obtain ⟨hl, hn⟩ := not_or.mp h
  have hh : fieldName l ++ l.dropWhile (· != 58) = l := takeWhile_append_dropWhile
  have hc : (58 : UInt8) ∉ fieldName l := by
    intro hm
    simpa using mem_takeWhile_imp hm
  cases hr : l.dropWhile (· != 58) with
  | nil =>
    rw [hr, append_nil] at hh
    exact absurd (congrArg length hh) hl
  | cons b v =>
    have hb := head?_dropWhile_not (· != 58) l
    simp only [hr, head?_cons, bne_eq_false_iff_eq] at hb
    rw [hr, hb] at hh
    exact ⟨fieldName l, v, hn, hc, hh.symm⟩

structure Accepted (seen result : Option ℕ) (lines : List (List UInt8)) : Prop where
  formed : ∀ line ∈ lines, Formed line
  exact : ∀ line ∈ lines, headerName (fieldName line) transferEncodingName = false
  lengths : ∃ values, (lengthLines lines).map (fun line => contentLength (fieldValue line)) =
    values.map some ∧ seen.toList ++ values = result.toList

theorem names_differ {n : List UInt8} (h : headerName n contentLengthName = true) :
    headerName n transferEncodingName = false := by
  rw [headerName, beq_iff_eq] at h
  rw [headerName, h]
  rfl

/-- Accepted header lines declare the length that the parser returns. -/
theorem parseFields_accepted {ls : List (List UInt8)} {k : ℕ} {s r : Option ℕ}
    (h : parseFields k s ls = .ok r) :
    Accepted s r (ls.takeWhile (fun l => l ≠ [])) := by
  have hn : ∀ s : Option ℕ, Accepted s s [] :=
    fun s => ⟨nofun, nofun, [], rfl, append_nil _⟩
  fun_induction parseFields k s ls with
  | case1 | case2 | case4 => cases h; exact hn _
  | case3 | case5 | case6 | case8 | case9 => cases h
  | case7 k l next re hl hc n b value hfo hh d hv ih =>
    obtain ⟨hf, he, v, hvs, hr⟩ := ih h
    rw [takeWhile_cons_of_pos (by simpa using hl)]
    refine ⟨forall_mem_cons.mpr ⟨line_formed hfo, hf⟩,
      forall_mem_cons.mpr ⟨names_differ hh, he⟩, d :: v, ?_, hr⟩
    rw [lengthLines, filter_cons_of_pos (by exact hh), map_cons, map_cons]
    exact congrArg₂ cons hv hvs
  | case10 k s l next re hl hc n hfo hh htra ih =>
    obtain ⟨hf, he, v, hvs, hr⟩ := ih h
    rw [takeWhile_cons_of_pos (by simpa using hl)]
    refine ⟨forall_mem_cons.mpr ⟨line_formed hfo, hf⟩,
      forall_mem_cons.mpr ⟨Bool.eq_false_iff.mpr htra, he⟩, v, ?_, hr⟩
    rw [lengthLines, filter_cons_of_neg (by exact hh)]
    exact hvs

theorem stripped_exact (h : ¬PaddedTransfer l)
    (he : headerName (fieldName l) transferEncodingName = false) :
    headerName (stripped (fieldName l)) transferEncodingName = false := by
  by_cases hp : stripped (fieldName l) = fieldName l
  · rw [hp, he]
  · exact Bool.eq_false_iff.mpr fun ht => h ⟨hp, ht⟩

theorem parseHeaders_accepted {bs : List UInt8} {li : RequestLine} {p n : ℕ}
    (h : parseHeaders bs p = .ok (li, n)) (hp : bs.length = p) :
    ∃ se : Option ℕ, Accepted none se (((splitLines bs).drop 1).takeWhile (fun l => l ≠ [])) ∧
      n = se.getD 0 ∧ (li.method = ascii ['P', 'O', 'S', 'T'] → se ≠ none) := by
  rw [parseHeaders, ← hp, take_length] at h
  split at h
  · cases h
  rename_i hw
  have hstr : cstring bs = bs := by
    rw [cstring, takeWhile_eq_self_iff]
    intro b hb
    exact bne_iff_ne.mpr fun hz => hw (.inr (hz ▸ hb))
  rw [hstr] at h
  rcases hlines : splitLines bs with _ | ⟨first, _ | ⟨s, r⟩⟩
  · rw [hlines] at h
    cases h
  · rw [hlines] at h
    cases h
  rw [hlines] at h
  obtain ⟨f, hfi, h⟩ := bind_ok.mp h
  obtain ⟨se, hf, h⟩ := bind_ok.mp h
  split at h
  · cases h
  rename_i hpos
  split at h
  · cases h
  · cases h
    exact ⟨se, parseFields_accepted hf, rfl, fun hm hs => hpos ⟨hm, hs⟩⟩

/-- An accepted request is framed exactly when no name with white space around
it announces a transfer encoding. -/
theorem framed_iff (allocates : ℕ → Bool) {segments : List Receive} {stream : List UInt8}
    {request : HttpRequest} (hsplits : Splits segments stream)
    (haccepted : httpRead allocates segments = .ok request) :
    Framed request (headerLines stream) ↔ ∀ line ∈ headerLines stream, ¬PaddedTransfer line := by
  constructor
  · intro hframed line hline hpadded
    have hnone := hframed.no_transfer line hline
    rw [hpadded.2] at hnone
    cases hnone
  · intro hnone
    have houtcome : streamOutcome allocates stream = .ok request := by
      rcases httpRead_cases allocates hsplits with hsame | ⟨_, hrefused⟩
      · rw [← hsame, haccepted]
      · rw [hrefused] at haccepted
        cases haccepted
    obtain ⟨p, line, n, ⟨hplace, hparsed⟩, hrequest, hbody⟩ := streamOutcome_ok _ houtcome
    have hlength : (stream.take p).length = p := by
      rw [length_take, Nat.min_eq_left (headerEnd_bound hplace).2.1]
    have hlines : headerLines stream =
        ((splitLines (stream.take p)).drop 1).takeWhile (fun l => l ≠ []) := by
      rw [headerLines, hplace]
    obtain ⟨seen, haccepts, hn, hposted⟩ := parseHeaders_accepted hparsed hlength
    rw [← hlines] at haccepts
    obtain ⟨hformed, hexact, values, hvalues, hresult⟩ := haccepts
    have hcount := congrArg length hvalues
    have hsize := congrArg length hresult
    simp only [length_map, Option.toList_none, nil_append] at hcount hsize hresult
    constructor
    · exact fun line hline => stripped_exact (hnone line hline) (hexact line hline)
    · exact hformed
    · rw [hcount, hsize]
      cases seen <;> simp
    · intro line hline
      have hmem := mem_map_of_mem hline (f := fun line => contentLength (fieldValue line))
      rw [hvalues, hresult] at hmem
      obtain ⟨value, hvalue, hsome⟩ := mem_map.mp hmem
      have hwhole : request.body.length = value := by
        rw [hbody, hn, Option.mem_toList.mp hvalue, Option.getD_some]
      exact hwhole ▸ contentLength_decimal hsome.symm
    · intro hpost
      obtain ⟨value, hseen⟩ := Option.ne_none_iff_exists'.mp (hposted (by rw [← hpost, hrequest]))
      rw [hcount, hsize, hseen]
      rfl

def requestBytes (method : List Char) (field : List UInt8) : List UInt8 :=
  ascii (method ++ [' ', '/', ' ', 'H', 'T', 'T', 'P', '/', '1', '.', '1']) ++ 13 :: 10 ::
    field ++ endMark

def postBytes : List UInt8 :=
  requestBytes ['P', 'O', 'S', 'T'] (contentLengthName ++ [58, 32, 49]) ++ [88]

theorem framed_post :
    Framed ⟨ascii ['P', 'O', 'S', 'T'], ascii ['/'], [88]⟩ (headerLines postBytes) := by
  have honce : Splits [.data postBytes] postBytes := ⟨⟨by decide, trivial⟩, rfl⟩
  exact (framed_iff (fun _ => true) honce rfl).mpr (by decide)

def paddedBytes : List UInt8 := requestBytes ['G', 'E', 'T'] (transferEncodingName ++ [32, 58, 120])

/-- One blank before the colon hides a transfer encoding. -/
theorem padded_transfer_accepted :
    httpRead (fun _ => true) [.data paddedBytes] = .ok ⟨ascii ['G', 'E', 'T'], ascii ['/'], []⟩ ∧
      ¬Framed ⟨ascii ['G', 'E', 'T'], ascii ['/'], []⟩ (headerLines paddedBytes) := by
  refine ⟨rfl, fun hframed => ?_⟩
  have hnone := hframed.no_transfer (transferEncodingName ++ [32, 58, 120]) (by decide)
  exact absurd hnone (by decide)

end Yvex.HttpFraming
