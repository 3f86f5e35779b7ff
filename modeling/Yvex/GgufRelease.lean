import Yvex.GgufTensors

/-!
# Releasing a partial GGUF view

A failed parse leaves values behind. Releasing one visits an array's items by its
count, so an array with entries must have its items. The reader sets the count of
an array before it asks for the items: it leaves an array without items exactly
when their storage is refused, at any depth of any entry.
-/

set_option autoImplicit false

namespace Yvex.GgufRelease

open GgufData GgufReader GgufReads MeteredReader ReaderFailures LittleEndian

variable (p : Place) (ls : ℕ) (t : ValueType) (n : ℕ)

mutual

def Value.Sound : Value → Prop
  | .bare _ count => count = 0
  | .array _ items => SoundAll items
  | _ => True

def SoundAll : List Value → Prop
  | [] => True
  | value :: rest => Value.Sound value ∧ SoundAll rest

end

mutual

def Value.size : Value → ℕ
  | .array _ items => sizeAll items + 1
  | _ => 1

def sizeAll : List Value → ℕ
  | [] => 0
  | value :: rest => Value.size value + sizeAll rest

end

mutual

def Value.clear : Value → Option ℕ
  -- How many values clearing a value visits; none when it reads an item that was never
  -- allocated. The address of the first missing item is null and is skipped.
  | .bare _ count => if count ≤ 1 then some 1 else none
  | .array _ items => (clearAll items).map (· + 1)
  | _ => some 1

def clearAll : List Value → Option ℕ
  | [] => some 0
  | value :: rest => (Value.clear value).bind fun first => (clearAll rest).map (first + ·)

end

mutual

theorem clear_sound (v : Value) (hs : Value.Sound v) : Value.clear v = some (Value.size v) := by
  match v with
  | .invalid | .unsigned _ _ | .signed _ _ | .float _ _ | .bool _ | .string _ =>
    simp [Value.clear, Value.size]
  | .bare e n =>
    rw [Value.Sound] at hs
    simp [Value.clear, Value.size, hs]
  | .array e items =>
    rw [Value.clear, Value.size, clearAll_sound items hs, Option.map_some]

/-- Clearing sound values visits each of their allocated values once. -/
theorem clearAll_sound (v : List Value) (hs : SoundAll v) : clearAll v = some (sizeAll v) := by
  match v with
  | [] => simp [clearAll, sizeAll]
  | value :: r =>
    rw [clearAll, sizeAll, clear_sound value hs.1, clearAll_sound r hs.2,
      Option.bind_some, Option.map_some]

end

theorem soundAll_append (f rest : List Value) :
    SoundAll (f ++ rest) ↔ SoundAll f ∧ SoundAll rest := by
  induction f with
  | nil => simp [SoundAll]
  | cons value r ih => rw [List.cons_append, SoundAll, SoundAll, ih, and_assoc]

theorem soundAll_blanks : SoundAll (List.replicate n .blank) := by
  induction n with
  | zero => simp [SoundAll]
  | succ n ih => exact ⟨trivial, ih⟩

theorem sound_start : Value.Sound (.start t) := by
  cases t <;> simp [Value.start, scalarSpecs, Value.Sound]

theorem sound_scalar (b : ℕ) : Value.Sound ((scalarValue t b).getD .invalid) := by
  by_cases hsm : b ≤ 1 <;> cases t <;> simp [scalarValue, scalarSpecs, hsm, Value.Sound]

mutual

theorem sound_value (d : Datum) : Value.Sound d.value := by
  match d with
  | .scalar t bits =>
    exact sound_scalar t bits
  | .string _ | .array _ [] => simp [Datum.value, Value.Sound]
  | .array e (i :: rest) =>
    exact ⟨sound_value i, sound_valueAll rest⟩

theorem sound_valueAll (d : List Datum) : SoundAll (valueAll d) := by
  match d with
  | [] => simp [valueAll, SoundAll]
  | datum :: r => exact ⟨sound_value datum, sound_valueAll r⟩

end

theorem sound_snoc {v : List Value} (hs : SoundAll v) (d : Datum) : SoundAll (v ++ [d.value]) :=
  (soundAll_append _ _).mpr ⟨hs, sound_value d, trivial⟩

def Stop.Halted (stop : Stop) : Prop := stop ≠ .endless

structure Broken.Fine (broken : Broken) : Prop where
  halted : Stop.Halted broken.stop
  leftover : Value.Sound broken.leftover
  released : SoundAll broken.released

structure Failure.Fine (failure : Failure) : Prop where
  halted : Stop.Halted failure.stop
  metadata : SoundAll failure.metadata
  released : SoundAll failure.released

variable {x : Input} {f r : String} {pa : ParseSection}

theorem halted_cursorFail {p : Place} {code : ParseCode} {s : String} (c : Cursor Meter) :
    Stop.Halted (cursorFail p code pa s r c) := by
  nofun

theorem clean_le {p : Place} {w : ℕ} {s : String} : Clean x.source (readLe x p w s f) Stop.Halted :=
  clean_word _ _ halted_cursorFail halted_cursorFail

theorem clean_check {p : Place} {passes : Bool} {code : ParseCode} {s : String} :
    Clean x.source (require passes (cursorFail p code pa s r))
      Stop.Halted :=
  clean_require _ halted_cursorFail

theorem clean_stringCopy (fo len : ℕ) (s f : String) :
    Clean x.source (readStringCopy x p fo len s f) Stop.Halted := by
  unfold readStringCopy
  split_ifs
  · exact clean_pure _
  · exact (clean_take _ _ halted_cursorFail halted_cursorFail).onError
      fun _ _ _ => halted_cursorFail _

theorem clean_stringBytes {p : Place} {fo : ℕ} {r : Bool} {len : ℕ} {s : String} :
    Clean x.source (readStringBytes x p fo r len s f)
      Stop.Halted :=
  (clean_charge halted_cursorFail).bind fun _ =>
    (clean_request halted_cursorFail).bind fun _ =>
    (clean_stringCopy _ _ _ _ _).bind fun _ => clean_check.bind fun _ =>
    clean_check.bind fun _ => clean_pure _

theorem clean_string {p : Place} {fo : ℕ} {r rj : Bool} {s : String} :
    Clean x.source (readString x p fo r rj s f)
      Stop.Halted :=
  clean_le.bind fun _ => clean_check.bind fun _ =>
    clean_check.bind fun _ => clean_check.bind fun _ =>
    clean_check.bind fun _ => clean_stringBytes.charging
      reads_stringBytes _ _ halted_cursorFail (fun _ _ => by simp)

theorem clean_valueType {p : Place} {s : String} :
    Clean x.source (readValueType x p s f) Stop.Halted :=
  clean_le.bind fun _ => clean_check.bind fun _ => clean_pure _

theorem clean_scalar : Clean x.source (parseScalar x p t) Stop.Halted := by
  apply clean_le.bind
  intro b
  cases scalarValue t b with
  | some v => exact clean_pure v
  | none => exact clean_fail halted_cursorFail

theorem clean_arrayHead : Clean x.source (parseArrayHead x p) Stop.Halted := by
  have n : ∀ n, Clean x.source (countEntries x p n) Stop.Halted := by
    intro n
    exact clean_check.bind fun _ => clean_check.charging
      checks_require.value _ _ halted_cursorFail (fun _ _ => rfl)
  exact clean_valueType.bind fun _ => (clean_le.bind fun _ =>
    (n _).bind fun _ => clean_pure _).bind fun _ => clean_pure _

variable {l : Value}

theorem clean_leaving {α : Type} {r : Reader Meter Stop α}
    (hc : Clean x.source r Stop.Halted) (hs : Value.Sound l) :
    Clean x.source (leaving l r) Broken.Fine :=
  hc.onError fun _ _ hh => ⟨hh, hs, trivial⟩

theorem fine_item (e : ValueType) {d : List Value} (hs : SoundAll d) (r : ℕ) (b : Broken) :
    Broken.Fine ⟨b.stop, .invalid, b.released ++
      [.array e (d ++ b.leftover :: List.replicate r .blank)]⟩ ↔
      Broken.Fine b := by
  have hb := soundAll_blanks r
  constructor
  · rintro ⟨hh, -, hr⟩
    simp only [soundAll_append, SoundAll, Value.Sound] at hr
    exact ⟨hh, hr.2.1.2.1, hr.1⟩
  · rintro ⟨hh, l, hr⟩
    refine ⟨hh, trivial, ?_⟩
    simp only [soundAll_append, SoundAll, Value.Sound]
    exact ⟨hr, ⟨hs, l, hb⟩, trivial⟩

theorem clean_items {parse : Reader Meter Broken Value} {ok : Datum → Prop}
    {f : Broken → Prop} (e : ValueType)
    (item : ReadsData x parse ok) (hc : Clean x.source parse f)
    (hl : ∀ d r b, SoundAll d → f b → f ⟨b.stop, .invalid, b.released ++
        [.array e (d ++ b.leftover :: List.replicate r .blank)]⟩)
    (n : ℕ) (d : List Value) (hs : SoundAll d) :
    Clean x.source (parseItems e parse n d) f := by
  induction n generalizing d with
  | zero => exact clean_pure d
  | succ r ih =>
    apply (hc.onError fun _ b hh => hl d r b hs hh).after (item.onError _)
    exact fun da _ => ih _ (sound_snoc hs da)

theorem clean_allocateItems : Clean x.source (allocateItems x p n) Stop.Halted :=
  (clean_charge halted_cursorFail).bind fun _ => clean_request halted_cursorFail

theorem clean_flat {t : ValueType} (flat : t ≠ .array) :
    Clean x.source (parseValue x p ls t) Broken.Fine := by
  have te : Clean x.source (do
      let data ← readString x p 0 false false "gguf.metadata.value" "truncated GGUF metadata string"
      return Value.string (some data)) Stop.Halted :=
    clean_string.bind fun _ => clean_pure _
  cases t with
  | array => exact absurd rfl flat
  | string => cases ls <;> exact clean_leaving te (sound_start _)
  | invalid =>
    cases ls <;> exact clean_leaving (clean_fail halted_cursorFail) trivial
  | _ => cases ls <;> exact clean_leaving (clean_scalar _ _) (sound_start _)

theorem keeps_value : Clean x.source (parseValue x p ls t) (fun _ => True) := by
  induction ls generalizing t with
  | zero =>
    by_cases hf : t = .array
    · subst hf
      exact (clean_leaving (clean_fail halted_cursorFail) (sound_start _)).mono fun _ _ => trivial
    · exact (clean_flat p 0 hf).mono fun _ _ => trivial
  | succ ls ih =>
    by_cases hf : t = .array
    · subst hf
      apply ((clean_leaving (clean_arrayHead p) (sound_start _)).mono fun _ _ => trivial).bind
      rintro ⟨e, n⟩
      dsimp only
      unfold parseArray
      split_ifs
      · exact clean_pure _
      apply ((clean_allocateItems p n).onError fun _ _ _ => trivial).bind
      intro d
      exact (clean_items e (reads_value p ls e) (ih e)
        (fun _ _ _ _ _ => trivial) n [] trivial).bind fun _ => clean_pure _
    · exact (clean_flat p _ hf).mono fun _ _ => trivial

inductive Path where
  | here (element : ValueType) (count : ℕ)
  | inside (count : ℕ) (done : List Datum) (next : Path)

namespace Path

def count : Path → ℕ
  | here _ count => count
  | inside _ _ next => next.count

def encode : Path → List UInt8
  | here element count => leBytes 4 element.code ++ leBytes 8 count
  | inside count done next =>
    (leBytes 4 ValueType.array.code ++ leBytes 8 count) ++ (encodeAll done ++ next.encode)

def cost : Path → Charge Meter
  | here _ count => headCost count
  | inside count done next => headCost count + (itemsCost count + (costAll done + next.cost))

def Admitted (options : ReaderOptions) : ℕ → Path → Prop
  | 0, _ => False
  | _ + 1, here element count => HeadAdmitted options element count ∧ count ≠ 0
  | levels + 1, inside count done next => HeadAdmitted options .array count ∧
      done.length < count ∧
      (∀ item ∈ done, item.typeOf = .array ∧ Datum.Admitted options levels item) ∧
      next.Admitted options levels

end Path

def Refused (input : Input) (cursor : Cursor Meter) (count : ℕ) : Prop :=
  input.source.limit .owned < cursor.spent .owned + count * valueBytes ∨
    input.grants cursor.requests = false

theorem allocateItems_fails (c : Cursor Meter) :
    (∃ s, (allocateItems x p n c).1 = .error s) ↔ Refused x c n := by
  unfold allocateItems
  rw [run_bind]
  by_cases hx : x.source.limit .owned < c.spent .owned + n * valueBytes
  · have her : reserveOwned x p (n * valueBytes) c = (.error (resourceFail p
        .resourceLimit "GGUF owned-memory budget exceeded" c), c) := if_pos hx
    rw [her]
    exact ⟨fun _ => Or.inl hx, fun _ => ⟨_, rfl⟩⟩
  have her : reserveOwned x p (n * valueBytes) c =
      (.ok (), c.advance 0 (one .owned (n * valueBytes))) := if_neg hx
  rw [her]
  dsimp only [request]
  by_cases hg : x.source.grants (c.advance 0 (one .owned (n * valueBytes))).requests = true
  · rw [if_pos hg]
    constructor
    · rintro ⟨_, h⟩
      cases h
    · rintro (hb | hm)
      · exact absurd hb hx
      · exact absurd (hg.symm.trans hm) (by simp)
  · rw [if_neg hg]
    exact ⟨fun _ => Or.inr (Bool.eq_false_of_not_eq_true hg), fun _ => ⟨_, rfl⟩⟩

theorem leaving_error {α : Type} {r : Reader Meter Stop α} {c : Cursor Meter} {b : Broken} :
    (leaving l r c).1 = .error b ↔ ∃ s, (r c).1 = .error s ∧ b = ⟨s, l, []⟩ := by
  unfold leaving onError
  cases r c with
  | mk o =>
    cases o with
    | ok => simp
    | error => simp [eq_comm]

theorem refused_iff (e : ValueType) {n : ℕ} (some : n ≠ 0) (c : Cursor Meter) :
    (∃ b, (leaving (.bare e n) (allocateItems x p n) c).1 =
      .error b ∧ ¬ Broken.Fine b) ↔ Refused x c n := by
  rw [← allocateItems_fails p]
  constructor
  · rintro ⟨b, hf, -⟩
    obtain ⟨s, hf', -⟩ := leaving_error.mp hf
    exact ⟨s, hf'⟩
  · rintro ⟨s, hf⟩
    refine ⟨_, leaving_error.mpr ⟨s, hf, rfl⟩, ?_⟩
    rintro ⟨-, l, -⟩
    exact some l

section Items

variable {δ : Type} {format : δ → List UInt8} {cost : δ → Charge Meter} {admits : δ → Prop}
  {refuses : δ → Cursor Meter → Prop}

/-- The loop over an array's items breaks behind some items, where the next one breaks. -/
theorem breaks_items {parse : Reader Meter Broken Value} {ok : Datum → Prop} (e : ValueType)
    (hit : ReadsData x parse ok)
    (hb : Breaks x.source parse Broken.Fine format cost admits refuses) (n : ℕ)
    (d : List Value) (hs : SoundAll d) :
    Breaks x.source (parseItems e parse n d) Broken.Fine
      (fun pr : List Datum × δ => encodeAll pr.1 ++ format pr.2)
      (fun pr => costAll pr.1 + cost pr.2)
      (fun pr => pr.1.length < n ∧ (∀ hit ∈ pr.1, ok hit) ∧ admits pr.2)
      (fun pr => refuses pr.2) := by
  induction n generalizing d with
  | zero =>
    apply (clean_pure d).breaks
    rintro pr ⟨h, -⟩
    exact absurd h (Nat.not_lt_zero _)
  | succ r ih =>
    have now := hb.onError fun _ b => fine_item e hs r b
    exact Breaks.cons (fun _ => by simp) (fun _ _ _ => by simp [and_assoc])
      ⟨by rw [encodeAll], by rw [costAll]⟩ (fun _ _ => ⟨by rw [encodeAll], by rw [costAll]⟩)
      (hit.onError _) now fun f _ => ih _ (sound_snoc hs f)

end Items

abbrev Tail := Option (List Datum × Path)

namespace Tail

def encode : Tail → List UInt8
  | none => []
  | some (done, next) => encodeAll done ++ next.encode

def cost (count : ℕ) : Tail → Charge Meter
  | none => 0
  | some (done, next) => itemsCost count + (costAll done + next.cost)

def Admitted (options : ReaderOptions) (levels : ℕ) (element : ValueType) (count : ℕ) :
    Tail → Prop
  | none => count ≠ 0
  | some (done, next) => element = .array ∧ done.length < count ∧
      (∀ item ∈ done, item.typeOf = .array ∧ Datum.Admitted options levels item) ∧
      next.Admitted options levels

def final (count : ℕ) : Tail → ℕ
  | none => count
  | some (_, next) => next.count

def path (element : ValueType) (count : ℕ) : Tail → Path
  | none => .here element count
  | some (done, next) => .inside count done next

end Tail

theorem breaks_body {ls : ℕ}
    (ih : Breaks x.source (parseValue x p ls .array) Broken.Fine Path.encode
      Path.cost (Path.Admitted x.options ls)
      (fun path mid => Refused x mid path.count)) (e : ValueType) (n : ℕ) :
    Breaks x.source (do
        let i ← parseItems e (parseValue x p ls e) n []
        return Value.array e i) Broken.Fine
      (fun pr : List Datum × Path => encodeAll pr.1 ++ pr.2.encode)
      (fun pr => costAll pr.1 + pr.2.cost)
      (fun pr => e = .array ∧ pr.1.length < n ∧
        (∀ it ∈ pr.1, it.typeOf = .array ∧ Datum.Admitted x.options ls it) ∧
        pr.2.Admitted x.options ls)
      (fun pr mid => Refused x mid pr.2.count) := by
  by_cases hn : e = .array
  · subst hn
    have i := breaks_items .array (reads_value p ls .array) ih n [] trivial
    simp only [true_and]
    exact i.before (reads_items .array (reads_value p ls .array) n []) (fun _ _ => clean_pure _)
  have i : Clean x.source (parseItems e (parseValue x p ls e) n []) Broken.Fine :=
    clean_items e (reads_value p ls e) (clean_flat p ls hn) (fun d r b hs hf =>
        (fine_item e hs r b).mpr hf) n [] trivial
  apply (i.bind fun _ => clean_pure _).breaks
  rintro pr ⟨h, -⟩
  exact hn h

open Tail

/-- An array is left behind broken only where one of its storage requests was refused. -/
theorem breaks_array {ls : ℕ}
    (ih : Breaks x.source (parseValue x p ls .array) Broken.Fine Path.encode
      Path.cost (Path.Admitted x.options ls)
      (fun path mid => Refused x mid path.count)) (e : ValueType) (n : ℕ) :
    Breaks x.source (parseArray x p (parseValue x p ls) e n) Broken.Fine Tail.encode (Tail.cost n)
      (fun ta => Tail.Admitted x.options ls e n ta)
      (fun ta mid => Refused x mid (Tail.final n ta)) := by
  unfold parseArray
  by_cases he : n = 0
  · rw [if_pos he]
    apply (clean_pure _).breaks
    rintro (_ | ⟨d, next⟩) ha
    · exact ha he
    · have few := ha.2.1
      omega
  · rw [if_neg he]
    intro c hw
    have s : Pays x.source (leaving (.bare e n) (allocateItems x p n)) () (itemsCost n) True :=
      (reads_allocateItems p n).onError _
    rw [bind_breaks s hw, refused_iff p e he c]
    constructor
    · rintro (hr | ⟨_, mid, -, hh, hf⟩)
      · exact ⟨none, c, he, (spans_nil hw).mpr rfl, hr⟩
      · obtain ⟨pr, l, ha, hl, hr⟩ := (breaks_body p ih e n mid hh.within).mp hf
        have hj := spans_append.mpr ⟨mid, hh, hl⟩
        exact ⟨some pr, l, ha, hj, hr⟩
    · rintro ⟨_ | pr, l, ha, hs, hr⟩
      · left
        have same := (spans_nil hw).mp hs
        subst same
        exact hr
      · right
        have hsp : Spans x.source c ([] ++ encode (some pr))
            (itemsCost n + (costAll pr.1 + pr.2.cost)) l := hs
        obtain ⟨mid, hh, hl⟩ := spans_append.mp hsp
        exact ⟨(), mid, trivial, hh, (breaks_body p ih e n mid hh.within).mpr ⟨pr, l, ha, hl, hr⟩⟩

/-- A value breaks exactly on the way to an array whose items are refused. -/
theorem breaks_value : Breaks x.source (parseValue x p ls .array) Broken.Fine Path.encode Path.cost
      (Path.Admitted x.options ls) (fun path mid => Refused x mid path.count) := by
  induction ls with
  | zero =>
    apply (clean_leaving (clean_fail halted_cursorFail) (sound_start _)).breaks
    intro path h
    exact h
  | succ ls ih =>
    refine Breaks.behind (fun head => path head.1 head.2)
      (clean_leaving (clean_arrayHead p) (sound_start .array))
      ((reads_arrayHead p).onError _) (fun head _ => breaks_array p ih head.1 head.2) ?_ ?_
    · rintro ⟨e, n⟩ (_ | ⟨d, next⟩) - ha
      · exact ⟨by simp [path, Path.encode, encode],
          by simp [path, Path.cost, cost], fun _ => Iff.rfl⟩
      · obtain ⟨rfl, -⟩ := ha
        exact ⟨rfl, rfl, fun _ => Iff.rfl⟩
    · rintro (⟨e, n⟩ | ⟨n, d, next⟩)
      · constructor
        · rintro ⟨head, some⟩
          exact ⟨(e, n), none, head, some, rfl⟩
        · rintro ⟨_, _ | _, head, some, he⟩
          · cases he
            exact ⟨head, some⟩
          · cases he
      · constructor
        · rintro ⟨head, few, i, r⟩
          exact ⟨(.array, n), some (d, next), head, ⟨rfl, few, i, r⟩, rfl⟩
        · rintro ⟨⟨e', n'⟩, _ | _, head, ha, he⟩
          · cases he
          · cases he
            obtain ⟨rfl, few, i, r⟩ := ha
            exact ⟨head, few, i, r⟩

end Yvex.GgufRelease
