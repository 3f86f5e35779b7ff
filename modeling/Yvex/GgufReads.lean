import Yvex.GgufReader

/-!
# What the GGUF reader reads

The bytes, the cost and the conditions of every part of a GGUF directory. A part is
read exactly when its bytes stand at the cursor, its conditions hold, and the
limits and allocations suffice for its cost.
-/

set_option autoImplicit false

namespace Yvex.GgufReads

open CheckedArithmetic GgufData GgufNames GgufReader MeteredReader LittleEndian Datum List Reads

variable (p : Place) (ls : ℕ)

variable {x : Input} {site f : String}

theorem reads_le {p : Place} {w : ℕ} : Reads x.source (readLe x p w site f) (fun v => v) (leBytes w)
      (fun _ => one .structural w) (· < 256 ^ w) :=
  reads_word _ _ _ _

def stringCost (bytes : List UInt8) : Charge Meter :=
  one .structural 8 + (one .owned (bytes.length + 1) + (asked + one .structural bytes.length) +
    one .strings bytes.length)

structure StringAdmitted (options : ReaderOptions) (formatMax : ℕ) (rejectEmpty rejectNul : Bool)
    (bytes : List UInt8) : Prop where
  nonempty : rejectEmpty = true → bytes ≠ []
  short : formatMax = 0 ∨ bytes.length ≤ formatMax
  limit : bytes.length ≤ options.maxStringBytes.toNat
  addressable : bytes.length ≤ sizeMax - 1
  clean : rejectNul = true → 0 ∉ bytes
  utf8 : utf8Valid bytes = true

theorem reads_stringCopy (fo length : ℕ) (site f : String) :
    Reads x.source (readStringCopy x p fo length site f)
      (fun bs => bs) (fun bs => bs) (fun _ => one .structural length)
      (fun bs => bs.length = length) := by
  unfold readStringCopy
  by_cases he : length = 0
  · subst he
    apply (reads_pure (fun bs => bs) []).congr
    · intro bs
      rw [length_eq_zero_iff]
    · rintro bs rfl
      exact ⟨rfl, Charge.ext (by simp) rfl⟩
  · rw [if_neg he]
    exact (reads_take _ _ _ _).onError _

variable {fo len : ℕ} {re : Bool}

theorem reads_stringBytes {p : Place} :
    Reads x.source (readStringBytes x p fo re len site f) (fun bs => bs) (fun bs => bs)
      (fun _ => one .owned (len + 1) + (asked + one .structural len))
      (fun bs => bs.length = len ∧ (re = true → 0 ∉ bs) ∧ utf8Valid bs = true) := by
  refine Reads.iff (reads_charge.next fun _ => (reads_request _).next fun _ =>
    (reads_stringCopy _ _ _ _ _).ending fun bs _ => checks_require.and fun _ =>
      checks_require.and fun _ => checks_pure _) ?_
  cases re <;> simp

theorem reads_stringOf {p : Place} {r : Bool} :
    Reads x.source (readStringOf x p fo r re len site f) (fun bs => bs) (fun bs => bs)
      (fun bs => one .owned (bs.length + 1) + (asked + one .structural bs.length) +
        one .strings bs.length)
      (fun bs => bs.length = len ∧ StringAdmitted x.options fo r re bs) := by
  refine congr (checks_require.next fun _ => checks_require.next fun _ =>
    checks_require.next fun _ => checks_require.next fun _ =>
    reads_stringBytes.charging _ _ _ (fun _ _ => by simp)) ?_ ?_
  · intro bs
    constructor
    · rintro ⟨hne, hsh, m, ha, rfl, hc, hu⟩
      refine ⟨rfl, ?_, by simpa using hsh, by simpa using m, by simpa using ha, hc, hu⟩
      rintro rfl rfl
      simp at hne
    · rintro ⟨rfl, hne, hsh, m, ha, hc, hu⟩
      refine ⟨?_, by simpa using hsh, by simpa using m, by simpa using ha, rfl, hc, hu⟩
      cases r with
      | false => rfl
      | true => simpa using hne rfl
  · rintro bs ⟨-, -, -, -, rfl, -⟩
    exact ⟨rfl, rfl⟩

theorem reads_string {p : Place} {r : Bool} :
    Reads x.source (readString x p fo r re site f) (fun bs => bs) encodeString stringCost
      (StringAdmitted x.options fo r re) := by
  refine Reads.iff (reads_le.field length fun len _ => reads_stringOf) ?_
  intro bs
  constructor
  · rintro ⟨-, ha⟩
    exact ha
  · intro ha
    have word : x.options.maxStringBytes.toNat < 256 ^ 8 := x.options.maxStringBytes.toNat_lt
    exact ⟨lt_of_le_of_lt ha.limit word, ha⟩

theorem reads_valueType {p : Place} : Reads x.source (readValueType x p site f) (fun t => t)
      (fun t => leBytes 4 t.code) (fun _ => one .structural 4) (· ≠ .invalid) := by
  have hr : Reads x.source (readValueType x p site f) ValueType.ofCode
      (leBytes 4) (fun _ => one .structural 4) (fun hr => hr < 256 ^ 4 ∧
        decide (hr ≤ ValueType.float64.code) = true ∧ True) :=
    reads_le.ending fun _ _ => checks_require.and fun _ => checks_pure _
  refine hr.along ValueType.ofCode ?_ ?_
  · rintro hr ⟨-, hk, -⟩
    rw [ValueType.code_ofCode (of_decide_eq_true hk)]
    exact ⟨rfl, rfl, rfl⟩
  · intro t
    constructor
    · rintro ⟨hr, ⟨-, hk, -⟩, rfl⟩
      exact ValueType.ofCode_known (of_decide_eq_true hk)
    · intro hk
      have hsm := t.code_le hk
      refine ⟨t.code, ⟨?_, decide_eq_true hsm, trivial⟩, t.ofCode_code⟩
      exact lt_of_le_of_lt hsm (by decide)

def headCost (count : ℕ) : Charge Meter :=
  one .structural 4 + (one .structural 8 + one .arrays count)

def itemsCost (count : ℕ) : Charge Meter := one .owned (count * valueBytes) + asked

structure HeadAdmitted (options : ReaderOptions) (element : ValueType) (count : ℕ) : Prop where
  known : element ≠ .invalid
  limit : count ≤ options.maxArrayEntries.toNat
  addressable : count ≤ sizeMax / valueBytes

theorem reads_countEntries (n : ℕ) : Pays x.source (countEntries x p n) () (one .arrays n)
    (n ≤ x.options.maxArrayEntries.toNat ∧ n ≤ sizeMax / valueBytes) := by
  refine congr (checks_require.next fun _ =>
    checks_require.value.charging _ _ _ fun _ _ => rfl) ?_ ?_
  · simp
  · intro d _
    exact ⟨rfl, by simp⟩

theorem reads_arrayCount : Reads x.source (parseArrayCount x p) (fun n => n) (leBytes 8)
      (fun n => one .structural 8 + one .arrays n)
      (fun n => n ≤ x.options.maxArrayEntries.toNat ∧ n ≤ sizeMax / valueBytes) := by
  refine congr (reads_le.charged fun n _ =>
    (reads_countEntries _ _).next fun _ => reads_return _) ?_ ?_
  · intro n
    have word : x.options.maxArrayEntries.toNat < 256 ^ 8 := x.options.maxArrayEntries.toNat_lt
    constructor
    · rintro ⟨-, l, -⟩
      exact l
    · intro l
      exact ⟨lt_of_le_of_lt l.1 word, l, trivial⟩
  · intro n _
    exact ⟨rfl, by simp⟩

theorem reads_arrayHead : Reads x.source (parseArrayHead x p) (fun head => head)
      (fun head => leBytes 4 head.1.code ++ leBytes 8 head.2) (fun head => headCost head.2)
      (fun head => HeadAdmitted x.options head.1 head.2) := by
  refine reads_valueType.build Prod.mk (fun e _ => (reads_arrayCount _).map _)
    (fun _ _ _ _ => ⟨rfl, rfl⟩) ?_
  intro head
  constructor
  · rintro ⟨hkn, m, ha⟩
    exact ⟨_, _, hkn, ⟨m, ha⟩, rfl⟩
  · rintro ⟨_, _, hkn, ⟨m, ha⟩, rfl⟩
    exact ⟨hkn, m, ha⟩

def allocationCost (count : ℕ) : Charge Meter := if count = 0 then 0 else itemsCost count

mutual

def Datum.cost : Datum → Charge Meter
  | .scalar type _ => one .structural (scalarSpecs type).bytes
  | .string bytes => stringCost bytes
  | .array _ items => headCost items.length + (allocationCost items.length + costAll items)

def costAll : List Datum → Charge Meter
  | [] => 0
  | datum :: rest => Datum.cost datum + costAll rest

end

def Datum.Admitted (options : ReaderOptions) : ℕ → Datum → Prop
  | _, .scalar type bits => type.Scalar ∧ bits < 256 ^ (scalarSpecs type).bytes ∧
      (scalarValue type bits).isSome
  | _, .string bytes => StringAdmitted options 0 false false bytes
  | 0, .array _ _ => False
  | levels + 1, .array element items => HeadAdmitted options element items.length ∧
      ∀ item ∈ items, item.typeOf = element ∧ Datum.Admitted options levels item

abbrev ReadsData (input : Input) {ε : Type} (read : Reader Meter ε Value) (admits : Datum → Prop) :
    Prop :=
  Reads input.source read Datum.value Datum.encode Datum.cost admits

abbrev ReadsType (input : Input) (place : Place) (levels : ℕ) (type : ValueType) : Prop :=
  ReadsData input (parseValue input place levels type) fun datum =>
    datum.typeOf = type ∧ Datum.Admitted input.options levels datum

theorem reads_scalar (t : ValueType) : ReadsData x (parseScalar x p t) fun d =>
    ∃ b, d = .scalar t b ∧ b < 256 ^ (scalarSpecs t).bytes ∧ (scalarValue t b).isSome := by
  have b : Reads x.source (parseScalar x p t)
      (fun b => (scalarValue t b).getD .invalid) (leBytes (scalarSpecs t).bytes)
      (fun _ => one .structural (scalarSpecs t).bytes)
      (fun b => b < 256 ^ (scalarSpecs t).bytes ∧ (scalarValue t b).isSome) := by
    apply reads_le.ending
    intro b _
    cases found : scalarValue t b with
    | some v => exact (checks_pure v).congr (by simp)
    | none => exact (checks_fail _ _).congr (by simp)
  refine b.along (scalar t) (fun b _ => ⟨?_, ?_, ?_⟩) ?_
  · rw [value]
  · rw [encode]
  · rw [Datum.cost]
  · intro d
    constructor
    · rintro ⟨b, ok, rfl⟩
      exact ⟨b, rfl, ok⟩
    · rintro ⟨b, rfl, ok⟩
      exact ⟨b, ok, rfl⟩

theorem reads_items (e : ValueType) {parse : Reader Meter Broken Value} {ok : Datum → Prop}
    (hi : ReadsData x parse ok) (n : ℕ) (dn : List Value) :
    Reads x.source (parseItems e parse n dn) (fun xs => dn ++ valueAll xs)
      encodeAll costAll (fun xs => xs.length = n ∧ ∀ item ∈ xs, ok item) := by
  induction n generalizing dn with
  | zero =>
    exact reads_nil (by rw [valueAll, append_nil]) (by rw [encodeAll]) (by rw [costAll]) nofun
  | succ r ih =>
    have hs : ∀ d, ok d → Reads x.source (parseItems e parse r (dn ++ [d.value]))
        (fun l => dn ++ valueAll (d :: l)) encodeAll costAll
        (fun l => l.length = r ∧ ∀ item ∈ l, ok item) := by
      intro d _
      have l := ih (dn ++ [d.value])
      simp only [append_assoc, singleton_append] at l
      simpa only [valueAll] using l
    exact Reads.cons (fun _ _ => by rw [encodeAll]) (fun _ _ => by rw [costAll])
      (fun _ _ => forall_mem_cons) (hi.onError _) hs

theorem reads_allocateItems (n : ℕ) :
    Pays x.source (allocateItems x p n) () (itemsCost n) True :=
  Reads.iff (reads_charge.next fun _ => reads_request _) (by simp)

theorem value_array (e : ValueType) {xs : List Datum} (some : xs ≠ []) :
    (Datum.array e xs).value = .array e (valueAll xs) := by
  cases xs with
  | nil => exact absurd rfl some
  | cons => rw [value, valueAll]

/-- Given a reader of its items, an array is read in its encoding. -/
theorem reads_array {pa : ValueType → Reader Meter Broken Value}
    {ok : Datum → Prop} (e : ValueType) (n : ℕ)
    (hi : ReadsData x (pa e) ok) :
    Reads x.source (parseArray x p pa e n) (fun xs => (Datum.array e xs).value) encodeAll
      (fun xs => allocationCost xs.length + costAll xs)
      (fun xs => xs.length = n ∧ ∀ item ∈ xs, ok item) := by
  unfold parseArray
  by_cases he : n = 0
  · subst he
    refine (reads_return (Value.bare e 0)).along (fun _ => []) (fun _ _ => ⟨?_, ?_, ?_⟩) ?_
    · rw [value]
    · rw [encodeAll]
    · rfl
    · intro xs
      constructor
      · rintro ⟨_, -, rfl⟩
        exact ⟨rfl, nofun⟩
      · rintro ⟨l, -⟩
        exact ⟨(), trivial, (length_eq_zero_iff.mp l).symm⟩
  · rw [if_neg he]
    have body : Reads x.source (do
        leaving (.bare e n) (allocateItems x p n)
        let xs ← parseItems e (pa e) n []
        return .array e xs) (fun xs => Value.array e ([] ++ valueAll xs))
        encodeAll (fun xs => itemsCost n + costAll xs)
        (fun xs => True ∧ xs.length = n ∧ ∀ item ∈ xs, ok item) :=
      ((reads_allocateItems p n).onError _).next fun _ =>
        (reads_items e hi n []).map (Value.array e)
    refine body.along (fun xs => xs) ?_ ?_
    · rintro xs ⟨-, rfl, -⟩
      refine ⟨?_, rfl, ?_⟩
      · rw [value_array e (fun none => he (by rw [none]; rfl)), nil_append]
      · rw [allocationCost, if_neg he]
    · simp

variable {o : ReaderOptions} {t : ValueType}

theorem admitted_scalar {ls : ℕ} {b : ℕ} :
    Datum.Admitted o ls (.scalar t b) ↔ t.Scalar ∧
      b < 256 ^ (scalarSpecs t).bytes ∧ (scalarValue t b).isSome := by
  cases ls <;> rfl

theorem admitted_string {ls : ℕ} {bs : List UInt8} :
    Datum.Admitted o ls (.string bs) ↔ StringAdmitted o 0 false false bs := by
  cases ls <;> rfl

theorem reads_scalarValue (s : t.Scalar) : ReadsType x p ls t := by
  have hs : parseValue x p ls t = leaving (.start t) (parseScalar x p t) := by
    cases ls <;> cases t <;> first | rfl | exact absurd rfl s
  rw [ReadsType, hs]
  refine Reads.iff ((reads_scalar p t).onError _) ?_
  intro d
  constructor
  · rintro ⟨b, rfl, ok⟩
    exact ⟨rfl, admitted_scalar.mpr ⟨s, ok⟩⟩
  · rintro ⟨rfl, ok⟩
    cases d with
    | scalar t b => exact ⟨b, rfl, (admitted_scalar.mp ok).2⟩
    | string => exact absurd rfl s
    | array => exact absurd rfl s

theorem reads_stringValue : ReadsType x p ls .string := by
  have hs : parseValue x p ls .string = leaving (.start .string) (do
      let data ← readString x p 0 false false "gguf.metadata.value" "truncated GGUF metadata string"
      return .string (some data)) := by
    cases ls <;> rfl
  rw [ReadsType, hs]
  refine ((reads_string.map _).along string (fun bs _ => ⟨?_, ?_, ?_⟩) ?_).onError _
  · rw [value]
  · rw [encode]
  · rw [Datum.cost]
  · intro d
    constructor
    · rintro ⟨bs, ok, rfl⟩
      exact ⟨rfl, admitted_string.mpr ok⟩
    · rintro ⟨t, ok⟩
      cases d with
      | scalar =>
        obtain ⟨s, -⟩ := admitted_scalar.mp ok
        subst t
        exact absurd rfl s
      | string bs => exact ⟨bs, admitted_string.mp ok, rfl⟩
      | array => cases t

variable {d : Datum}

theorem admitted_array {ls : ℕ} (t : d.typeOf = .array) (ok : Datum.Admitted o ls d) :
    ∃ e xs, d = .array e xs := by
  cases d with
  | scalar =>
    obtain ⟨s, -⟩ := admitted_scalar.mp ok
    subst t
    exact absurd rfl s
  | string => cases t
  | array e xs => exact ⟨e, xs, rfl⟩

theorem not_admitted_invalid {ls : ℕ} (t : d.typeOf = .invalid) : ¬ Datum.Admitted o ls d := by
  intro ok
  cases d with
  | scalar =>
    obtain ⟨s, -⟩ := admitted_scalar.mp ok
    subst t
    exact s rfl
  | string => cases t
  | array => cases t

theorem reads_arrayValue (hit : ∀ e, ReadsType x p ls e) : ReadsType x p (ls + 1) .array := by
  refine ((reads_arrayHead p).onError _).build (fun h xs => array h.1 xs)
    (fun h _ => reads_array p h.1 h.2 (hit h.1)) ?_ ?_
  · rintro ⟨e, _⟩ xs - ⟨rfl, -⟩
    constructor
    · rw [encode, append_assoc]
    · rw [Datum.cost]
  · intro d
    constructor
    · rintro ⟨t, ok⟩
      obtain ⟨e, xs, rfl⟩ := admitted_array t ok
      exact ⟨(e, xs.length), xs, ok.1, ⟨rfl, ok.2⟩, rfl⟩
    · rintro ⟨⟨e, _⟩, xs, h, ⟨rfl, all⟩, rfl⟩
      exact ⟨rfl, h, all⟩

theorem reads_refusedValue {p : Place} {ls : ℕ} {l : Value} {e : Cursor Meter → Stop}
    (hs : parseValue x p ls t = leaving l (fail e))
    (none : ∀ d, d.typeOf = t → ¬ Datum.Admitted x.options ls d) : ReadsType x p ls t := by
  rw [ReadsType, hs]
  refine Reads.iff ((reads_fail e _ _ _).onError _) fun d => ?_
  rw [false_iff, not_and]
  exact none d

theorem reads_value (ls : ℕ) (t : ValueType) : ReadsType x p ls t := by
  by_cases s : t.Scalar
  · exact reads_scalarValue p ls s
  cases t with
  | string => exact reads_stringValue p ls
  | array =>
    cases ls with
    | zero =>
      apply reads_refusedValue rfl
      intro d t ok
      obtain ⟨e, xs, rfl⟩ := admitted_array t ok
      exact ok
    | succ ls => exact reads_arrayValue p ls (reads_value ls)
  | invalid =>
    cases ls <;> exact reads_refusedValue rfl fun d t => not_admitted_invalid t
  | _ => exact absurd (by decide) s

end Yvex.GgufReads
